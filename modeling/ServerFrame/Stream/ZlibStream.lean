import ServerFrame.Lib.Codec

/-!
# `ZlibStream`

The stream gives each segment to zlib and collects the output in blocks of `buff_size_` bytes,
the last of which is filled up by the next call. zlib itself is a parameter.
-/
namespace ServerFrame.Stream

open Codec

def zOk : Int := 0

def zStreamError : Int := -2

/-- `ZlibStream::Type`. -/
inductive Format where
  | zlib
  | deflate
  | gzip
  deriving DecidableEq

/-- `level`, `window_bits`, `memlevel` and `strategy`. -/
structure Params where
  level : Int := -1
  windowBits : Int := 15
  memlevel : Int := 8
  strategy : Int := 0

/-- The functions of zlib. `deflateInit2` and `inflateInit2` give no stream when they fail. -/
structure Zlib where
  Deflate : Type
  Inflate : Type
  deflateInit2 : Int → Int → Int → Int → Option Deflate
  inflateInit2 : Int → Option Inflate
  deflate : Call Deflate
  inflate : Call Inflate

/-- `zstream` is `none` behind `deflateEnd` and `inflateEnd`. A block is what it has been filled
with so far. -/
structure ZlibStream (σ : Type) where
  zstream : Option σ
  buffSize : Nat
  buffs : List (List UInt8)

namespace ZlibStream

variable {σ : Type}

/-- The window bits as `Init` hands them over. -/
def windowBits (format : Format) (bits : Int) : Int :=
  match format with
  | .deflate => -bits
  | .gzip => bits + 16
  | .zlib => bits

/-- `Create(true, buff_size, type, ...)`. -/
def createEncoder (z : Zlib) (buffSize : Nat) (format : Format) (p : Params) :
    Option (ZlibStream z.Deflate) :=
  (z.deflateInit2 p.level (windowBits format p.windowBits) p.memlevel p.strategy).map fun s =>
    ⟨some s, buffSize, []⟩

/-- `Create(false, buff_size, type, ...)`. -/
def createDecoder (z : Zlib) (buffSize : Nat) (format : Format) (p : Params) :
    Option (ZlibStream z.Inflate) :=
  (z.inflateInit2 (windowBits format p.windowBits)).map fun s => ⟨some s, buffSize, []⟩

/-- A stream that has been ended is refused. -/
def onStream (call : Call σ) : Call (Option σ) := fun zstream flush input space =>
  match zstream with
  | none => ⟨zStreamError, 0, [], none⟩
  | some s =>
    let r := call s flush input space
    ⟨r.ret, r.consumed, r.output, some r.next⟩

/-- The blocks before the one to go on with, and that one: the last block unless it is full. -/
def lastBlock (zs : ZlibStream σ) : List (List UInt8) × List UInt8 :=
  match zs.buffs.getLast? with
  | none => (zs.buffs, [])
  | some block => if block.length ≠ zs.buffSize then (zs.buffs.dropLast, block) else (zs.buffs, [])

/-- `do ... while (zstream_.avail_out == 0)`. -/
def loop (call : Call σ) (flush : Bool) :
    Nat → ZlibStream σ → List UInt8 → Option (Int × ZlibStream σ)
  | 0, _, _ => none
  | fuel + 1, zs, input =>
    let (front, ivc) := zs.lastBlock
    let space := zs.buffSize - ivc.length
    let r := onStream call zs.zstream flush input space
    if r.ret = zStreamError then
      some (r.ret, { zs with zstream := r.next, buffs := front ++ [ivc] })
    else
      let zs := { zs with zstream := r.next, buffs := front ++ [ivc ++ r.output] }
      if space - r.output.length = 0 then loop call flush fuel zs (input.drop r.consumed)
      else some (zOk, zs)

/-- `zstream_.avail_in = v[i].iov_len` is of 32 bits. -/
def cut (segment : List UInt8) : List UInt8 := segment.take (segment.length % 2 ^ 32)

/-- The loop over the segments. `flush` is what the last one was given with. -/
def segments (call : Call σ) (finish : Bool) (fuel : Nat) :
    Bool → List (List UInt8) → ZlibStream σ → Option (Int × ZlibStream σ)
  | flush, [], zs => some (zOk, if flush then { zs with zstream := none } else zs)
  | _, v :: vs, zs =>
    let flush := finish && vs.isEmpty
    match loop call flush fuel zs (cut v) with
    | none => none
    | some (ret, zs) =>
      if ret = zStreamError then some (ret, zs) else segments call finish fuel flush vs zs

/-- `Encode`, for `deflate`, and `Decode`, for `inflate`. -/
def process (call : Call σ) (fuel : Nat) (v : List (List UInt8)) (finish : Bool)
    (zs : ZlibStream σ) : Option (Int × ZlibStream σ) := segments call finish fuel false v zs

/-- `Write` of the segments of a `ByteArray`, or of a buffer, which is one segment. -/
def write (call : Call σ) (fuel : Nat) (v : List (List UInt8)) (zs : ZlibStream σ) :
    Option (Int × ZlibStream σ) := process call fuel v false zs

def flush (call : Call σ) (fuel : Nat) (zs : ZlibStream σ) : Option (Int × ZlibStream σ) :=
  process call fuel [[]] true zs

def getResult (zs : ZlibStream σ) : List UInt8 := zs.buffs.flatten

/-- One `Write` after the other and `Flush`, with what they return. -/
def session (call : Call σ) (fuel : Nat) :
    List (List (List UInt8)) → ZlibStream σ → Option (List Int × ZlibStream σ)
  | [], zs => (flush call fuel zs).map fun (ret, zs) => ([ret], zs)
  | v :: writes, zs =>
    match write call fuel v zs with
    | none => none
    | some (ret, zs) => (session call fuel writes zs).map fun (rets, zs) => (ret :: rets, zs)

end ZlibStream

open ZlibStream

/-- What an encoding stream returns, and its result. -/
def encode (z : Zlib) (format : Format) (p : Params) (buffSize fuel : Nat)
    (writes : List (List (List UInt8))) : Option (List Int × List UInt8) := do
  let zs ← createEncoder z buffSize format p
  let (rets, zs) ← session z.deflate fuel writes zs
  return (rets, zs.getResult)

/-- What a decoding stream returns, and its result. -/
def decode (z : Zlib) (format : Format) (p : Params) (buffSize fuel : Nat)
    (writes : List (List (List UInt8))) : Option (List Int × List UInt8) := do
  let zs ← createDecoder z buffSize format p
  let (rets, zs) ← session z.inflate fuel writes zs
  return (rets, zs.getResult)

/-! ## Blocks -/

namespace ZlibStream

section Blocks

variable {σ : Type} {call : Call σ} {zs : ZlibStream σ} {s : σ} {ready : σ → Bool → Prop}
  {pending : σ → Bool → List UInt8 → Nat}

/-- The stream has not been ended, and no block is longer than a block can be. -/
structure Open (zs : ZlibStream σ) (s : σ) : Prop where
  stream : zs.zstream = some s
  some_ : 1 ≤ zs.buffSize
  bound : ∀ block ∈ zs.buffs, block.length ≤ zs.buffSize

/-- The block to go on with has room, and nothing is lost or moved. -/
theorem lastBlock_spec (isOpen : Open zs s) :
    zs.lastBlock.2.length < zs.buffSize ∧
      zs.lastBlock.1.flatten ++ zs.lastBlock.2 = zs.getResult ∧
      ∀ block ∈ zs.lastBlock.1, block.length ≤ zs.buffSize := by
  have some_ := isOpen.some_
  unfold lastBlock getResult
  split
  next none =>
    rw [List.getLast?_eq_none_iff] at none
    simpa [none] using Nat.lt_of_lt_of_le Nat.zero_lt_one some_
  next block last =>
    obtain ⟨front, split⟩ := List.getLast?_eq_some_iff.mp last
    have bound := isOpen.bound block (by rw [split]; simp)
    split
    next room =>
      refine ⟨Nat.lt_of_le_of_ne bound room, by rw [split]; simp, fun b member => ?_⟩
      exact isOpen.bound b (List.dropLast_subset _ member)
    next full => exact ⟨some_, List.append_nil _, isOpen.bound⟩

/-- What a call leaves that has not failed. -/
def afterCall (zs : ZlibStream σ) (r : Called σ) : ZlibStream σ :=
  { zs with
    zstream := some r.next
    buffs := zs.lastBlock.1 ++ [zs.lastBlock.2 ++ r.output] }

theorem open_afterCall (isOpen : Open zs s) {r : Called σ}
    (fits : r.output.length ≤ zs.buffSize - zs.lastBlock.2.length) :
    Open (zs.afterCall r) r.next ∧ (zs.afterCall r).getResult = zs.getResult ++ r.output := by
  obtain ⟨room, result, bound⟩ := lastBlock_spec isOpen
  refine ⟨⟨rfl, isOpen.some_, fun block member => ?_⟩, ?_⟩
  · rcases List.mem_append.mp member with member | member
    · exact bound block member
    · rw [List.mem_singleton.mp member, List.length_append]
      simp only [afterCall]
      omega
  · rw [← result, getResult, afterCall, List.flatten_append, List.flatten_singleton,
      List.append_assoc]

/-- A stream behind some output of zlib. -/
structure Went (zs : ZlibStream σ) (out : List UInt8) (zs' : ZlibStream σ) : Prop where
  result : zs'.getResult = zs.getResult ++ out
  buffSize : zs'.buffSize = zs.buffSize

/-- The loop ends, and zlib has put out what it could. The induction is on a bound of what is
still to come: a block that is filled takes at least one byte of it. -/
theorem loop_spec (streaming : Streaming call zStreamError ready pending) {b : Bool}
    (isOpen : Open zs s) (is_ready : ready s b) (input : List UInt8) :
    ∃ zs' out t, (∀ fuel, pending s b input < fuel → loop call b fuel zs input = some (zOk, zs')) ∧
      Drained call b s input out t ∧ Open zs' t ∧ ready t b ∧ Went zs out zs' := by
  induction limit : pending s b input using Nat.strong_induction_on generalizing zs s input with
  | _ n ih =>
    subst limit
    obtain ⟨room, -, -⟩ := lastBlock_spec isOpen
    have space : 0 < zs.buffSize - zs.lastBlock.2.length := by omega
    generalize called : call s b input (zs.buffSize - zs.lastBlock.2.length) = r
    have fits : r.output.length ≤ zs.buffSize - zs.lastBlock.2.length :=
      called ▸ streaming.fits s b input _
    have accepted : r.ret ≠ zStreamError := called ▸ streaming.accepted s b input _ is_ready
    have bounded := streaming.bounded s b input (zs.buffSize - zs.lastBlock.2.length) is_ready
    rw [called] at bounded
    have next_ready : ready r.next b := called ▸ streaming.next s b input _ is_ready
    obtain ⟨next_open, result⟩ := open_afterCall isOpen fits
    have turn (fuel : Nat) : loop call b (fuel + 1) zs input =
        if zs.buffSize - zs.lastBlock.2.length - r.output.length = 0 then
          loop call b fuel (zs.afterCall r) (input.drop r.consumed)
        else some (zOk, zs.afterCall r) := by
      simp only [loop, isOpen.stream, onStream, called, if_neg accepted]
      rfl
    by_cases more : zs.buffSize - zs.lastBlock.2.length - r.output.length = 0
    · -- the block is full, so that the next turn begins another one
      have full : r.output.length = zs.buffSize - zs.lastBlock.2.length := by omega
      obtain ⟨zs', out, t, looped, drained, opened, ready_, went⟩ :=
        ih _ (by omega) next_open next_ready (input.drop r.consumed) rfl
      refine ⟨zs', r.output ++ out, t, fun fuel enough => ?_, ?_, opened, ready_, ?_, went.buffSize⟩
      · obtain ⟨fuel, rfl⟩ : ∃ n, fuel = n + 1 := ⟨fuel - 1, by omega⟩
        rw [turn, if_pos more]
        exact looped fuel (by omega)
      · subst called
        exact .more space full drained
      · rw [went.result, result, List.append_assoc]
    · refine ⟨zs.afterCall r, r.output, r.next, fun fuel enough => ?_, ?_, next_open, next_ready,
        result, rfl⟩
      · obtain ⟨fuel, rfl⟩ : ∃ n, fuel = n + 1 := ⟨fuel - 1, by omega⟩
        rw [turn, if_neg more]
      · subst called
        exact .last space (by omega)

theorem Went.trans {zs' zs'' : ZlibStream σ} {out out' : List UInt8} (first : Went zs out zs')
    (rest : Went zs' out' zs'') : Went zs (out ++ out') zs'' :=
  ⟨by rw [rest.result, first.result, List.append_assoc], rest.buffSize.trans first.buffSize⟩

/-- A `Write` gives zlib its segments. -/
theorem write_spec (streaming : Streaming call zStreamError ready pending) (isOpen : Open zs s)
    (is_ready : ready s false) (v : List (List UInt8)) :
    ∃ N zs' out t, (∀ fuel, N ≤ fuel → write call fuel v zs = some (zOk, zs')) ∧
      Feeds call s (v.map cut) out t ∧ Open zs' t ∧ ready t false ∧ Went zs out zs' := by
  unfold write process
  induction v generalizing zs s with
  | nil =>
    exact ⟨0, zs, [], s, fun _ _ => rfl, .nil s, isOpen, is_ready, (List.append_nil _).symm, rfl⟩
  | cons v vs ih =>
    obtain ⟨zs', out, t, looped, drained, opened, ready', went⟩ :=
      loop_spec streaming isOpen is_ready (cut v)
    obtain ⟨N, zs'', out', u, rest, feeds, opened', ready'', went'⟩ := ih opened ready'
    refine ⟨max N (pending s false (cut v) + 1), zs'', out ++ out', u, fun fuel enough => ?_,
      .cons drained feeds, opened', ready'', went.trans went'⟩
    have ok : zOk ≠ zStreamError := by decide
    rw [segments, Bool.false_and, looped fuel (by omega)]
    simp only [if_neg ok]
    exact rest fuel (by omega)

/-- `Flush` drains what is still to come and ends the stream. -/
theorem flush_spec (streaming : Streaming call zStreamError ready pending) (isOpen : Open zs s)
    (is_ready : ready s true) :
    ∃ N zs' out t, (∀ fuel, N ≤ fuel → flush call fuel zs = some (zOk, zs')) ∧
      Drained call true s [] out t ∧ Went zs out zs' := by
  obtain ⟨zs', out, t, looped, drained, -, -, went⟩ := loop_spec streaming isOpen is_ready []
  refine ⟨pending s true [] + 1, { zs' with zstream := none }, out, t, fun fuel enough => ?_,
    drained, went.result, went.buffSize⟩
  have ok : zOk ≠ zStreamError := by decide
  have nothing : cut [] = [] := rfl
  rw [flush, process, segments, nothing, List.isEmpty_nil, Bool.and_true,
    looped fuel (by omega)]
  simp only [if_neg ok]
  rfl

/-- Everything that is written goes through zlib, and everything that comes out is kept. -/
theorem session_spec (streaming : Streaming call zStreamError ready pending) (isOpen : Open zs s)
    (is_ready : ready s false) (writes : List (List (List UInt8))) :
    ∃ N zs' out, (∀ fuel, N ≤ fuel → session call fuel writes zs =
        some (List.replicate (writes.length + 1) zOk, zs')) ∧
      Whole call s (writes.flatten.map cut) out ∧ zs'.getResult = zs.getResult ++ out := by
  induction writes generalizing zs s with
  | nil =>
    obtain ⟨N, zs', out, t, flushed, drained, went⟩ :=
      flush_spec streaming isOpen (streaming.finish s is_ready)
    refine ⟨N, zs', out, fun fuel enough => ?_, ⟨[], out, s, t, .nil s, drained, rfl⟩, went.result⟩
    rw [session, flushed fuel enough]
    rfl
  | cons v writes ih =>
    obtain ⟨N, zs', front, t, wrote, feeds, opened, ready', went⟩ :=
      write_spec streaming isOpen is_ready v
    obtain ⟨N', zs'', out, rest, ⟨mid, back, u, w, feeds', drained, rfl⟩, result⟩ := ih opened ready'
    refine ⟨max N N', zs'', front ++ (mid ++ back), fun fuel enough => ?_,
      ⟨front ++ mid, back, u, w, ?_, drained, (List.append_assoc ..).symm⟩, ?_⟩
    · rw [session, wrote fuel (by omega)]
      simp only [rest fuel (by omega)]
      rfl
    · rw [List.flatten_cons, List.map_append]
      exact feeds.append feeds'
    · rw [result, went.result, List.append_assoc]

/-- A new stream has no blocks. -/
theorem open_new {n : Nat} (some_ : 1 ≤ n) (s : σ) : Open (ZlibStream.mk (some s) n []) s :=
  ⟨rfl, some_, fun _ member => absurd member List.not_mem_nil⟩

end Blocks

end ZlibStream

/-! ## What zlib is for -/

/-- What zlib documents of `deflate`: a stream can be made, and calls for output come to an end. -/
structure Deflating (z : Zlib) (format : Format) (p : Params) where
  encoder : z.Deflate
  made : z.deflateInit2 p.level (windowBits format p.windowBits) p.memlevel p.strategy = some encoder
  ready : z.Deflate → Bool → Prop
  pending : z.Deflate → Bool → List UInt8 → Nat
  is_ready : ready encoder false
  streaming : Streaming z.deflate zStreamError ready pending

/-- What zlib documents of `inflate`: what a session puts out is settled by the bytes it has been
given. -/
structure Inflating (z : Zlib) (format : Format) (p : Params) where
  decoder : z.Inflate
  made : z.inflateInit2 (windowBits format p.windowBits) = some decoder
  ready : z.Inflate → Bool → Prop
  pending : z.Inflate → Bool → List UInt8 → Nat
  is_ready : ready decoder false
  streaming : Streaming z.inflate zStreamError ready pending
  inflated : List UInt8 → List UInt8
  outputs : ∀ pieces out, Whole z.inflate decoder pieces out → out = inflated pieces.flatten

section Results

variable {z : Zlib} {format : Format} {p : Params} {n : Nat}

theorem encode_spec (deflating : Deflating z format p) (some_ : 1 ≤ n)
    (writes : List (List (List UInt8))) :
    ∃ N y, (∀ fuel, N ≤ fuel → encode z format p n fuel writes =
        some (List.replicate (writes.length + 1) zOk, y)) ∧
      Whole z.deflate deflating.encoder (writes.flatten.map cut) y := by
  obtain ⟨N, zs', y, ran, whole, result⟩ := session_spec deflating.streaming
    (open_new some_ deflating.encoder) deflating.is_ready writes
  refine ⟨N, y, fun fuel enough => ?_, whole⟩
  have y_eq : zs'.getResult = y := result
  simp only [encode, createEncoder, deflating.made, Option.map_some, Option.bind_eq_bind,
    Option.bind_some, ran fuel enough, y_eq]
  rfl

theorem decode_spec (inflating : Inflating z format p) (some_ : 1 ≤ n)
    (writes : List (List (List UInt8))) :
    ∃ N, ∀ fuel, N ≤ fuel → decode z format p n fuel writes =
      some (List.replicate (writes.length + 1) zOk,
        inflating.inflated (writes.flatten.map cut).flatten) := by
  obtain ⟨N, zs', out, ran, whole, result⟩ := session_spec inflating.streaming
    (open_new some_ inflating.decoder) inflating.is_ready writes
  refine ⟨N, fun fuel enough => ?_⟩
  have out_eq : zs'.getResult = out := result
  rw [← inflating.outputs _ _ whole]
  simp only [decode, createDecoder, inflating.made, Option.map_some, Option.bind_eq_bind,
    Option.bind_some, ran fuel enough, out_eq]
  rfl

theorem cut_eq {segment : List UInt8} (small : segment.length < 2 ^ 32) : cut segment = segment := by
  rw [cut, Nat.mod_eq_of_lt small, List.take_length]

theorem flatten_cut {writes : List (List (List UInt8))}
    (small : ∀ v ∈ writes, ∀ segment ∈ v, segment.length < 2 ^ 32) :
    writes.flatten.map cut = writes.flatten := by
  refine (List.map_congr_left fun segment member => ?_).trans (List.map_id _)
  obtain ⟨v, known, inside⟩ := List.mem_flatten.mp member
  exact cut_eq (small v known segment inside)

/-- **Round trip**: what is written to an encoding stream comes back from a decoding one that is
given the result, however the bytes are split and whatever the sizes of the blocks are. -/
theorem round_trip (deflating : Deflating z format p) (inflating : Inflating z format p)
    (inverse : ∀ pieces y, Whole z.deflate deflating.encoder pieces y →
      inflating.inflated y = pieces.flatten)
    {m : Nat} (some_ : 1 ≤ n) (some' : 1 ≤ m) (writes : List (List (List UInt8)))
    (small : ∀ v ∈ writes, ∀ segment ∈ v, segment.length < 2 ^ 32) :
    ∃ N y, (∀ fuel, N ≤ fuel → encode z format p n fuel writes =
        some (List.replicate (writes.length + 1) zOk, y)) ∧
      ∀ writes' : List (List (List UInt8)),
        (∀ v ∈ writes', ∀ segment ∈ v, segment.length < 2 ^ 32) → writes'.flatten.flatten = y →
        ∃ N', ∀ fuel, N' ≤ fuel → decode z format p m fuel writes' =
          some (List.replicate (writes'.length + 1) zOk, writes.flatten.flatten) := by
  obtain ⟨N, y, encoded, whole⟩ := encode_spec deflating some_ writes
  rw [flatten_cut small] at whole
  refine ⟨N, y, encoded, fun writes' small' split => ?_⟩
  obtain ⟨N', decoded⟩ := decode_spec inflating some' writes'
  refine ⟨N', fun fuel enough => ?_⟩
  rw [decoded fuel enough, flatten_cut small', split, inverse _ _ whole]

end Results

/-! ## A small codec -/

/-- The byte `a` as raw deflate writes it, and other bytes one behind the other, each behind a
zero, with an end that is the end of an empty stream. -/
def deflated (x : List UInt8) : List UInt8 :=
  if x = [97] then [0x4b, 4, 0] else (x.flatMap fun b => [0, b]) ++ [3, 0]

def unpaired : List UInt8 → List UInt8
  | 0 :: b :: rest => b :: unpaired rest
  | _ => []

def undeflated : List UInt8 → List UInt8
  | 0x4b :: 4 :: _ => [97]
  | y => unpaired y

/-- Nothing comes out of `deflate` before the end. -/
def deflatable (finish : Bool) (x : List UInt8) : List UInt8 := if finish then deflated x else []

def sample : Zlib where
  Deflate := List UInt8 × Nat
  Inflate := List UInt8 × Nat
  deflateInit2 _ _ _ _ := some ([], 0)
  inflateInit2 _ := some ([], 0)
  deflate := ofAvailable deflatable
  inflate := ofAvailable fun _ => undeflated

section Sample

theorem unpaired_append (x rest : List UInt8) :
    unpaired ((x.flatMap fun b => [0, b]) ++ rest) = x ++ unpaired rest := by
  induction x with
  | nil => rfl
  | cons b x ih => simp [unpaired, ih]

theorem undeflated_deflated (x : List UInt8) : undeflated (deflated x) = x := by
  unfold deflated
  split
  next letter => rw [letter, undeflated]
  next =>
    have pairs : undeflated ((x.flatMap fun b => [0, b]) ++ [3, 0]) =
        unpaired ((x.flatMap fun b => [0, b]) ++ [3, 0]) := by
      cases x <;> rfl
    rw [pairs, unpaired_append]
    exact List.append_nil x

theorem unpaired_grows (y more : List UInt8) : unpaired y <+: unpaired (y ++ more) := by
  fun_induction unpaired y with
  | case1 b rest ih =>
    simp only [List.cons_append, unpaired]
    exact List.cons_prefix_cons.mpr ⟨rfl, ih⟩
  | case2 y => exact List.nil_prefix

theorem undeflated_grows (y more : List UInt8) : undeflated y <+: undeflated (y ++ more) := by
  unfold undeflated
  split
  next => exact List.prefix_refl _
  next other =>
    split
    next rest same =>
      -- there were too few bytes for the letter, and nothing has come out
      cases y with
      | nil => exact List.nil_prefix
      | cons b tail =>
        obtain ⟨rfl, -⟩ := List.cons.inj same
        have none : unpaired (75 :: tail) = [] := by cases tail <;> rfl
        rw [none]
        exact List.nil_prefix
    next => exact unpaired_grows _ more

def sampleDeflating (format : Format) (p : Params) : Deflating sample format p where
  encoder := ([], 0)
  made := rfl
  ready _ _ := True
  pending s finish input := (deflatable finish (s.1 ++ input)).length - s.2
  is_ready := trivial
  streaming := streaming_ofAvailable

def sampleInflating (format : Format) (p : Params) : Inflating sample format p where
  decoder := ([], 0)
  made := rfl
  ready _ _ := True
  pending s _ input := (undeflated (s.1 ++ input)).length - s.2
  is_ready := trivial
  streaming := streaming_ofAvailable
  inflated := undeflated
  outputs _ _ whole := whole_ofAvailable undeflated_grows (fun _ => List.prefix_refl _) whole

theorem deflates (format : Format) (p : Params) (pieces : List (List UInt8)) (y : List UInt8)
    (whole : Whole sample.deflate (sampleDeflating format p).encoder pieces y) :
    y = deflated pieces.flatten :=
  whole_ofAvailable (fun _ _ => List.prefix_refl _) (fun _ => List.nil_prefix) whole

/-- The byte `a` in blocks of one byte, and back in blocks of two. -/
theorem round_trip_letter : ∃ N y, (∀ fuel, N ≤ fuel →
      encode sample .deflate {} 1 fuel [[[97]]] = some ([0, 0], y)) ∧
    ∀ writes' : List (List (List UInt8)),
      (∀ v ∈ writes', ∀ segment ∈ v, segment.length < 2 ^ 32) → writes'.flatten.flatten = y →
      ∃ N', ∀ fuel, N' ≤ fuel → decode sample .deflate {} 2 fuel writes' =
        some (List.replicate (writes'.length + 1) zOk, [97]) := by
  refine round_trip (sampleDeflating .deflate {}) (sampleInflating .deflate {})
    (fun pieces y whole => ?_) (by decide) (by decide) [[[97]]] (by decide)
  rw [deflates _ _ _ _ whole]
  exact undeflated_deflated _

example : encode sample .deflate {} 1 9 [[[97]]] = some ([0, 0], [0x4b, 4, 0]) := by decide

end Sample

end ServerFrame.Stream
