import ServerFrame.Stream.FixSize
import ServerFrame.ByteArray.Scatter
import ServerFrame.ByteArray.Partial

/-!
# From one `ByteArray` to another

`WriteFixSize` and `ReadFixSize` of two `SocketStream`s that are the ends of one connection, over
a `ByteArray` each. Both loop in turns of any order, and every call of a socket may move less than
it was asked for, or fail.
-/
namespace ServerFrame

namespace ByteArray

open EState Splice

/-- `SocketStream::Write` of a connected socket that takes `taken` bytes of the segments, none on
an error; the result is what it takes. -/
def transmit (len taken : Nat) : ByteArrayM (List UInt8) := do
  let handed ← getReadBuffers len
  let ba ← get
  let bytes := (gather ba.nodes handed.1).take taken
  if bytes.length > 0 then setPosition (ba.position + bytes.length)
  return bytes

/-- What a socket takes stands at the cursor, and the cursor goes on behind it. -/
theorem transmit_spec {ba : ByteArray} (inv : Inv ba) (len taken : Nat) :
    ∃ ba', transmit len taken ba = .ok ((unread ba).take (min len taken)) ba' ∧ Inv ba' ∧
      contents ba' = contents ba ∧ ba'.position = ba.position + ((unread ba).take (min len taken)).length := by
  obtain ⟨iovs, handed, -, tiles⟩ := getReadBuffers_spec inv len
  have position_le := inv.position_le
  have size_le := inv.size_le
  have inside : ba.position + min len ba.getReadSize ≤ ba.size := by
    simp only [getReadSize]
    omega
  have bytes_eq : (gather ba.nodes iovs).take taken = (unread ba).take (min len taken) := by
    have all_read : (unread ba).length = ba.getReadSize := length_unread inv
    rw [gather_contents inv tiles inside, List.take_take, ← unread]
    refine List.take_eq_take_iff.mpr ?_
    omega
  rw [transmit, run_bind_ok handed]
  simp only [run_bind, run_get, bytes_eq]
  generalize bytes_def : (unread ba).take (min len taken) = bytes
  by_cases some_ : bytes.length > 0
  · have short : bytes.length ≤ ba.getReadSize := by
      rw [← bytes_def, List.length_take, length_unread inv]
      omega
    have fits : ba.position + bytes.length ≤ ba.size := by
      simp only [getReadSize] at short
      omega
    obtain ⟨ba', ran, sought⟩ := setPosition_spec inv (ba.position + bytes.length) (by omega)
    rw [if_pos some_, run_bind_ok ran]
    refine ⟨ba', rfl, sought.inv, ?_, sought.position_eq⟩
    rw [contents, contents, sought.nodes_eq, sought.size_eq, Nat.max_eq_left fits]
  · rw [if_neg some_]
    exact ⟨ba, rfl, inv, rfl, by omega⟩

/-- Bytes that follow are written behind. -/
theorem Wrote.append {ba ba' ba'' : ByteArray} {xs ys : List UInt8} (inv : Inv ba) (first : Wrote ba xs ba')
    (second : Wrote ba' ys ba'') : Wrote ba (xs ++ ys) ba'' := by
  have position_le : ba.position ≤ (contents ba).length := by
    rw [inv.length_contents]
    exact inv.position_le
  refine ⟨second.inv, ?_, ?_, second.baseSize_eq.trans first.baseSize_eq,
    second.endian_eq.trans first.endian_eq⟩
  · rw [second.position_eq, first.position_eq, List.length_append, Nat.add_assoc]
  · rw [second.contents_eq, first.contents_eq, first.position_eq, splice_splice _ _ _ _ position_le]

end ByteArray

namespace Stream

open ServerFrame.ByteArray Splice

/-- The loop of `WriteFixSize` or of `ReadFixSize` over a `ByteArray`. -/
structure Loop where
  ba : ByteArray
  length : UInt64
  left : Int
  /-- What the function has returned. -/
  returned : Option Int

namespace Loop

/-- `while (left > 0)`, and `return length` behind it. -/
def test (l : Loop) : Loop :=
  if 0 < l.left then l else { l with returned := some (asInt l.length) }

def start (ba : ByteArray) (length : UInt64) : Loop := test ⟨ba, length, asInt64 length, none⟩

/-- The rest of a pass whose call has left `ba` and returned `len`. -/
def pass (l : Loop) (len : Int) (ba : ByteArray) : Loop :=
  if len ≤ 0 then { l with ba := ba, returned := some len }
  else test { l with ba := ba, left := l.left - len }

end Loop

structure Transfer where
  writer : Loop
  /-- What the sockets have taken and not brought yet. -/
  pipe : List UInt8
  reader : Loop
  fault : Option Fault

namespace Transfer

def start (src : ByteArray) (m : UInt64) (dst : ByteArray) (n : UInt64) : Transfer :=
  ⟨.start src m, [], .start dst n, none⟩

inductive Action where
  /-- A pass of `WriteFixSize` whose `Send` returns `len`. -/
  | write (len : Int)
  /-- A pass of `ReadFixSize` whose `Recv` returns `len`. -/
  | read (len : Int)
  /-- A pass that finds the stream not connected. -/
  | writeClosed
  | readClosed
  deriving DecidableEq, Repr

/-- `none` when the function has returned, or the socket cannot move that many bytes. -/
def step (s : Transfer) : Action → Option Transfer
  | .write len =>
    if s.writer.returned.isSome then none
    else
      match transmit s.writer.left.toNat len.toNat s.writer.ba with
      | .ok bytes ba =>
        if bytes.length = len.toNat then
          some { s with writer := s.writer.pass len ba, pipe := s.pipe ++ bytes }
        else none
      | .error e _ => some { s with fault := some e }
  | .read len =>
    if s.reader.returned.isSome ∨ s.reader.left < len ∨ s.pipe.length < len then none
    else
      match receive s.reader.left.toNat (s.pipe.take len.toNat) s.reader.ba with
      | .ok _ ba =>
        some { s with reader := s.reader.pass len ba, pipe := s.pipe.drop len.toNat }
      | .error e _ => some { s with fault := some e }
  | .writeClosed =>
    if s.writer.returned.isSome then none
    else some { s with writer := s.writer.pass (-1) s.writer.ba }
  | .readClosed =>
    if s.reader.returned.isSome then none
    else some { s with reader := s.reader.pass (-1) s.reader.ba }

/-- The call moves something. -/
def Action.Moves : Action → Prop
  | .write len => 0 < len
  | .read len => 0 < len
  | .writeClosed => False
  | .readClosed => False

instance Action.decidableMoves (a : Action) : Decidable a.Moves := by
  cases a <;> unfold Action.Moves <;> infer_instance

/-! ## What holds in every state -/

/-- A loop that has moved `moved` bytes of `length`. -/
structure Counted (length : UInt64) (moved : Nat) (l : Loop) : Prop where
  length_eq : l.length = length
  moved_le : moved ≤ length.toNat
  left_eq : l.left = (length.toNat - moved : Nat)
  going : l.returned = none → moved < length.toNat
  whole : ∀ r, l.returned = some r → 0 < r → r = length.toNat ∧ moved = length.toNat

/-- The writer has moved `sent` bytes into the connection, and the reader `got` of them into its
array; what is between them is on its way. -/
structure InTransit (src dst : ByteArray) (m n : UInt64) (sent got : Nat) (s : Transfer) : Prop where
  writer : Counted m sent s.writer
  reader : Counted n got s.reader
  source : Inv s.writer.ba ∧ contents s.writer.ba = contents src
  position_eq : s.writer.ba.position = src.position + sent
  unread_le : sent ≤ (unread src).length
  got_le : got ≤ sent
  wrote : Wrote dst ((unread src).take got) s.reader.ba
  pipe_eq : s.pipe = ((unread src).take sent).drop got
  no_fault : s.fault = none

section Steps

variable {src dst : ByteArray} {m n length : UInt64} {sent got moved : Nat} {s s' : Transfer} {l : Loop}

theorem asInt64_small (small : length.toNat < 2 ^ 31) : asInt64 length = length.toNat :=
  if_pos (by omega)

theorem counted_start (ba : ByteArray) (small : length.toNat < 2 ^ 31) :
    Counted length 0 (.start ba length) ∧ (Loop.start ba length).ba = ba := by
  unfold Loop.start Loop.test
  dsimp only
  rw [asInt64_small small]
  split
  next more =>
    exact ⟨⟨rfl, Nat.zero_le _, by simp, fun _ => by omega, fun r is => by cases is⟩, rfl⟩
  next none_ =>
    refine ⟨⟨rfl, Nat.zero_le _, by simp, fun is => (by cases is), fun r is positive => ?_⟩, rfl⟩
    rw [asInt_small small, Option.some.injEq] at is
    omega

/-- A pass of a loop that goes on. -/
theorem Counted.pass (counted : Counted length moved l) (going : l.returned = none)
    (small : length.toNat < 2 ^ 31) {len : Int} (bound : len ≤ l.left) (ba : ByteArray) :
    Counted length (moved + len.toNat) (l.pass len ba) ∧ (l.pass len ba).ba = ba := by
  obtain ⟨length_eq, moved_le, left_eq, more, whole⟩ := counted
  unfold Loop.pass
  split
  next failed =>
    have none_moved : len.toNat = 0 := by omega
    rw [none_moved]
    refine ⟨⟨length_eq, moved_le, left_eq, fun is => (by cases is), fun r is positive => ?_⟩, rfl⟩
    rw [Option.some.injEq] at is
    omega
  next moves =>
    unfold Loop.test
    dsimp only
    split
    next more' =>
      exact ⟨⟨length_eq, by omega, by dsimp only; omega, fun _ => by omega,
        fun r is => by rw [going] at is; cases is⟩, rfl⟩
    next none_left =>
      refine ⟨⟨length_eq, by omega, by dsimp only; omega, fun is => (by cases is), fun r is positive => ?_⟩,
        rfl⟩
      rw [length_eq, asInt_small small, Option.some.injEq] at is
      omega

theorem inTransit_start (inv : Inv src) (inv' : Inv dst) (small : m.toNat < 2 ^ 31)
    (small' : n.toNat < 2 ^ 31) : InTransit src dst m n 0 0 (start src m dst n) := by
  obtain ⟨writer, src_eq⟩ := counted_start src small
  obtain ⟨reader, dst_eq⟩ := counted_start dst small'
  refine ⟨writer, reader, ?_, ?_, Nat.zero_le _, Nat.le_refl 0, ?_, rfl, rfl⟩
  · exact ⟨by rw [start, src_eq]; exact inv, by rw [start, src_eq]⟩
  · rw [start, src_eq, Nat.add_zero]
  · rw [start, dst_eq, List.take_zero]
    exact ⟨inv', rfl, (splice_nil ..).symm, rfl, rfl⟩

/-- The bytes at the writer's cursor are those that it has not moved. -/
theorem InTransit.unread_eq (transit : InTransit src dst m n sent got s) :
    unread s.writer.ba = (unread src).drop sent := by
  rw [unread, transit.source.2, transit.position_eq, unread, List.drop_drop]

theorem inTransit_write (transit : InTransit src dst m n sent got s) (small : m.toNat < 2 ^ 31)
    {len : Int} (stepped : step s (.write len) = some s') :
    InTransit src dst m n (sent + len.toNat) got s' := by
  obtain ⟨inv, contents_eq⟩ := transit.source
  obtain ⟨ba, ran, inv', contents_eq', position_eq⟩ :=
    transmit_spec inv s.writer.left.toNat len.toNat
  rw [transit.unread_eq] at ran position_eq
  simp only [step] at stepped
  split at stepped
  next => cases stepped
  next going =>
    rw [ran] at stepped
    dsimp only at stepped
    split at stepped
    next taken =>
      cases stepped
      have still := Option.not_isSome_iff_eq_none.mp going
      have bytes_eq : ((unread src).drop sent).take (min s.writer.left.toNat len.toNat) =
          ((unread src).drop sent).take len.toNat := by
        rw [List.take_eq_take_iff]
        rw [List.length_take] at taken
        omega
      rw [taken] at position_eq
      rw [List.length_take, List.length_drop] at taken
      have left_eq := transit.writer.left_eq
      have unread_le := transit.unread_le
      have got_le := transit.got_le
      have most : len ≤ s.writer.left := by omega
      obtain ⟨writer, ba_eq⟩ := transit.writer.pass still small most ba
      refine ⟨writer, transit.reader, ?_, ?_, by omega, by omega, transit.wrote, ?_, transit.no_fault⟩
      · exact ⟨by rw [ba_eq]; exact inv', by rw [ba_eq, contents_eq', contents_eq]⟩
      · rw [ba_eq, position_eq, transit.position_eq, Nat.add_assoc]
      · dsimp only
        rw [transit.pipe_eq, bytes_eq, List.take_add, List.drop_append_of_le_length]
        rw [List.length_take]
        omega
    next => cases stepped

theorem inTransit_read (inv : Inv dst) (transit : InTransit src dst m n sent got s) (small : n.toNat < 2 ^ 31)
    {len : Int} (stepped : step s (.read len) = some s') :
    InTransit src dst m n sent (got + len.toNat) s' := by
  simp only [step] at stepped
  split at stepped
  next => cases stepped
  next here =>
    simp only [not_or, Bool.not_eq_true, Option.isSome_eq_false_iff, Option.isNone_iff_eq_none,
      Int.not_lt] at here
    obtain ⟨still, bound, enough⟩ := here
    have taken : (s.pipe.take len.toNat).length = len.toNat := by
      rw [List.length_take]
      omega
    have short : (s.pipe.take len.toNat).length ≤ s.reader.left.toNat := by omega
    obtain ⟨ba, ran, wrote⟩ := receive_spec transit.wrote.inv short
    rw [ran] at stepped
    cases stepped
    obtain ⟨reader, ba_eq⟩ := transit.reader.pass still small bound ba
    have unread_le := transit.unread_le
    have got_le := transit.got_le
    have within : got + len.toNat ≤ sent := by
      rw [transit.pipe_eq, List.length_drop, List.length_take] at enough
      omega
    refine ⟨transit.writer, reader, transit.source, transit.position_eq, unread_le, within, ?_, ?_,
      transit.no_fault⟩
    · have next : (unread src).take (got + len.toNat) =
          (unread src).take got ++ s.pipe.take len.toNat := by
        rw [transit.pipe_eq, List.drop_take, List.take_take, List.take_add,
          Nat.min_eq_left (by omega)]
      rw [next, ba_eq]
      exact transit.wrote.append inv wrote
    · dsimp only
      rw [transit.pipe_eq, List.drop_drop]

theorem inTransit_step (inv : Inv dst) (small : m.toNat < 2 ^ 31) (small' : n.toNat < 2 ^ 31) (a : Action)
    (transit : InTransit src dst m n sent got s) (stepped : step s a = some s') :
    ∃ sent' got', InTransit src dst m n sent' got' s' := by
  cases a with
  | write len => exact ⟨_, _, inTransit_write transit small stepped⟩
  | read len => exact ⟨_, _, inTransit_read inv transit small' stepped⟩
  | writeClosed =>
    simp only [step] at stepped
    split at stepped
    next => cases stepped
    next going =>
      cases stepped
      have least : -1 ≤ s.writer.left := by
        have := transit.writer.left_eq
        omega
      obtain ⟨writer, ba_eq⟩ := transit.writer.pass (Option.not_isSome_iff_eq_none.mp going) small least
        s.writer.ba
      exact ⟨sent, got, { transit with
        writer := writer
        source := by rw [ba_eq]; exact transit.source
        position_eq := by rw [ba_eq]; exact transit.position_eq }⟩
  | readClosed =>
    simp only [step] at stepped
    split at stepped
    next => cases stepped
    next going =>
      cases stepped
      have least : -1 ≤ s.reader.left := by
        have := transit.reader.left_eq
        omega
      obtain ⟨reader, ba_eq⟩ := transit.reader.pass (Option.not_isSome_iff_eq_none.mp going) small' least
        s.reader.ba
      exact ⟨sent, got, { transit with
        reader := reader
        wrote := by rw [ba_eq]; exact transit.wrote }⟩

end Steps

/-- **Nothing is lost between the arrays**: whatever each call moves, and in whatever order the two
functions loop, the reader's array is as `Write` of the bytes that came would leave it, these are
the first ones behind the writer's cursor, the rest of what left is on its way, and the writer's
array has kept its bytes. No call follows a null pointer or throws. -/
theorem transfer_exact {src dst : ByteArray} {m n : UInt64} {actions : List Action} {s : Transfer}
    (reachable : Reachable src) (reachable' : Reachable dst) (small : m.toNat < 2 ^ 31)
    (small' : n.toNat < 2 ^ 31) (ran : Run.run step (start src m dst n) actions = some s) :
    (∃ sent got, InTransit src dst m n sent got s) ∧
    ∀ r, s.reader.returned = some r → 0 < r → ∃ written, r = n.toNat ∧
      ByteArray.write ((unread src).take n.toNat) dst = .ok () written ∧
      contents s.reader.ba = contents written ∧ s.reader.ba.position = written.position := by
  have inv := reachable'.inv
  have transits : ∃ sent got, InTransit src dst m n sent got s := by
    refine Run.run_invariant (P := fun s => ∃ sent got, InTransit src dst m n sent got s) ?_
      ⟨0, 0, inTransit_start reachable.inv inv small small'⟩ ran
    rintro s a s' ⟨sent, got, transit⟩ stepped
    exact inTransit_step inv small small' a transit stepped
  refine ⟨transits, fun r returned positive => ?_⟩
  obtain ⟨sent, got, transit⟩ := transits
  obtain ⟨r_eq, whole⟩ := transit.reader.whole r returned positive
  obtain ⟨written, wrote, is⟩ := write_spec inv ((unread src).take n.toNat)
  have came := transit.wrote
  rw [whole] at came
  exact ⟨written, r_eq, wrote, by rw [came.contents_eq, is.contents_eq],
    by rw [came.position_eq, is.position_eq]⟩

/-- Three bytes in blocks of two, the cursor in front of the second. -/
def sample : ByteArray := ⟨2, 1, 4, 3, [⟨[1, 2]⟩, ⟨[3, 0]⟩], some 0, .big, fun _ => 0, 4⟩

theorem reachable_sample : Reachable sample :=
  ⟨2, fun _ => 0, [.call (.write [1, 2, 3]), .call (.setPosition 1)], by decide, rfl⟩

/-- Two bytes in two parts, behind a byte that is there. -/
theorem transfer_exact_two :
    ∃ s, Run.run step (start sample 2 sample 2) [.write 1, .read 1, .write 1, .read 1] = some s ∧
      contents s.reader.ba = [1, 2, 3] ∧
      ∃ written, ByteArray.write [2, 3] sample = .ok () written ∧ contents s.reader.ba = contents written := by
  have ran : (Run.run step (start sample 2 sample 2) [.write 1, .read 1, .write 1, .read 1]).any
      (fun s => s.reader.returned = some 2 ∧ contents s.reader.ba = [1, 2, 3]) = true := by
    decide
  obtain ⟨s, ran, ends⟩ := (Option.any_eq_true _ _).mp ran
  obtain ⟨returned, bytes⟩ := of_decide_eq_true ends
  obtain ⟨written, -, wrote, same, -⟩ := (transfer_exact reachable_sample reachable_sample
    (by decide) (by decide) ran).2 2 returned (by decide)
  exact ⟨s, ran, bytes, written, wrote, same⟩

/-! ## Without a failure -/

section Progress

variable {src dst : ByteArray} {m n length : UInt64} {sent got moved : Nat} {s s' : Transfer} {l : Loop}

/-- The function has not returned, or has returned its length. -/
def Unfailing (l : Loop) : Prop := ∀ r, l.returned = some r → r = l.length.toNat

theorem Unfailing.pass {len : Int} (moves : 0 < len) (going : l.returned = none)
    (small : l.length.toNat < 2 ^ 31) (ba : ByteArray) : Unfailing (l.pass len ba) := by
  intro r returned
  unfold Loop.pass Loop.test at returned ⊢
  rw [if_neg (by omega)] at returned ⊢
  split at returned
  next =>
    dsimp only at returned
    rw [going] at returned
    cases returned
  next none_left =>
    rw [if_neg none_left]
    rw [asInt_small small] at returned
    exact (Option.some.inj returned).symm

end Progress

end Transfer

end Stream

end ServerFrame
