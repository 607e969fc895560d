import ServerFrame.ByteArray.Codec
import ServerFrame.ByteArray.Refinement

/-!
# Round trip of typed items

A writer and a reader form a `Codec` for a value when the writer appends some byte
image and the reader, standing before that image, gives the value back and stops
right after it. Codecs are built for the fixed-width and varint forms, and strings
are put together from a codec for their length; a list of items follows by induction.
-/
namespace ServerFrame.ByteArray

open Splice EState

/-! ## Memory images -/

@[simp] theorem length_toMemory (n v : Nat) : (toMemory n v).length = n := by
  induction n generalizing v with
  | zero => rfl
  | succ n ih => simp [toMemory, ih]

theorem ofMemory_toMemory (n v : Nat) (bound : v < 256 ^ n) : ofMemory (toMemory n v) = v := by
  induction n generalizing v with
  | zero => simp only [Nat.pow_zero] at bound; simp [toMemory, ofMemory]; omega
  | succ n ih =>
    have quotient : v / 256 < 256 ^ n := by
      rw [Nat.div_lt_iff_lt_mul (by decide)]; rwa [Nat.pow_succ] at bound
    have low : (UInt8.ofNat (v % 256)).toNat = v % 256 := by
      rw [UInt8.toNat_ofNat']; omega
    simp only [toMemory, ofMemory, low, ih _ quotient]
    omega

theorem toMemory_ofMemory (bytes : List UInt8) : toMemory bytes.length (ofMemory bytes) = bytes := by
  induction bytes with
  | nil => rfl
  | cons b bytes ih =>
    have bound := b.toNat_lt
    have low : (b.toNat + 256 * ofMemory bytes) % 256 = b.toNat := by omega
    have high : (b.toNat + 256 * ofMemory bytes) / 256 = ofMemory bytes := by omega
    simp only [List.length_cons, toMemory, ofMemory, low, high, ih, UInt8.ofNat_toNat]

theorem ofMemory_lt (bytes : List UInt8) : ofMemory bytes < 256 ^ bytes.length := by
  induction bytes with
  | nil => simp [ofMemory]
  | cons b bytes ih =>
    have bound := b.toNat_lt
    simp only [ofMemory, List.length_cons, Nat.pow_succ]
    omega

theorem byteswap_byteswap (n v : Nat) (bound : v < 256 ^ n) : byteswap n (byteswap n v) = v := by
  have swapped := toMemory_ofMemory (toMemory n v).reverse
  rw [List.length_reverse, length_toMemory] at swapped
  rw [byteswap, byteswap, swapped, List.reverse_reverse, ofMemory_toMemory n v bound]

/-! ## A cursor between two byte strings -/

/-- `pre` lies before the cursor of `ba`, `post` after it, and integers have order `e`. -/
structure At (ba : ByteArray) (e : Endian) (pre post : List UInt8) : Prop where
  rep : Represents ba ⟨pre ++ post, pre.length⟩
  endian_eq : ba.endian = e

variable {e : Endian} {α β : Type}

theorem write_at {ba : ByteArray} {pre : List UInt8} (at_ : At ba e pre []) (buf : List UInt8) :
    ∃ ba', write buf ba = .ok () ba' ∧ At ba' e (pre ++ buf) [] := by
  obtain ⟨ba', ran, wrote⟩ := write_spec at_.rep.inv buf
  refine ⟨ba', ran, ?_, wrote.endian_eq.trans at_.endian_eq⟩
  have rep := at_.rep.wrote wrote
  simpa [Flat.write, splice, List.take_of_length_le, List.drop_eq_nil_of_le] using rep

theorem read_at {ba : ByteArray} {pre buf post : List UInt8} (at_ : At ba e pre (buf ++ post))
    (some_ : 0 < buf.length) :
    ∃ ba', read buf.length ba = .ok buf ba' ∧ At ba' e (pre ++ buf) post := by
  have enough : buf.length ≤ ba.getReadSize := by
    rw [at_.rep.readSize_eq]; simp [Flat.readSize]
  obtain ⟨ba', ran, moved⟩ := read_spec at_.rep.inv buf.length some_ enough
  have bytes : ((contents ba).drop ba.position).take buf.length = buf := by
    rw [at_.rep.bytes_eq, at_.rep.pos_eq, List.drop_left, List.take_left]
  refine ⟨ba', by rw [ran, bytes], ?_, moved.endian_eq.trans at_.endian_eq⟩
  have rep := at_.rep.advanced moved
  simpa [Flat.advance] using rep

/-- `w` appends an image of `a`, and `r` gives `a` back from that image. -/
def Codec (e : Endian) (w : ByteArrayM Unit) (r : ByteArrayM α) (a : α) : Prop :=
  ∃ image : List UInt8,
    (∀ ba pre, At ba e pre [] → ∃ ba', w ba = .ok () ba' ∧ At ba' e (pre ++ image) []) ∧
    (∀ ba pre post, At ba e pre (image ++ post) →
      ∃ ba', r ba = .ok a ba' ∧ At ba' e (pre ++ image) post)

/-- Converting the result of the reader. -/
theorem Codec.map {w : ByteArrayM Unit} {r : ByteArrayM α} {a : α} (codec : Codec e w r a)
    (f : α → β) : Codec e w (do return f (← r)) (f a) := by
  obtain ⟨image, writes, reads⟩ := codec
  refine ⟨image, writes, fun ba pre post at_ => ?_⟩
  obtain ⟨ba', ran, at'⟩ := reads ba pre post at_
  exact ⟨ba', by rw [run_bind_ok ran, run_pure], at'⟩

/-! ## Integers -/

theorem readFuint8_at {ba : ByteArray} {pre post : List UInt8} {b : UInt8}
    (at_ : At ba e pre (b :: post)) :
    ∃ ba', readFuint8 ba = .ok b ba' ∧ At ba' e (pre ++ [b]) post := by
  have image : At ba e pre ([b] ++ post) := at_
  obtain ⟨ba', ran, at'⟩ := read_at image (by simp)
  rw [List.length_singleton] at ran
  exact ⟨ba', by rw [readFuint8, run_bind_ok ran, run_pure]; simp [ofMemory], at'⟩

theorem codec_fuint8 (v : UInt8) : Codec e (writeFuint8 v) readFuint8 v :=
  ⟨[v], fun _ _ at_ => write_at at_ [v], fun _ _ _ at_ => readFuint8_at at_⟩

theorem codec_fixed (n v : Nat) (some_ : 0 < n) (bound : v < 256 ^ n) :
    Codec e (writeFixed n v) (readFixed n) v := by
  refine ⟨toMemory n (if e ≠ byteOrder then byteswap n v else v),
    fun ba pre at_ => ?_, fun ba pre post at_ => ?_⟩
  · obtain ⟨ba', ran, at'⟩ := write_at at_ (toMemory n (if e ≠ byteOrder then byteswap n v else v))
    exact ⟨ba', by simp only [writeFixed, run_bind, run_get, at_.endian_eq, ran], at'⟩
  · obtain ⟨ba', ran, at'⟩ := read_at at_ (by simpa using some_)
    rw [length_toMemory] at ran
    refine ⟨ba', ?_, at'⟩
    simp only [readFixed, run_bind, run_get, ran, at_.endian_eq]
    by_cases same : e = byteOrder
    · simp only [same, ne_eq, not_true_eq_false, if_true, if_false, run_pure,
        ofMemory_toMemory n v bound]
    · have swapped : byteswap n v < 256 ^ n := by
        simpa [byteswap] using ofMemory_lt (toMemory n v).reverse
      simp only [same, ne_eq, not_false_eq_true, if_true, if_false, run_pure,
        ofMemory_toMemory n _ swapped, byteswap_byteswap n v bound]

/-! ## Varints -/

private theorem or_shift (acc b i bits : Nat) (low : acc < 2 ^ i) (fits : b * 2 ^ i < 2 ^ bits) :
    acc ||| (b <<< i) % 2 ^ bits = acc + b * 2 ^ i := by
  rw [Nat.shiftLeft_eq, Nat.mod_eq_of_lt fits, Nat.or_comm, Nat.mul_comm,
    ← Nat.two_pow_add_eq_or_of_lt low, Nat.add_comm]

theorem low_byte (v : Nat) :
    (UInt8.ofNat ((v &&& 0x7F) ||| 0x80)).toNat = v % 128 + 128 := by
  have low : v &&& 0x7F = v % 128 := Nat.and_two_pow_sub_one_eq_mod v 7
  have high : v % 128 ||| 0x80 = v % 128 + 128 := by
    rw [Nat.or_comm, show 0x80 = 2 ^ 7 * 1 from rfl, ← Nat.two_pow_add_eq_or_of_lt (by omega)]
    omega
  rw [UInt8.toNat_ofNat', low, high]
  omega

private theorem payload (b : UInt8) : (b &&& 0x7f).toNat = b.toNat % 128 := by
  rw [UInt8.toNat_and]
  exact Nat.and_two_pow_sub_one_eq_mod b.toNat 7

/-- A value that fits in `room` groups of seven bits does not run off `tmp`. -/
theorem varintBytes_isSome (room v : Nat) (some_ : 0 < room) (bound : v < 128 ^ room) :
    ∃ tmp, varintBytes room v = some tmp := by
  induction room generalizing v with
  | zero => omega
  | succ room ih =>
    simp only [varintBytes]
    by_cases more : v ≥ 0x80
    · rw [if_pos more]
      have shifted : v >>> 7 < 128 ^ room := by
        rw [Nat.shiftRight_eq_div_pow, Nat.div_lt_iff_lt_mul (by decide)]
        rwa [Nat.pow_succ] at bound
      have room_pos : 0 < room := by
        rcases Nat.eq_zero_or_pos room with zero | pos
        · subst zero; simp at bound; omega
        · exact pos
      obtain ⟨tmp, rest⟩ := ih _ room_pos shifted
      exact ⟨_, by rw [rest]; rfl⟩
    · exact ⟨_, by rw [if_neg more]⟩

/-- The reading loop on the bytes of `v`, when the rounds before it have put the bits
below `i` into `acc`. The induction is on the groups still to be read. -/
theorem readVarintLoop_at {bits room : Nat} (v rounds i acc : Nat) (tmp : List UInt8)
    (encoded : varintBytes room v = some tmp) (enough : room ≤ rounds) (low : acc < 2 ^ i)
    (inside : i < bits) (fits : v * 2 ^ i < 2 ^ bits) (ba : ByteArray) (pre post : List UInt8)
    (at_ : At ba e pre (tmp ++ post)) :
    ∃ ba', readVarintLoop bits rounds i acc ba = .ok (acc + v * 2 ^ i) ba' ∧
      At ba' e (pre ++ tmp) post := by
  -- `acc` holds the groups read so far, below `2 ^ i`
  induction room generalizing v rounds i acc tmp ba pre with
  | zero => simp [varintBytes] at encoded
  | succ room ih =>
    obtain ⟨rounds, rfl⟩ : ∃ r, rounds = r + 1 := ⟨rounds - 1, by omega⟩
    simp only [varintBytes] at encoded
    by_cases more : v ≥ 0x80
    · -- a byte with its high bit set: seven more bits of the value
      rw [if_pos more, Option.map_eq_some_iff] at encoded
      obtain ⟨rest, rest_eq, rfl⟩ := encoded
      obtain ⟨mid, ran, at_mid⟩ := readFuint8_at at_
      have byte := low_byte v
      generalize UInt8.ofNat ((v &&& 0x7F) ||| 0x80) = b at ran at_mid byte
      have continues : ¬ b < 0x80 := by
        rw [UInt8.lt_iff_toNat_lt, byte]
        exact Nat.not_lt.mpr (Nat.le_add_left 128 (v % 128))
      have group : (b &&& 0x7f).toNat = v % 128 := by rw [payload, byte]; omega
      have shift : v >>> 7 = v / 128 := Nat.shiftRight_eq_div_pow v 7
      have parts : v % 128 * 2 ^ i + v / 128 * 2 ^ (i + 7) = v * 2 ^ i := by
        rw [show 2 ^ (i + 7) = 128 * 2 ^ i by rw [Nat.pow_add, Nat.mul_comm], ← Nat.mul_assoc,
          ← Nat.add_mul, Nat.mod_add_div']
      have low' : acc + v % 128 * 2 ^ i < 2 ^ (i + 7) := by
        have : v % 128 * 2 ^ i ≤ 127 * 2 ^ i := Nat.mul_le_mul_right _ (by omega)
        rw [Nat.pow_add]; omega
      have inside' : i + 7 < bits := by
        have : 1 * 2 ^ (i + 7) ≤ v / 128 * 2 ^ (i + 7) := Nat.mul_le_mul_right _ (by omega)
        exact (Nat.pow_lt_pow_iff_right (by decide)).mp (show 2 ^ (i + 7) < 2 ^ bits by omega)
      have seen : acc ||| (v % 128) <<< i % 2 ^ bits = acc + v % 128 * 2 ^ i :=
        or_shift acc _ i bits low (by omega)
      rw [shift] at rest_eq
      obtain ⟨ba', looped, at'⟩ := ih (v / 128) rounds (i + 7) (acc + v % 128 * 2 ^ i) rest rest_eq
        (by omega) low' inside' (by omega) mid (pre ++ [b]) at_mid
      refine ⟨ba', ?_, by simpa using at'⟩
      rw [readVarintLoop, if_pos inside, run_bind_ok ran, if_neg continues, group, seen, looped]
      congr 1
      omega
    · -- the last byte
      rw [if_neg more, Option.some.injEq] at encoded
      subst encoded
      obtain ⟨ba', ran, at'⟩ := readFuint8_at at_
      have byte : (UInt8.ofNat v).toNat = v := by rw [UInt8.toNat_ofNat']; omega
      generalize UInt8.ofNat v = b at ran at' byte
      have last : b < 0x80 := by
        rw [UInt8.lt_iff_toNat_lt, byte]
        exact Nat.lt_of_not_le more
      refine ⟨ba', ?_, at'⟩
      rw [readVarintLoop, if_pos inside, run_bind_ok ran, if_pos last, run_pure, byte,
        or_shift acc v i bits low fits]

theorem codec_varint (room bits v : Nat) (some_ : 0 < room) (wide : 0 < bits)
    (bound : v < 128 ^ room) (fits : v < 2 ^ bits) :
    Codec e (writeVarint room v) (readVarintLoop bits room 0 0) v := by
  obtain ⟨tmp, encoded⟩ := varintBytes_isSome room v some_ bound
  refine ⟨tmp, fun ba pre at_ => ?_, fun ba pre post at_ => ?_⟩
  · obtain ⟨ba', ran, at'⟩ := write_at at_ tmp
    exact ⟨ba', by rw [writeVarint, encoded]; exact ran, at'⟩
  · obtain ⟨ba', ran, at'⟩ := readVarintLoop_at v room 0 0 tmp encoded (Nat.le_refl _) (by simp)
      wide (by simpa using fits) ba pre post at_
    exact ⟨ba', by simpa using ran, at'⟩

/-! ## Zigzag -/

private theorem toNat_one_two {w : Nat} (wide : 2 ≤ w) :
    (1 : BitVec w).toNat = 1 ∧ (2 : BitVec w).toNat = 2 := by
  have large : 2 ^ 2 ≤ 2 ^ w := Nat.pow_le_pow_right (by decide) wide
  constructor
  · exact Nat.mod_eq_of_lt (show 1 < 2 ^ w by omega)
  · exact Nat.mod_eq_of_lt (show 2 < 2 ^ w by omega)

/-- Undoing the zigzag code of a negative word of `w` bits: its lowest bit is set. -/
theorem zigzag_negative {w : Nat} (wide : 2 ≤ w) (x : BitVec w) (neg : x.msb = true) :
    ((-x * 2 - 1) >>> 1) ^^^ -((-x * 2 - 1) &&& 1) = x := by
  obtain ⟨one, two⟩ := toNat_one_two wide
  have bound := x.isLt
  have upper : 2 ^ w ≤ 2 * x.toNat := by
    rw [BitVec.msb_eq_decide] at neg
    have := of_decide_eq_true neg
    have : 2 ^ w = 2 * 2 ^ (w - 1) := by rw [← Nat.pow_succ']; congr 1; omega
    omega
  have value : (-x * 2 - 1).toNat = 2 * (2 ^ w - x.toNat) - 1 := by
    rw [BitVec.toNat_sub, BitVec.toNat_mul, BitVec.toNat_neg, two, one,
      Nat.mod_eq_of_lt (show 2 ^ w - x.toNat < 2 ^ w by omega)]
    rcases Nat.eq_or_lt_of_le (show (2 ^ w - x.toNat) * 2 ≤ 2 ^ w by omega) with least | above
    · rw [least, Nat.mod_self, Nat.add_zero, Nat.mod_eq_of_lt (by omega)]
      omega
    · rw [Nat.mod_eq_of_lt above, show 2 ^ w - 1 + (2 ^ w - x.toNat) * 2 =
        2 * (2 ^ w - x.toNat) - 1 + 2 ^ w by omega, Nat.add_mod_right, Nat.mod_eq_of_lt (by omega)]
  generalize -x * 2 - 1 = u at value
  have odd : u &&& 1 = 1 := by
    apply BitVec.eq_of_toNat_eq
    rw [BitVec.toNat_and, one, Nat.and_one_is_mod, value]
    omega
  apply BitVec.eq_of_toNat_eq
  rw [odd, show (-1 : BitVec w) = BitVec.allOnes w from BitVec.neg_one_eq_allOnes,
    BitVec.xor_allOnes, BitVec.toNat_not, BitVec.toNat_ushiftRight, value, Nat.shiftRight_eq_div_pow]
  omega

/-- Undoing the zigzag code of a word of `w` bits that is not negative. -/
theorem zigzag_nonnegative {w : Nat} (wide : 2 ≤ w) (x : BitVec w) (nonneg : x.msb = false) :
    ((x * 2) >>> 1) ^^^ -((x * 2) &&& 1) = x := by
  obtain ⟨one, two⟩ := toNat_one_two wide
  have lower : 2 * x.toNat < 2 ^ w := by
    rw [BitVec.msb_eq_decide] at nonneg
    have := of_decide_eq_false nonneg
    have : 2 ^ w = 2 * 2 ^ (w - 1) := by rw [← Nat.pow_succ']; congr 1; omega
    omega
  have value : (x * 2).toNat = 2 * x.toNat := by
    rw [BitVec.toNat_mul, two, Nat.mod_eq_of_lt (by omega), Nat.mul_comm]
  generalize x * 2 = u at value
  have even : u &&& 1 = 0 := by
    apply BitVec.eq_of_toNat_eq
    rw [BitVec.toNat_and, one, Nat.and_one_is_mod, value]
    simp
  apply BitVec.eq_of_toNat_eq
  rw [even]
  simp [BitVec.toNat_ushiftRight, value, Nat.shiftRight_eq_div_pow]

theorem decodeZigzag32_encodeZigzag32 (v : Int32) : decodeZigzag32 (encodeZigzag32 v) = v := by
  apply Int32.toBitVec_inj.mp
  have sign : v < 0 ↔ v.toBitVec.msb = true := by
    rw [Int32.lt_iff_toBitVec_slt]
    exact BitVec.slt_zero_iff_msb_cond
  by_cases neg : v < 0
  · rw [encodeZigzag32, if_pos neg]
    exact zigzag_negative (by decide) v.toBitVec (sign.mp neg)
  · rw [encodeZigzag32, if_neg neg]
    exact zigzag_nonnegative (by decide) v.toBitVec (by simpa using fun h => neg (sign.mpr h))

theorem decodeZigzag64_encodeZigzag64 (v : Int64) : decodeZigzag64 (encodeZigzag64 v) = v := by
  apply Int64.toBitVec_inj.mp
  have sign : v < 0 ↔ v.toBitVec.msb = true := by
    rw [Int64.lt_iff_toBitVec_slt]
    exact BitVec.slt_zero_iff_msb_cond
  by_cases neg : v < 0
  · rw [encodeZigzag64, if_pos neg]
    exact zigzag_negative (by decide) v.toBitVec (sign.mp neg)
  · rw [encodeZigzag64, if_neg neg]
    exact zigzag_nonnegative (by decide) v.toBitVec (by simpa using fun h => neg (sign.mpr h))

/-! ## Strings -/

/-- A string behind a codec for its length. -/
theorem codec_string {w : ByteArrayM Unit} {r : ByteArrayM α} {a : α} (codec : Codec e w r a)
    (len : α → Nat) (s : List UInt8) (length_eq : len a = s.length) (some_ : 0 < s.length)
    (bound : s.length ≤ maxStringSize) :
    Codec e (do w; write s) (do readString (len (← r))) s := by
  obtain ⟨image, writes, reads⟩ := codec
  refine ⟨image ++ s, fun ba pre at_ => ?_, fun ba pre post at_ => ?_⟩
  · obtain ⟨mid, ran, at_mid⟩ := writes ba pre at_
    obtain ⟨ba', ran', at'⟩ := write_at at_mid s
    exact ⟨ba', by rw [run_bind_ok ran, ran'], by simpa using at'⟩
  · rw [List.append_assoc] at at_
    obtain ⟨mid, ran, at_mid⟩ := reads ba pre (s ++ post) at_
    obtain ⟨ba', ran', at'⟩ := read_at at_mid some_
    refine ⟨ba', ?_, by simpa using at'⟩
    rw [run_bind_ok ran, length_eq, readString, if_neg (Nat.not_lt.mpr bound)]
    exact ran'

/-! ## Items -/

/-- The strings the round trip is about: not empty, and no longer than their length
prefix can say. -/
def Item.Fits : Item → Prop
  | .stringF16 s => 1 ≤ s.length ∧ s.length < 65536
  | .stringF32 s => 1 ≤ s.length ∧ s.length < 2 ^ 32
  | .stringF64 s => 1 ≤ s.length ∧ s.length ≤ maxStringSize
  | .stringVint s => 1 ≤ s.length ∧ s.length ≤ maxStringSize
  | _ => True

theorem codec_fuint16 (v : UInt16) : Codec e (writeFuint16 v) readFuint16 v := by
  have codec := (codec_fixed (e := e) 2 v.toNat (by decide) v.toNat_lt).map UInt16.ofNat
  rwa [UInt16.ofNat_toNat] at codec

theorem codec_fuint32 (v : UInt32) : Codec e (writeFuint32 v) readFuint32 v := by
  have codec := (codec_fixed (e := e) 4 v.toNat (by decide) v.toNat_lt).map UInt32.ofNat
  rwa [UInt32.ofNat_toNat] at codec

theorem codec_fuint64 (v : UInt64) : Codec e (writeFuint64 v) readFuint64 v := by
  have codec := (codec_fixed (e := e) 8 v.toNat (by decide) v.toNat_lt).map UInt64.ofNat
  rwa [UInt64.ofNat_toNat] at codec

theorem codec_uint32 (v : UInt32) : Codec e (writeUint32 v) readUint32 v := by
  have bound := v.toNat_lt
  have codec := (codec_varint (e := e) 5 32 v.toNat (by decide) (by decide)
    (Nat.lt_trans bound (by decide)) bound).map UInt32.ofNat
  rwa [UInt32.ofNat_toNat] at codec

theorem codec_uint64 (v : UInt64) : Codec e (writeUint64 v) readUint64 v := by
  have bound := v.toNat_lt
  have codec := (codec_varint (e := e) 10 64 v.toNat (by decide) (by decide)
    (Nat.lt_trans bound (by decide)) bound).map UInt64.ofNat
  rwa [UInt64.ofNat_toNat] at codec

/-- The writer and the reader of every item form a codec for it. -/
theorem codec_item (item : Item) (fits : item.Fits) :
    Codec e (writeItem item) (readItem item.kind) item := by
  cases item with
  | fint8 v => exact ((codec_fuint8 v.toUInt8).map UInt8.toInt8).map Item.fint8
  | fuint8 v => exact (codec_fuint8 v).map Item.fuint8
  | fint16 v =>
    have codec := (codec_fixed (e := e) 2 v.toUInt16.toNat (by decide) v.toUInt16.toNat_lt).map
      fun n => (UInt16.ofNat n).toInt16
    rw [UInt16.ofNat_toNat] at codec
    exact codec.map Item.fint16
  | fuint16 v => exact (codec_fuint16 v).map Item.fuint16
  | fint32 v =>
    have codec := (codec_fixed (e := e) 4 v.toUInt32.toNat (by decide) v.toUInt32.toNat_lt).map
      fun n => (UInt32.ofNat n).toInt32
    rw [UInt32.ofNat_toNat] at codec
    exact codec.map Item.fint32
  | fuint32 v => exact (codec_fuint32 v).map Item.fuint32
  | fint64 v =>
    have codec := (codec_fixed (e := e) 8 v.toUInt64.toNat (by decide) v.toUInt64.toNat_lt).map
      fun n => (UInt64.ofNat n).toInt64
    rw [UInt64.ofNat_toNat] at codec
    exact codec.map Item.fint64
  | fuint64 v => exact (codec_fuint64 v).map Item.fuint64
  | int32 v =>
    have codec := (codec_uint32 (e := e) (encodeZigzag32 v)).map decodeZigzag32
    rw [decodeZigzag32_encodeZigzag32] at codec
    exact codec.map Item.int32
  | uint32 v => exact (codec_uint32 v).map Item.uint32
  | int64 v =>
    have codec := (codec_uint64 (e := e) (encodeZigzag64 v)).map decodeZigzag64
    rw [decodeZigzag64_encodeZigzag64] at codec
    exact codec.map Item.int64
  | uint64 v => exact (codec_uint64 v).map Item.uint64
  | float v => exact (codec_fuint32 v).map Item.float
  | double v => exact (codec_fuint64 v).map Item.double
  | stringF16 s =>
    have length_eq : (UInt16.ofNat s.length).toNat = s.length := by
      rw [UInt16.toNat_ofNat']; exact Nat.mod_eq_of_lt fits.2
    exact (codec_string (codec_fuint16 _) UInt16.toNat s length_eq fits.1
      (Nat.le_trans (Nat.le_of_lt fits.2) (by decide))).map Item.stringF16
  | stringF32 s =>
    have length_eq : (UInt32.ofNat s.length).toNat = s.length := by
      rw [UInt32.toNat_ofNat']; exact Nat.mod_eq_of_lt fits.2
    exact (codec_string (codec_fuint32 _) UInt32.toNat s length_eq fits.1
      (Nat.le_trans (Nat.le_of_lt fits.2) (by decide))).map Item.stringF32
  | stringF64 s =>
    have length_eq : (UInt64.ofNat s.length).toNat = s.length := by
      rw [UInt64.toNat_ofNat']
      exact Nat.mod_eq_of_lt (Nat.lt_of_le_of_lt fits.2 (by decide))
    exact (codec_string (codec_fuint64 _) UInt64.toNat s length_eq fits.1 fits.2).map Item.stringF64
  | stringVint s =>
    have length_eq : (UInt64.ofNat s.length).toNat = s.length := by
      rw [UInt64.toNat_ofNat']
      exact Nat.mod_eq_of_lt (Nat.lt_of_le_of_lt fits.2 (by decide))
    exact (codec_string (codec_uint64 _) UInt64.toNat s length_eq fits.1 fits.2).map Item.stringVint

/-- Items written in order are read back in order, from one image of them all. -/
theorem codec_items (items : List Item) (fits : ∀ item ∈ items, item.Fits) :
    Codec e (writeItems items) (readItems (items.map Item.kind)) items := by
  induction items with
  | nil => exact ⟨[], fun ba pre at_ => ⟨ba, rfl, by simpa using at_⟩,
      fun ba pre post at_ => ⟨ba, rfl, by simpa using at_⟩⟩
  | cons item items ih =>
    obtain ⟨image, writes, reads⟩ := codec_item (e := e) item (fits item (List.mem_cons_self ..))
    obtain ⟨images, writes', reads'⟩ := ih fun other member => fits other (List.mem_cons_of_mem _ member)
    refine ⟨image ++ images, fun ba pre at_ => ?_, fun ba pre post at_ => ?_⟩
    · obtain ⟨mid, ran, at_mid⟩ := writes ba pre at_
      obtain ⟨ba', ran', at'⟩ := writes' mid _ at_mid
      exact ⟨ba', by rw [writeItems, run_bind_ok ran, ran'], by simpa using at'⟩
    · rw [List.append_assoc] at at_
      obtain ⟨mid, ran, at_mid⟩ := reads ba pre _ at_
      obtain ⟨ba', ran', at'⟩ := reads' mid _ post at_mid
      refine ⟨ba', ?_, by simpa using at'⟩
      rw [List.map_cons, readItems, run_bind_ok ran, run_bind_ok ran', run_pure]

/-- **Round trip**: whatever the block size and the byte order, a list of items written
into a fresh array and read back from its start is the same list, and nothing is left. -/
theorem items_round_trip (baseSize : Nat) (positive : 1 ≤ baseSize) (heap : Nat → UInt8)
    (little : Bool) (items : List Item) (fits : ∀ item ∈ items, item.Fits) :
    ∃ ba, (do
        setIsLittleEndian little
        writeItems items
        setPosition 0
        readItems (items.map Item.kind) : ByteArrayM (List Item)) (new baseSize heap) = .ok items ba ∧
      ba.getReadSize = 0 := by
  obtain ⟨start, set_, at_start⟩ : ∃ ba, setIsLittleEndian little (new baseSize heap) = .ok () ba ∧
      At ba (if little then .little else .big) [] [] := by
    have fresh := Represents.new positive heap
    exact ⟨_, rfl, ⟨⟨fresh.inv.positive, fresh.inv.position_le, fresh.inv.size_le,
      fresh.inv.capacity_eq, fresh.inv.uniform, fresh.inv.root, fresh.inv.cur_eq⟩,
      fresh.bytes_eq, fresh.pos_eq⟩, rfl⟩
  obtain ⟨image, writes, reads⟩ := codec_items items fits
  obtain ⟨full, wrote, at_full⟩ := writes start [] at_start
  obtain ⟨rewound, sought, moved⟩ := setPosition_spec at_full.rep.inv 0 (Nat.zero_le _)
  have at_rewound : At rewound (if little then .little else .big) [] (image ++ []) := by
    refine ⟨?_, moved.endian_eq.trans at_full.endian_eq⟩
    simpa using at_full.rep.sought moved (Nat.zero_le _)
  obtain ⟨ba, ran, at_end⟩ := reads rewound [] [] at_rewound
  refine ⟨ba, ?_, ?_⟩
  · rw [run_bind_ok set_, run_bind_ok wrote, run_bind_ok sought, ran]
  · rw [at_end.rep.readSize_eq]; simp [Flat.readSize]

theorem items_round_trip_straddling :
    ∃ ba, (do
        setIsLittleEndian false
        writeItems [.fint32 (-2), .int64 (-9223372036854775808), .stringVint [104, 105]]
        setPosition 0
        readItems [.fint32, .int64, .stringVint] : ByteArrayM (List Item)) (new 3 fun _ => 0) =
          .ok [.fint32 (-2), .int64 (-9223372036854775808), .stringVint [104, 105]] ba ∧
      ba.getReadSize = 0 :=
  items_round_trip 3 (by decide) _ false
    [.fint32 (-2), .int64 (-9223372036854775808), .stringVint [104, 105]]
    (by simp [Item.Fits, maxStringSize])

end ServerFrame.ByteArray
