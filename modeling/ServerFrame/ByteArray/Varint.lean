import ServerFrame.Lib.Base128
import ServerFrame.ByteArray.RoundTrip
import Mathlib.Data.BitVec
import Mathlib.Tactic.Ring

/-!
# Varints and zigzag codes

The bytes of a varint are the shortest encoding of its value to the base 128, so that the width of
the value does not matter; the two zigzag functions of each width undo each other.
-/
namespace ServerFrame.ByteArray

open EState Base128

variable {α : Type}

/-- `w` writes the shortest encoding `tmp` of `value`, at most `room` bytes, wherever the cursor
is; `r` gives `a` back from it whatever stands behind, and takes no more. -/
structure Varint (room value : Nat) (w : ByteArrayM Unit) (r : ByteArrayM α) (a : α)
    (tmp : List UInt8) : Prop where
  shortest : Shortest tmp value
  some_ : 1 ≤ tmp.length
  few : tmp.length ≤ room
  writes : ∀ ba flat, Represents ba flat →
    ∃ ba', w ba = .ok () ba' ∧ Represents ba' (flat.write tmp)
  reads : ∀ ba e pre post, At ba e pre (tmp ++ post) →
    ∃ ba', r ba = .ok a ba' ∧ At ba' e (pre ++ tmp) post

/-! ## The bytes -/

theorem shortest_varintBytes {room v : Nat} {tmp : List UInt8}
    (encoded : varintBytes room v = some tmp) : Shortest tmp v := by
  induction room generalizing v tmp with
  | zero => cases encoded
  | succ room ih =>
    rw [varintBytes] at encoded
    by_cases more : v ≥ 0x80
    · rw [if_pos more, Option.map_eq_some_iff] at encoded
      obtain ⟨rest, rest_eq, rfl⟩ := encoded
      have byte := low_byte v
      have shift : v >>> 7 = v / 128 := Nat.shiftRight_eq_div_pow v 7
      rw [shift] at rest_eq
      -- the byte holds the lowest group, and the value of the others is not zero
      have whole := (ih rest_eq).more (show 128 ≤ _ by rw [byte]; omega) (by omega)
      have value : v % 128 + 128 - 128 + 128 * (v / 128) = v := by omega
      rwa [byte, value] at whole
    · rw [if_neg more, Option.some.injEq] at encoded
      subst encoded
      have byte : (UInt8.ofNat v).toNat = v := by
        rw [UInt8.toNat_ofNat']
        omega
      have single := shortest_small (b := UInt8.ofNat v) (by omega)
      rwa [byte] at single

theorem length_varintBytes_le {room v : Nat} {tmp : List UInt8}
    (encoded : varintBytes room v = some tmp) : tmp.length ≤ room := by
  induction room generalizing v tmp with
  | zero => cases encoded
  | succ room ih =>
    rw [varintBytes] at encoded
    split at encoded
    · rw [Option.map_eq_some_iff] at encoded
      obtain ⟨rest, rest_eq, rfl⟩ := encoded
      exact Nat.succ_le_succ (ih rest_eq)
    · cases encoded
      exact Nat.le_add_left 1 room

theorem writeVarint_eq {room v : Nat} {tmp : List UInt8} (encoded : varintBytes room v = some tmp) :
    writeVarint room v = write tmp := by
  rw [writeVarint, encoded]

/-- A value of `bits` bits, with an array that has room for all of its groups. -/
theorem varint (room bits v : Nat) (some_ : 0 < room) (wide : 0 < bits) (bound : v < 128 ^ room)
    (fits : v < 2 ^ bits) (convert : Nat → α) :
    ∃ tmp, varintBytes room v = some tmp ∧
      Varint room v (writeVarint room v) (do return convert (← readVarintLoop bits room 0 0))
        (convert v) tmp := by
  obtain ⟨tmp, encoded⟩ := varintBytes_isSome room v some_ bound
  have shortest := shortest_varintBytes encoded
  refine ⟨tmp, encoded, shortest, shortest.encodes.length_pos, length_varintBytes_le encoded, ?_, ?_⟩
  · intro ba flat rep
    obtain ⟨ba', ran, wrote⟩ := write_spec rep.inv tmp
    exact ⟨ba', by rw [writeVarint_eq encoded, ran], rep.wrote wrote⟩
  · intro ba e pre post at_
    -- the loop starts at the lowest group, with nothing read so far
    obtain ⟨ba', ran, at'⟩ := readVarintLoop_at v room 0 0 tmp encoded (Nat.le_refl _) (by simp)
      wide (by simpa using fits) ba pre post at_
    rw [Nat.pow_zero, Nat.mul_one, Nat.zero_add] at ran
    exact ⟨ba', by rw [run_bind_ok ran, run_pure], at'⟩

theorem varint32 (v : UInt32) : ∃ tmp, varintBytes 5 v.toNat = some tmp ∧
    Varint 5 v.toNat (writeUint32 v) readUint32 v tmp := by
  have bound := v.toNat_lt
  obtain ⟨tmp, encoded, codec⟩ := varint 5 32 v.toNat (by decide) (by decide)
    (Nat.lt_trans bound (by decide)) bound UInt32.ofNat
  rw [UInt32.ofNat_toNat] at codec
  exact ⟨tmp, encoded, codec⟩

theorem varint64 (v : UInt64) : ∃ tmp, varintBytes 10 v.toNat = some tmp ∧
    Varint 10 v.toNat (writeUint64 v) readUint64 v tmp := by
  have bound := v.toNat_lt
  obtain ⟨tmp, encoded, codec⟩ := varint 10 64 v.toNat (by decide) (by decide)
    (Nat.lt_trans bound (by decide)) bound UInt64.ofNat
  rw [UInt64.ofNat_toNat] at codec
  exact ⟨tmp, encoded, codec⟩

/-- A value that fits into 32 bits has one encoding in both widths. -/
theorem writeUint32_eq (v : UInt32) : writeUint32 v = writeUint64 v.toUInt64 := by
  obtain ⟨tmp, encoded, narrow⟩ := varint32 v
  obtain ⟨tmp', encoded', wide⟩ := varint64 v.toUInt64
  have same : tmp = tmp' := narrow.shortest.unique (UInt32.toNat_toUInt64 v ▸ wide.shortest)
  rw [writeUint32, writeUint64, writeVarint_eq encoded, writeVarint_eq encoded', same]

/-! ## The other direction of zigzag -/

private theorem halves {w : Nat} (wide : 2 ≤ w) (u : BitVec w) :
    u >>> 1 * 2 + (u &&& 1) = u := by
  have large : 2 ^ 2 ≤ 2 ^ w := Nat.pow_le_pow_right (by decide) wide
  have one : (1 : BitVec w).toNat = 1 := Nat.mod_eq_of_lt (show 1 < 2 ^ w by omega)
  have two : (2 : BitVec w).toNat = 2 := Nat.mod_eq_of_lt (show 2 < 2 ^ w by omega)
  have bound := u.isLt
  apply BitVec.eq_of_toNat_eq
  rw [BitVec.toNat_add, BitVec.toNat_mul, BitVec.toNat_and, BitVec.toNat_ushiftRight, one, two,
    Nat.and_one_is_mod, Nat.shiftRight_eq_div_pow, Nat.mod_eq_of_lt (show _ * 2 < 2 ^ w by omega),
    Nat.mod_eq_of_lt (by omega)]
  omega

private theorem msb_half {w : Nat} (wide : 2 ≤ w) (u : BitVec w) :
    (u >>> 1).msb = false ∧ (~~~(u >>> 1)).msb = true := by
  have low : (u >>> 1).msb = false := by simp [BitVec.msb_ushiftRight]
  have some_ : 0 < w := by omega
  exact ⟨low, by rw [BitVec.msb_not, low]; simpa using some_⟩

/-- The word is the zigzag code of a negative one if its lowest bit is set. -/
theorem zigzag_odd {w : Nat} (wide : 2 ≤ w) (u : BitVec w) (odd : u &&& 1 = 1) :
    (u >>> 1 ^^^ -(u &&& 1)).msb = true ∧ -(u >>> 1 ^^^ -(u &&& 1)) * 2 - 1 = u := by
  have whole := halves wide u
  rw [odd] at whole
  rw [odd, show (-1 : BitVec w) = BitVec.allOnes w from BitVec.neg_one_eq_allOnes,
    BitVec.xor_allOnes]
  refine ⟨(msb_half wide u).2, ?_⟩
  -- what is left is an identity of the ring of words
  rw [BitVec.not_eq_neg_add, show 1#w = (1 : BitVec w) from rfl]
  generalize u >>> 1 = y at whole
  rw [← whole]
  ring

/-- Otherwise it is the code of one that is not negative. -/
theorem zigzag_even {w : Nat} (wide : 2 ≤ w) (u : BitVec w) (even : u &&& 1 = 0) :
    (u >>> 1 ^^^ -(u &&& 1)).msb = false ∧ (u >>> 1 ^^^ -(u &&& 1)) * 2 = u := by
  have whole := halves wide u
  have same : u >>> 1 ^^^ -(0 : BitVec w) = u >>> 1 := by simp
  rw [even, add_zero] at whole
  rw [even, same]
  exact ⟨(msb_half wide u).1, whole⟩

private theorem low_bit {w : Nat} (wide : 2 ≤ w) (u : BitVec w) : u &&& 1 = 1 ∨ u &&& 1 = 0 := by
  have large : 2 ^ 2 ≤ 2 ^ w := Nat.pow_le_pow_right (by decide) wide
  have one : (1 : BitVec w).toNat = 1 := Nat.mod_eq_of_lt (show 1 < 2 ^ w by omega)
  rcases Nat.mod_two_eq_zero_or_one u.toNat with even | odd
  · exact .inr (BitVec.eq_of_toNat_eq (by rw [BitVec.toNat_and, one, Nat.and_one_is_mod, even]; rfl))
  · exact .inl (BitVec.eq_of_toNat_eq (by rw [BitVec.toNat_and, one, Nat.and_one_is_mod, odd]))

theorem encodeZigzag32_decodeZigzag32 (u : UInt32) : encodeZigzag32 (decodeZigzag32 u) = u := by
  have sign : decodeZigzag32 u < 0 ↔ (decodeZigzag32 u).toBitVec.msb = true := by
    rw [Int32.lt_iff_toBitVec_slt]
    exact BitVec.slt_zero_iff_msb_cond
  apply UInt32.toBitVec_inj.mp
  rcases low_bit (by decide) u.toBitVec with odd | even
  · obtain ⟨negative, back⟩ := zigzag_odd (by decide) u.toBitVec odd
    rw [encodeZigzag32, if_pos (sign.mpr negative)]
    exact back
  · obtain ⟨nonnegative, back⟩ := zigzag_even (by decide) u.toBitVec even
    have not_less : ¬ decodeZigzag32 u < 0 := fun less =>
      absurd (sign.mp less) (by rw [Bool.not_eq_true]; exact nonnegative)
    rw [encodeZigzag32, if_neg not_less]
    exact back

theorem encodeZigzag64_decodeZigzag64 (u : UInt64) : encodeZigzag64 (decodeZigzag64 u) = u := by
  have sign : decodeZigzag64 u < 0 ↔ (decodeZigzag64 u).toBitVec.msb = true := by
    rw [Int64.lt_iff_toBitVec_slt]
    exact BitVec.slt_zero_iff_msb_cond
  apply UInt64.toBitVec_inj.mp
  rcases low_bit (by decide) u.toBitVec with odd | even
  · obtain ⟨negative, back⟩ := zigzag_odd (by decide) u.toBitVec odd
    rw [encodeZigzag64, if_pos (sign.mpr negative)]
    exact back
  · obtain ⟨nonnegative, back⟩ := zigzag_even (by decide) u.toBitVec even
    have not_less : ¬ decodeZigzag64 u < 0 := fun less =>
      absurd (sign.mp less) (by rw [Bool.not_eq_true]; exact nonnegative)
    rw [encodeZigzag64, if_neg not_less]
    exact back

/-- `f` and `g` are bijections, each the inverse of the other. -/
structure MutuallyInverse {β : Type} (f : α → β) (g : β → α) : Prop where
  left : Function.LeftInverse g f
  right : Function.RightInverse g f
  bijective : Function.Bijective f ∧ Function.Bijective g

theorem MutuallyInverse.of_inverses {β : Type} {f : α → β} {g : β → α} (left : Function.LeftInverse g f)
    (right : Function.RightInverse g f) : MutuallyInverse f g :=
  ⟨left, right, ⟨left.injective, right.surjective⟩, right.injective, left.surjective⟩

/-- What is written for a number of 32 or 64 bits, what is read back, and the signed numbers under
both. -/
theorem varint_zigzag_codec :
    (∀ v : UInt32, ∃ tmp, varintBytes 5 v.toNat = some tmp ∧
      Varint 5 v.toNat (writeUint32 v) readUint32 v tmp) ∧
    (∀ v : UInt64, ∃ tmp, varintBytes 10 v.toNat = some tmp ∧
      Varint 10 v.toNat (writeUint64 v) readUint64 v tmp) ∧
    (∀ v : UInt32, writeUint32 v = writeUint64 v.toUInt64) ∧
    MutuallyInverse encodeZigzag32 decodeZigzag32 ∧
    MutuallyInverse encodeZigzag64 decodeZigzag64 :=
  ⟨varint32, varint64, writeUint32_eq,
    .of_inverses decodeZigzag32_encodeZigzag32 encodeZigzag32_decodeZigzag32,
    .of_inverses decodeZigzag64_encodeZigzag64 encodeZigzag64_decodeZigzag64⟩

end ServerFrame.ByteArray
