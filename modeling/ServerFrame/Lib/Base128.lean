import Mathlib.Data.Nat.Basic

/-!
# Little-endian base 128

A number as groups of seven bits, the lowest first, one in each byte; all bytes but the last have
their high bit set.
-/
namespace Base128

/-- The bytes stand for the number; groups of zeros at the end are not excluded. -/
inductive Encodes : List UInt8 → Nat → Prop
  | last {b : UInt8} (low : b.toNat < 128) : Encodes [b] b.toNat
  | more {b : UInt8} {bytes : List UInt8} {v : Nat} (high : 128 ≤ b.toNat)
      (rest : Encodes bytes v) : Encodes (b :: bytes) (b.toNat - 128 + 128 * v)

/-- An encoding such that every other one is longer. -/
structure Shortest (bytes : List UInt8) (v : Nat) : Prop where
  encodes : Encodes bytes v
  least : ∀ other, Encodes other v → other ≠ bytes → bytes.length < other.length

theorem Encodes.length_pos {bytes : List UInt8} {v : Nat} (encodes : Encodes bytes v) :
    1 ≤ bytes.length := by
  cases encodes with
  | last low => exact le_rfl
  | more high rest => exact Nat.le_add_left 1 _

/-- An encoding starts with the low group, and goes on exactly if its first byte says so. -/
theorem encodes_cons_iff {b : UInt8} {bytes : List UInt8} {v : Nat} : Encodes (b :: bytes) v ↔
    (b.toNat < 128 ∧ bytes = [] ∧ v = b.toNat) ∨
      (128 ≤ b.toNat ∧ v % 128 = b.toNat - 128 ∧ Encodes bytes (v / 128)) := by
  have bound := b.toNat_lt
  constructor
  · intro encodes
    cases encodes with
    | last low => exact .inl ⟨low, rfl, rfl⟩
    | @more _ _ v high rest =>
      have group : (b.toNat - 128 + 128 * v) / 128 = v := by omega
      exact .inr ⟨high, by omega, group.symm ▸ rest⟩
  · rintro (⟨low, rfl, rfl⟩ | ⟨high, group, rest⟩)
    · exact .last low
    · have parts : b.toNat - 128 + 128 * (v / 128) = v := by omega
      exact parts ▸ .more high rest

/-- Two encodings of one number that are equally long are the same. -/
theorem Encodes.eq_of_length {bytes other : List UInt8} {v : Nat} (left : Encodes bytes v)
    (right : Encodes other v) (same : bytes.length = other.length) : bytes = other := by
  induction bytes generalizing other v with
  | nil => exact absurd left.length_pos (by simp)
  | cons b bytes ih =>
    cases other with
    | nil => exact absurd right.length_pos (by simp)
    | cons c other =>
      rw [List.length_cons, List.length_cons, Nat.add_right_cancel_iff] at same
      -- equally long: either both end with this byte or neither does
      rcases encodes_cons_iff.mp left with ⟨low, rfl, rfl⟩ | ⟨high, group, rest⟩
      · have none_ : other = [] := List.length_eq_zero_iff.mp same.symm
        rcases encodes_cons_iff.mp right with ⟨_, _, value⟩ | ⟨_, _, rest'⟩
        · rw [UInt8.toNat_inj.mp value, none_]
        · exact absurd rest'.length_pos (by simp [none_])
      · rcases encodes_cons_iff.mp right with ⟨_, rfl, _⟩ | ⟨high', group', rest'⟩
        · exact absurd rest.length_pos (by simp [same])
        · have byte : b = c := UInt8.toNat_inj.mp (by omega)
          rw [byte, ih rest rest' same]

theorem shortest_small {b : UInt8} (low : b.toNat < 128) : Shortest [b] b.toNat where
  encodes := .last low
  least := by
    intro other encodes different
    have longer := encodes.length_pos
    have lengths : other.length ≠ 1 := fun one =>
      different (encodes.eq_of_length (.last low) (by simpa using one))
    simp only [List.length_singleton]
    omega

theorem Shortest.more {b : UInt8} {bytes : List UInt8} {v : Nat} (high : 128 ≤ b.toNat)
    (some_ : 0 < v) (rest : Shortest bytes v) :
    Shortest (b :: bytes) (b.toNat - 128 + 128 * v) where
  encodes := .more high rest.encodes
  least := by
    intro other encodes different
    have bound := b.toNat_lt
    cases other with
    | nil => exact absurd encodes.length_pos (by simp)
    | cons c other =>
      have group : (b.toNat - 128 + 128 * v) / 128 = v := by omega
      rcases encodes_cons_iff.mp encodes with ⟨low, _, value⟩ | ⟨high', low', rest'⟩
      · -- a single byte stands for less
        omega
      · have byte : c = b := UInt8.toNat_inj.mp (by have := c.toNat_lt; omega)
        rw [group] at rest'
        have behind := rest.least other rest' fun same => different (by rw [byte, same])
        simpa using behind

theorem Shortest.unique {bytes other : List UInt8} {v : Nat} (left : Shortest bytes v)
    (right : Shortest other v) : bytes = other := by
  by_contra different
  have shorter := left.least other right.encodes (Ne.symm different)
  have longer := right.least bytes left.encodes different
  omega

end Base128
