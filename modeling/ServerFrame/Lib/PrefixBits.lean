import Mathlib.Data.BitVec

/-!
# Low and leading bits

Words whose lowest bits are set and no others, their complements, and words that are cut by
them.
-/
namespace PrefixBits

variable {w : Nat}

/-- The `n` lowest bits are set, and no others. -/
def Low (h : BitVec w) (n : Nat) : Prop := ∀ i, i < w → h.getLsbD i = decide (i < n)

/-- The `p` highest bits are set, and no others. -/
def Leading (m : BitVec w) (p : Nat) : Prop := ∀ i, i < w → m.getMsbD i = decide (i < p)

theorem low_two_pow_sub_one (w n : Nat) : Low (BitVec.ofNat w (2 ^ n - 1)) n := by
  intro i inside
  rw [BitVec.getLsbD_ofNat, Nat.testBit_two_pow_sub_one]
  simp [inside]

theorem Low.leading_not {h : BitVec w} {n : Nat} (low : Low h n) (few : n ≤ w) :
    Leading (~~~h) (w - n) := by
  intro i inside
  have mirrored : w - 1 - i < w := by omega
  rw [BitVec.getMsbD_eq_getLsbD, BitVec.getLsbD_not, low _ mirrored]
  simp only [inside, mirrored, decide_true, Bool.true_and, ← decide_not, decide_eq_decide]
  omega

/-- Cutting a word and cutting out the rest of it give the same only if there is nothing to cut. -/
theorem and_eq_and_not_iff (a h : BitVec w) : a &&& h = a &&& ~~~h ↔ a = 0 := by
  constructor
  · intro same
    apply BitVec.eq_of_getLsbD_eq
    intro i inside
    have bit : (a &&& h).getLsbD i = (a &&& ~~~h).getLsbD i := by rw [same]
    simp only [BitVec.getLsbD_and, BitVec.getLsbD_not, inside, decide_true, Bool.true_and] at bit
    cases set_ : a.getLsbD i with
    | false => exact BitVec.getLsbD_zero.symm
    | true => cases half : h.getLsbD i <;> simp [set_, half] at bit
  · rintro rfl
    simp

theorem le_or (a m : BitVec w) : a ≤ a ||| m := by
  rw [BitVec.le_def, BitVec.toNat_or]
  exact Nat.left_le_or

end PrefixBits
