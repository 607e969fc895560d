import Mathlib.Data.Fintype.Fin
import Mathlib.Order.Defs.Unbundled

/-!
# Windows of a sorted sequence

The indices from `lo` on and below `hi`, among which all elements are that are equivalent to a
given one. A search makes the window smaller until it is empty.
-/
namespace SortedWindow

variable {T : Type*} [LT T] {n : Nat}

/-- No element is less than an earlier one. -/
def Sorted (arr : Fin n → T) : Prop := ∀ i j, i ≤ j → ¬ arr j < arr i

def Equivalent (a b : T) : Prop := ¬ a < b ∧ ¬ b < a

structure Window (arr : Fin n → T) (v : T) (lo hi : Nat) : Prop where
  ordered : lo ≤ hi
  inside : hi ≤ n
  below : ∀ i : Fin n, i < lo → arr i < v
  above : ∀ i : Fin n, hi ≤ i → v < arr i

/-- How many elements are less than `v`. -/
def lessCount [DecidableLT T] (arr : Fin n → T) (v : T) : Nat :=
  (Finset.univ.filter fun i => arr i < v).card

section Order

variable [IsStrictWeakOrder T (· < ·)] {a b c : T}

theorem not_lt_self (a : T) : ¬ a < a := irrefl_of (· < ·) a

theorem lt_asymm_of (less : a < b) : ¬ b < a := fun greater =>
  not_lt_self a (trans_of (· < ·) less greater)

/-- Of two elements one of which is less than the other, a third is above the lower or below the
higher. -/
theorem lt_or_lt_of_lt (less : a < c) (b : T) : a < b ∨ b < c := by
  by_contra neither
  -- `b` is incomparable with both then, and so they are with each other
  obtain ⟨notLow, notHigh⟩ := not_or.mp neither
  have low : ¬ a < b ∧ ¬ b < a :=
    ⟨notLow, fun below => notHigh (trans_of (· < ·) below less)⟩
  have high : ¬ b < c ∧ ¬ c < b :=
    ⟨notHigh, fun below => notLow (trans_of (· < ·) less below)⟩
  exact (IsStrictWeakOrder.incomp_trans a b c low high).1 less

end Order

namespace Window

variable {arr : Fin n → T} {v : T} {lo hi : Nat}

/-- At the start nothing is left out. -/
theorem whole (arr : Fin n → T) (v : T) : Window arr v 0 n where
  ordered := Nat.zero_le n
  inside := le_rfl
  below := fun _ under => absurd under (Nat.not_lt_zero _)
  above := fun i beyond => absurd i.isLt (not_lt.mpr beyond)

/-- An empty window: there is no element to find. -/
theorem not_equivalent (w : Window arr v lo lo) (i : Fin n) : ¬ Equivalent (arr i) v := by
  rintro ⟨notLess, notGreater⟩
  rcases Nat.lt_or_ge i lo with under | beyond
  · exact notLess (w.below i under)
  · exact notGreater (w.above i beyond)

variable [IsStrictWeakOrder T (· < ·)]

theorem goRight (w : Window arr v lo hi) (sorted : Sorted arr) {m : Fin n} (before : m < hi)
    (less : arr m < v) : Window arr v (m + 1) hi where
  ordered := before
  inside := w.inside
  below := fun i under =>
    (lt_or_lt_of_lt less (arr i)).resolve_left (sorted i m (Nat.le_of_lt_succ under))
  above := w.above

theorem goLeft (w : Window arr v lo hi) (sorted : Sorted arr) {m : Fin n} (behind : lo ≤ m)
    (greater : v < arr m) : Window arr v lo m where
  ordered := behind
  inside := m.isLt.le
  below := w.below
  above := fun i beyond => (lt_or_lt_of_lt greater (arr i)).resolve_right (sorted m i beyond)

/-- An empty window is behind the elements that are less. -/
theorem lessCount_eq [DecidableLT T] (w : Window arr v lo lo) : lessCount arr v = lo := by
  have same : (Finset.univ.filter fun i => arr i < v) =
      Finset.univ.filter fun i : Fin n => i < lo := by
    apply Finset.filter_congr
    intro i _
    constructor
    · intro less
      by_contra beyond
      exact lt_asymm_of less (w.above i (Nat.le_of_not_lt beyond))
    · exact w.below i
  rw [lessCount, same, Fin.card_filter_val_lt]
  exact Nat.min_eq_right w.inside

end Window

end SortedWindow
