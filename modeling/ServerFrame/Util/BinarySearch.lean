import ServerFrame.Lib.SortedWindow
import Mathlib.Order.RelClasses

/-!
# `BinarySearch`

An `int` is an `Int`; an operation whose result is none overflows. `arr` is an array of `length`
elements, and a read beside it is a fault.
-/
namespace ServerFrame.BinarySearch

open SortedWindow

/-- What can go wrong. `endless`: the loop makes more passes than it is given. -/
inductive Fault where
  | overflow
  | read
  | endless
  deriving DecidableEq

/-- The value of an operation on `int`. -/
def checked (x : Int) : Except Fault Int :=
  if -2147483648 ≤ x ∧ x ≤ 2147483647 then .ok x else .error .overflow

variable {T : Type} {length : Nat}

/-- `arr[m]`. -/
def read (arr : Fin length → T) (m : Int) : Except Fault T :=
  if inside : 0 ≤ m ∧ m.toNat < length then .ok (arr ⟨m.toNat, inside.2⟩) else .error .read

@[simp] theorem read_ok (arr : Fin length → T) (i : Fin length) :
    read arr (i : Nat) = .ok (arr i) := by
  simp [read]

variable [LT T] [DecidableLT T]

/-- The loop and the `return` behind it, with the passes that it is given. A division rounds towards
zero. -/
def searchLoop (arr : Fin length → T) (v : T) : Nat → Int → Int → Except Fault Int
  | 0, _, _ => .error .endless
  | passes + 1, begin_, end_ =>
    if begin_ ≤ end_ then do
      let sum ← checked (begin_ + end_)
      let m := sum.tdiv 2
      let x ← read arr m
      if v < x then
        let end_ ← checked (m - 1)
        searchLoop arr v passes begin_ end_
      else if x < v then
        let begin_ ← checked (m + 1)
        searchLoop arr v passes begin_ end_
      else pure m
    else do
      let negated ← checked (-begin_)
      checked (negated - 1)

/-- `BinarySearch`. There are passes for each element, and for the test that ends the loop. -/
def binarySearch (arr : Fin length → T) (v : T) : Except Fault Int := do
  let end_ ← checked (length - 1)
  searchLoop arr v (length + 1) 0 end_

/-- The comment of the source: an index of an element like `v`, or `-(index + 1)` for the index
at which `v` should be. -/
structure Found (arr : Fin length → T) (v : T) (rt : Int) : Prop where
  present : (∃ i, Equivalent (arr i) v) → ∃ i : Fin length, rt = (i : Nat) ∧ Equivalent (arr i) v
  absent : (¬ ∃ i, Equivalent (arr i) v) → rt = -((lessCount arr v : Int) + 1)

/-- The search comes to an end without a fault and returns what it should. -/
def Finds (arr : Fin length → T) (v : T) (result : Except Fault Int) : Prop :=
  ∃ rt, result = .ok rt ∧ Found arr v rt

/-! ## One pass -/

theorem checked_ok {x : Int} (low : -2147483648 ≤ x) (high : x ≤ 2147483647) : checked x = .ok x :=
  if_pos ⟨low, high⟩

theorem checked_overflow {x : Int} (high : 2147483647 < x) : checked x = .error .overflow :=
  if_neg fun inside => not_le.mpr high inside.2

section Passes

variable {arr : Fin length → T} {v : T} {lo hi passes : Nat}

/-- The middle of a window, as the code computes it. -/
theorem tdiv_middle (some_ : lo < hi) : ((lo : Int) + (hi - 1)).tdiv 2 = ((lo + hi - 1) / 2 : Nat) := by
  have nonneg : (0 : Int) ≤ lo + (hi - 1) := by omega
  rw [Int.tdiv_eq_ediv_of_nonneg nonneg]
  omega

/-- What a pass does whose sum does not overflow. -/
theorem searchLoop_pass (small : length < 2 ^ 31) (some_ : lo < hi) (fits : lo + hi ≤ 2 ^ 31)
    {m : Fin length} (middle : (m : Nat) = (lo + hi - 1) / 2) :
    searchLoop arr v (passes + 1) lo (hi - 1) =
      if v < arr m then searchLoop arr v passes lo ((m : Nat) - 1)
      else if arr m < v then searchLoop arr v passes ((m + 1 : Nat) : Int) (hi - 1)
      else .ok (m : Nat) := by
  have going : (lo : Int) ≤ hi - 1 := by omega
  have sum : checked ((lo : Int) + (hi - 1)) = .ok ((lo : Int) + (hi - 1)) :=
    checked_ok (by omega) (by omega)
  have before : checked ((m : Nat) - 1) = .ok (((m : Nat) : Int) - 1) := checked_ok (by omega) (by omega)
  have behind : checked ((m : Nat) + 1) = .ok ((m + 1 : Nat) : Int) := by
    rw [checked_ok (by omega) (by omega), Int.natCast_succ]
  -- the middle lies in the window, so that the element is there and its neighbours are `int`s
  rw [searchLoop, if_pos going, sum]
  simp only [bind, Except.bind, tdiv_middle some_, ← middle, read_ok, before, behind, pure,
    Except.pure]

/-- An empty window ends the loop. -/
theorem searchLoop_end [IsStrictWeakOrder T (· < ·)] (small : length < 2 ^ 31)
    (w : Window arr v lo lo) : Finds arr v (searchLoop arr v (passes + 1) lo (lo - 1)) := by
  have inside := w.inside
  refine ⟨-(lo : Int) - 1, ?_, ?_, ?_⟩
  · have stop : ¬ (lo : Int) ≤ lo - 1 := by omega
    rw [searchLoop, if_neg stop, checked_ok (by omega) (by omega)]
    exact checked_ok (by omega) (by omega)
  · rintro ⟨i, like⟩
    exact absurd like (w.not_equivalent i)
  · intro _
    rw [w.lessCount_eq]
    omega

/-- An index that is returned inside the loop. -/
theorem found_here {m : Fin length} (notGreater : ¬ v < arr m) (notLess : ¬ arr m < v) :
    Finds arr v (.ok (m : Nat)) :=
  ⟨(m : Nat), rfl, fun _ => ⟨m, rfl, notLess, notGreater⟩,
    fun none_ => absurd ⟨m, notLess, notGreater⟩ none_⟩

variable [IsStrictWeakOrder T (· < ·)]

/-- A window in the lower half of `int` is searched to its end. -/
theorem searchLoop_low (small : length < 2 ^ 31) (sorted : Sorted arr) (low : hi ≤ 2 ^ 30)
    (enough : hi - lo < passes) (w : Window arr v lo hi) :
    Finds arr v (searchLoop arr v passes lo (hi - 1)) := by
  -- on the passes: each makes the window smaller
  induction passes generalizing lo hi with
  | zero => exact absurd enough (Nat.not_lt_zero _)
  | succ passes ih =>
    have ordered := w.ordered
    have inside := w.inside
    rcases Nat.eq_or_lt_of_le ordered with rfl | some_
    · exact searchLoop_end small w
    · let m : Fin length := ⟨(lo + hi - 1) / 2, by omega⟩
      have middle : (m : Nat) = (lo + hi - 1) / 2 := rfl
      rw [searchLoop_pass small some_ (by omega) middle]
      split
      · next greater =>
        exact ih (by omega) (by omega) (w.goLeft sorted (by omega) greater)
      · next notGreater =>
        split
        · next less => exact ih low (by omega) (w.goRight sorted (by omega) less)
        · next notLess => exact found_here notGreater notLess

end Passes

/-! ## Overflow -/

/-- The index that pass `k` looks at if all passes before it go on to the right. -/
def rightMiddle (length k : Nat) : Nat := length - length / 2 ^ k - 1

/-- Of the elements that such passes look at before a sum overflows, one is not less than `v`. -/
def LeavesRight (arr : Fin length → T) (v : T) (k : Nat) : Prop :=
  ∃ j, k ≤ j ∧ ∃ i : Fin length, (i : Nat) = rightMiddle length j ∧ (i : Nat) < 2 ^ 30 ∧ ¬ arr i < v

section Overflow

variable {arr : Fin length → T} {v : T} {passes k : Nat}

theorem div_two_pow_succ (length k : Nat) : length / 2 ^ (k + 1) = length / 2 ^ k / 2 := by
  rw [pow_succ, Nat.div_div_eq_div_mul]

theorem div_two_pow_le (length k : Nat) : length / 2 ^ k ≤ length := Nat.div_le_self _ _

theorem rightMiddle_mono (length : Nat) {k j : Nat} (later : k ≤ j) :
    rightMiddle length k ≤ rightMiddle length j := by
  have smaller : length / 2 ^ j ≤ length / 2 ^ k :=
    Nat.div_le_div_left (Nat.pow_le_pow_right (by decide) later) (Nat.two_pow_pos k)
  unfold rightMiddle
  omega

/-- A sum that is too large ends the search. -/
theorem searchLoop_overflow {lo hi : Nat} (some_ : lo < hi) (beyond : 2 ^ 31 < lo + hi) :
    searchLoop arr v (passes + 1) lo (hi - 1) = .error .overflow := by
  have going : (lo : Int) ≤ hi - 1 := by omega
  rw [searchLoop, if_pos going, checked_overflow (by omega)]
  rfl

theorem binarySearch_starts (small : length < 2 ^ 31) :
    binarySearch arr v = searchLoop arr v (length + 1) (0 : Nat) (length - 1) := by
  rw [binarySearch, checked_ok (by omega) (by omega)]
  rfl

variable [IsStrictWeakOrder T (· < ·)]

/-- After `k` passes to the right the search succeeds as long as it leaves this path in time. -/
theorem searchLoop_right (small : length < 2 ^ 31) (sorted : Sorted arr) (large : 2 ^ 30 < length)
    (reached : length - length / 2 ^ k ≤ 2 ^ 30) (enough : length / 2 ^ k < passes)
    (w : Window arr v (length - length / 2 ^ k) length) :
    Finds arr v (searchLoop arr v passes (length - length / 2 ^ k : Nat) (length - 1)) ↔
      LeavesRight arr v (k + 1) := by
  -- on the passes: as long as they all go on to the right, `k` says where the window begins
  induction passes generalizing k with
  | zero => exact absurd enough (Nat.not_lt_zero _)
  | succ passes ih =>
    have half := div_two_pow_succ length k
    have part := div_two_pow_le length k
    have some_ : length - length / 2 ^ k < length := by omega
    have middle : (length - length / 2 ^ k + length - 1) / 2 = rightMiddle length (k + 1) := by
      unfold rightMiddle
      omega
    by_cases beyond : 2 ^ 31 < length - length / 2 ^ k + length
    · rw [searchLoop_overflow some_ beyond]
      constructor
      · rintro ⟨rt, same, _⟩
        cases same
      · -- every later index of the path is too large as well
        rintro ⟨j, later, i, at_, low, _⟩
        have := rightMiddle_mono length later
        omega
    · let m : Fin length := ⟨rightMiddle length (k + 1), by omega⟩
      have low : (m : Nat) < 2 ^ 30 := by
        change rightMiddle length (k + 1) < 2 ^ 30
        omega
      rw [searchLoop_pass small some_ (by omega) (m := m) middle.symm]
      by_cases greater : v < arr m
      · -- the path is left, and the lower half has no overflow
        rw [if_pos greater]
        refine iff_of_true ?_ ⟨k + 1, le_rfl, m, rfl, low, lt_asymm_of greater⟩
        have before : length - length / 2 ^ k ≤ m := by
          change _ ≤ rightMiddle length (k + 1)
          omega
        exact searchLoop_low small sorted low.le (by omega) (w.goLeft sorted before greater)
      · rw [if_neg greater]
        by_cases less : arr m < v
        · rw [if_pos less]
          have next : (m : Nat) + 1 = length - length / 2 ^ (k + 1) := by
            change rightMiddle length (k + 1) + 1 = _
            unfold rightMiddle
            omega
          have w' := w.goRight sorted m.isLt less
          rw [next] at w' ⊢
          rw [ih (by omega) (by omega) w']
          constructor
          · rintro ⟨j, later, rest⟩
            exact ⟨j, by omega, rest⟩
          · rintro ⟨j, later, i, at_, rest⟩
            refine ⟨j, Nat.lt_of_le_of_ne later ?_, i, at_, rest⟩
            rintro rfl
            have here : i = m := Fin.ext at_
            exact rest.2 (here ▸ less)
        · rw [if_neg less]
          exact iff_of_true (found_here greater less) ⟨k + 1, le_rfl, m, rfl, low, less⟩

/-- The search of a sorted array comes to its end, reads inside of it, does not overflow and
returns what it should, exactly if the array is short or the element is small enough: the passes
that go on to the right leave the lower half of the range of `int` otherwise, and the next sum
overflows. -/
theorem binarySearch_finds_iff (sorted : Sorted arr) (small : length < 2 ^ 31) :
    Finds arr v (binarySearch arr v) ↔ length ≤ 2 ^ 30 ∨
      ∃ k, 1 ≤ k ∧ ∃ i : Fin length, (i : Nat) = length - length / 2 ^ k - 1 ∧ (i : Nat) < 2 ^ 30 ∧
        ¬ arr i < v := by
  rw [binarySearch_starts small]
  rcases Nat.lt_or_ge (2 ^ 30) length with large | short
  · have all : length - length / 2 ^ 0 = 0 := by simp
    have right : Finds arr v (searchLoop arr v (length + 1) (length - length / 2 ^ 0 : Nat)
        (length - 1)) ↔ LeavesRight arr v 1 :=
      searchLoop_right small sorted large (by omega) (by simp) (all.symm ▸ Window.whole arr v)
    rw [all] at right
    rw [right]
    exact ⟨.inr, fun h => h.resolve_left (by omega)⟩
  · exact iff_of_true (searchLoop_low small sorted short (by omega) (Window.whole arr v)) (.inl short)

instance strictWeakOrder_nat : IsStrictWeakOrder Nat (· < ·) := isStrictWeakOrder_of_isOrderConnected

example : binarySearch [1, 3, 3, 5].get 3 = .ok 1 := by decide

theorem binarySearch_finds_three :
    Finds [1, 3, 3, 5].get 3 (binarySearch [1, 3, 3, 5].get 3) := by
  have sorted : Sorted [1, 3, 3, 5].get := by
    unfold Sorted
    decide
  exact (binarySearch_finds_iff sorted (by decide)).mpr (.inl (by decide))

/-- The length for which the sum overflows first: behind thirty passes the last two elements are
left. -/
theorem binarySearch_overflows :
    let arr : Fin (2 ^ 30 + 1) → Nat := fun _ => 0
    Sorted arr ∧ binarySearch arr 1 = .error .overflow ∧ ¬ Finds arr 1 (binarySearch arr 1) := by
  intro arr
  have overflow : binarySearch arr 1 = .error .overflow := by decide +kernel
  refine ⟨fun _ _ _ => Nat.lt_irrefl 0, overflow, ?_⟩
  rw [overflow]
  rintro ⟨rt, same, _⟩
  cases same

end Overflow

end ServerFrame.BinarySearch
