import Mathlib.Algebra.Ring.Nat
import Mathlib.Data.List.Basic

/-!
# Ordered sets with iterators

A set kept in the order of a comparison function, as its elements from `begin` to `end`.
A position is the distance from `begin`, and the length of the sequence is `end`. The
comparison may look at data that changes: the operations take it as an argument and the
lemmas ask only that the elements stand in its order when the operation is called.
-/
namespace OrderedSet

variable {α : Type*} (less : α → α → Bool)

/-- The position of the first element that is not less than `x`. -/
def lowerBound (x : α) : List α → Nat
  | [] => 0
  | y :: ys => if less y x then lowerBound x ys + 1 else 0

/-- The position of an element equivalent to `x`, or the end. -/
def find (x : α) (xs : List α) : Nat :=
  match xs[lowerBound less x xs]? with
  | some y => if less x y then xs.length else lowerBound less x xs
  | none => xs.length

/-- Inserts `x` unless an equivalent element is there; also gives the position of the
element that is in the set afterwards. -/
def insert (x : α) (xs : List α) : Nat × List α :=
  match xs[lowerBound less x xs]? with
  | some y =>
    if less x y then (lowerBound less x xs, xs.insertIdx (lowerBound less x xs) x)
    else (lowerBound less x xs, xs)
  | none => (lowerBound less x xs, xs.insertIdx (lowerBound less x xs) x)

variable {less}

theorem lowerBound_append {x : α} {pre post : List α} (before : ∀ y ∈ pre, less y x = true)
    (after : ∀ y ∈ post, less y x = false) :
    lowerBound less x (pre ++ post) = pre.length := by
  induction pre with
  | nil =>
    cases post with
    | nil => rfl
    | cons y post => simp [lowerBound, after y]
  | cons y pre ih =>
    have rest := ih fun z member => before z (List.mem_cons_of_mem y member)
    simp [lowerBound, before y, rest]

variable {xs : List α} {x : α}

/-- Around `x` the elements of an ordered set are first less than `x` and then not. -/
theorem split_at (trans : ∀ a b c, less a b = true → less b c = true → less a c = true)
    (sorted : xs.Pairwise fun a b => less a b = true) (x : α) :
    ∃ pre post, xs = pre ++ post ∧ (∀ y ∈ pre, less y x = true) ∧
      ∀ y ∈ post, less y x = false := by
  induction xs with
  | nil => exact ⟨[], [], rfl, by simp, by simp⟩
  | cons y xs ih =>
    obtain ⟨above, sorted⟩ := List.pairwise_cons.mp sorted
    cases below : less y x with
    | true =>
      obtain ⟨pre, post, rfl, before, after⟩ := ih sorted
      refine ⟨y :: pre, post, rfl, ?_, after⟩
      intro z member
      rcases List.mem_cons.mp member with rfl | member
      · exact below
      · exact before z member
    | false =>
      refine ⟨[], y :: xs, rfl, by simp, ?_⟩
      intro z member
      rcases List.mem_cons.mp member with rfl | member
      · exact below
      · -- an element behind `y` and less than `x` would put `y` below `x`
        by_contra under
        have chain := trans y z x (above z member) (by simpa using under)
        rw [below] at chain
        exact Bool.false_ne_true chain

/-- Looking for an element finds it. -/
theorem find_of_mem (irrefl : ∀ a, less a a = false)
    (trans : ∀ a b c, less a b = true → less b c = true → less a c = true)
    (sorted : xs.Pairwise fun a b => less a b = true) (member : x ∈ xs) :
    ∃ pre post, xs = pre ++ x :: post ∧ find less x xs = pre.length := by
  obtain ⟨pre, post, rfl⟩ := List.append_of_mem member
  obtain ⟨_, above, below⟩ := List.pairwise_append.mp sorted
  have before : ∀ y ∈ pre, less y x = true := fun y member => below y member x (by simp)
  have after : ∀ y ∈ x :: post, less y x = false := by
    intro y member
    rcases List.mem_cons.mp member with rfl | member
    · exact irrefl y
    · by_contra under
      have loop := trans x y x ((List.pairwise_cons.mp above).1 y member) (by simpa using under)
      rw [irrefl x] at loop
      exact Bool.false_ne_true loop
  refine ⟨pre, post, rfl, ?_⟩
  simp [find, lowerBound_append before after, irrefl x]

private theorem insertIdx_append_length (x : α) (pre post : List α) :
    (pre ++ post).insertIdx pre.length x = pre ++ x :: post := by
  induction pre with
  | nil => simp
  | cons y pre ih => simp [ih]

/-- An element that is comparable with all of them is put in its place. -/
theorem insert_of_new (trans : ∀ a b c, less a b = true → less b c = true → less a c = true)
    (sorted : xs.Pairwise fun a b => less a b = true)
    (comparable : ∀ y ∈ xs, less y x = false → less x y = true) :
    ∃ pre post, xs = pre ++ post ∧ insert less x xs = (pre.length, pre ++ x :: post) ∧
      (∀ y ∈ pre, less y x = true) ∧ ∀ y ∈ post, less x y = true := by
  obtain ⟨pre, post, rfl, before, after⟩ := split_at trans sorted x
  have above : ∀ y ∈ post, less x y = true := fun y member =>
    comparable y (List.mem_append_right pre member) (after y member)
  refine ⟨pre, post, rfl, ?_, before, above⟩
  have bound := lowerBound_append before after
  have place := insertIdx_append_length x pre post
  cases post with
  | nil => rw [insert, bound, place]; simp
  | cons y post => simp [insert, bound, above y, place]

theorem sorted_insert {pre post : List α} (sorted : (pre ++ post).Pairwise fun a b => less a b = true)
    (before : ∀ y ∈ pre, less y x = true) (after : ∀ y ∈ post, less x y = true) :
    (pre ++ x :: post).Pairwise fun a b => less a b = true := by
  obtain ⟨front, back, across⟩ := List.pairwise_append.mp sorted
  refine List.pairwise_append.mpr ⟨front, List.pairwise_cons.mpr ⟨after, back⟩, ?_⟩
  intro a left b right
  rcases List.mem_cons.mp right with rfl | right
  · exact before a left
  · exact across a left b right

/-- An element that is above all of them is appended. -/
theorem insert_last (before : ∀ y ∈ xs, less y x = true) :
    insert less x xs = (xs.length, xs ++ [x]) := by
  have bound : lowerBound less x xs = xs.length := by
    have nothing : ∀ y ∈ ([] : List α), less y x = false := by simp
    simpa using lowerBound_append before nothing
  rw [insert, bound, List.getElem?_eq_none (Nat.le_refl _)]
  simp

/-- Inserting keeps the order, also when an equivalent element is there. -/
theorem sorted_of_insert
    (trans : ∀ a b c, less a b = true → less b c = true → less a c = true)
    (sorted : xs.Pairwise fun a b => less a b = true) (x : α) :
    (insert less x xs).2.Pairwise fun a b => less a b = true := by
  obtain ⟨pre, post, rfl, before, after⟩ := split_at trans sorted x
  have bound := lowerBound_append before after
  cases post with
  | nil =>
    rw [List.append_nil] at sorted ⊢
    rw [insert_last before]
    exact sorted_insert (by simpa using sorted) before (by simp)
  | cons y post =>
    have tail := (List.pairwise_append.mp sorted).2.1
    cases above : less x y with
    | true =>
      have put : (insert less x (pre ++ y :: post)).2 = pre ++ x :: y :: post := by
        have place := insertIdx_append_length x pre (y :: post)
        simp [insert, bound, above, place]
      rw [put]
      apply sorted_insert sorted before
      intro z member
      rcases List.mem_cons.mp member with rfl | member
      · exact above
      · exact trans x y z above ((List.pairwise_cons.mp tail).1 z member)
    | false =>
      have same : (insert less x (pre ++ y :: post)).2 = pre ++ y :: post := by
        simp [insert, bound, above]
      rw [same]
      exact sorted

end OrderedSet
