import Mathlib.Algebra.Order.Ring.Nat
import Mathlib.Data.List.Basic
import Mathlib.Data.List.Infix

/-!
# Occurrences of a pattern in a list

A pattern occurs at an index if the list from there on begins with it. Occurrences that are taken
from left to right, each behind the end of the one before, cut a list into pieces.
-/
namespace Occurrences

variable {α : Type*} {f xs : List α}

def OccursAt (f xs : List α) (i : Nat) : Prop := f <+: xs.drop i

instance [DecidableEq α] (f xs : List α) (i : Nat) : Decidable (OccursAt f xs i) :=
  inferInstanceAs (Decidable (f <+: xs.drop i))

/-- The pieces of a list between the occurrences of `f`, taken from left to right without overlap. -/
inductive Pieces (f : List α) : List α → List (List α) → Prop
  | last {xs : List α} (absent : ∀ i, ¬OccursAt f xs i) : Pieces f xs [xs]
  | cut {front rest : List α} {pieces : List (List α)}
      (before : ∀ i < front.length, ¬OccursAt f (front ++ (f ++ rest)) i)
      (behind : Pieces f rest pieces) : Pieces f (front ++ (f ++ rest)) (front :: pieces)

theorem occursAt_cons {x : α} {i : Nat} : OccursAt f (x :: xs) (i + 1) ↔ OccursAt f xs i := Iff.rfl

theorem occursAt_append (front f rest : List α) :
    OccursAt f (front ++ (f ++ rest)) front.length := by
  rw [OccursAt, List.drop_left]
  exact List.prefix_append f rest

/-- A pattern occurs nowhere, or it has a first occurrence. -/
theorem absent_or_first (f xs : List α) : (∀ i, ¬OccursAt f xs i) ∨
    ∃ front rest, xs = front ++ (f ++ rest) ∧
      ∀ i < front.length, ¬OccursAt f (front ++ (f ++ rest)) i := by
  induction xs with
  | nil =>
    by_cases empty : f = []
    · exact .inr ⟨[], [], by simp [empty]⟩
    · exact .inl fun i here => empty (by simpa [OccursAt] using here)
  | cons x xs ih =>
    -- the pattern is here, or it is looked for behind `x`
    by_cases here : f <+: x :: xs
    · obtain ⟨rest, whole⟩ := here
      exact .inr ⟨[], rest, whole.symm, by simp⟩
    · rcases ih with absent | ⟨front, rest, rfl, before⟩
      · left
        intro i
        cases i with
        | zero => exact here
        | succ i => exact absent i
      · refine .inr ⟨x :: front, rest, rfl, fun i less => ?_⟩
        cases i with
        | zero => exact here
        | succ i => exact before i (Nat.lt_of_succ_lt_succ less)

namespace Pieces

variable {pieces pieces' : List (List α)}

theorem ne_nil (cut : Pieces f xs pieces) : pieces ≠ [] := by
  cases cut <;> simp

/-- Every list can be cut. -/
theorem exists_of_ne_nil (some_ : f ≠ []) (xs : List α) : ∃ pieces, Pieces f xs pieces := by
  induction size : xs.length using Nat.strong_induction_on generalizing xs with
  | _ n ih =>
    rcases absent_or_first f xs with absent | ⟨front, rest, rfl, before⟩
    · exact ⟨[xs], .last absent⟩
    · -- behind a pattern that is not empty the list is shorter
      have pos := List.length_pos_iff.mpr some_
      rw [List.length_append, List.length_append] at size
      obtain ⟨pieces, behind⟩ := ih rest.length (by omega) rest rfl
      exact ⟨front :: pieces, .cut before behind⟩

/-- There is one way to do it. -/
theorem unique (cut : Pieces f xs pieces) (cut' : Pieces f xs pieces') : pieces = pieces' := by
  induction cut generalizing pieces' with
  | last absent =>
    cases cut' with
    | last => rfl
    | cut => exact absurd (occursAt_append _ f _) (absent _)
  | @cut front rest pieces before behind ih =>
    generalize whole : front ++ (f ++ rest) = xs at cut'
    cases cut' with
    | last absent => exact absurd (whole ▸ occursAt_append front f rest) (absent front.length)
    | @cut front' rest' pieces' before' behind' =>
      -- neither of the two first occurrences stands in front of the other
      have same : front.length = front'.length := by
        rcases Nat.lt_trichotomy front.length front'.length with less | same | more
        · exact absurd (whole ▸ occursAt_append front f rest) (before' _ less)
        · exact same
        · exact absurd (whole ▸ occursAt_append front' f rest') (before _ more)
      obtain ⟨rfl, behind_eq⟩ := List.append_inj whole same
      obtain rfl := List.append_cancel_left behind_eq
      rw [ih behind']

end Pieces

/-- What is put between pieces stands behind each but the last. -/
theorem intercalate_cons (sep front : List α) {pieces : List (List α)} (some_ : pieces ≠ []) :
    sep.intercalate (front :: pieces) = front ++ (sep ++ sep.intercalate pieces) := by
  cases pieces with
  | nil => exact absurd rfl some_
  | cons piece pieces => rw [List.intercalate_cons_cons, List.append_assoc]

theorem Pieces.intercalate {pieces : List (List α)} (cut : Pieces f xs pieces) :
    f.intercalate pieces = xs := by
  induction cut with
  | last => exact List.intercalate_singleton
  | cut _ behind ih => rw [intercalate_cons f _ behind.ne_nil, ih]

/-! ## The first occurrence -/

section First

variable [DecidableEq α]

/-- The first index at which the pattern occurs. -/
def first (f : List α) : List α → Option Nat
  | [] => if f = [] then some 0 else none
  | x :: xs => if f <+: x :: xs then some 0 else (first f xs).map (· + 1)

theorem first_of_absent (absent : ∀ i, ¬OccursAt f xs i) : first f xs = none := by
  induction xs with
  | nil =>
    have some_ : f ≠ [] := by
      rintro rfl
      exact absent 0 List.nil_prefix
    rw [first, if_neg some_]
  | cons x xs ih =>
    have here : ¬f <+: x :: xs := absent 0
    rw [first, if_neg here, ih fun i => absent (i + 1), Option.map_none]

theorem first_of_before {front rest : List α}
    (before : ∀ i < front.length, ¬OccursAt f (front ++ (f ++ rest)) i) :
    first f (front ++ (f ++ rest)) = some front.length := by
  induction front with
  | nil =>
    -- the list may still be empty, if the pattern is
    have here : f <+: f ++ rest := List.prefix_append f rest
    rw [List.nil_append]
    cases whole : f ++ rest with
    | nil => rw [first, if_pos (List.append_eq_nil_iff.mp whole).1, List.length_nil]
    | cons x xs => rw [first, if_pos (whole ▸ here), List.length_nil]
  | cons x front ih =>
    have here : ¬f <+: x :: (front ++ (f ++ rest)) := before 0 (Nat.succ_pos _)
    have later := ih fun i less => before (i + 1) (Nat.succ_lt_succ less)
    rw [List.cons_append, first, if_neg here, later]
    rfl

end First

/-! ## Patterns of one element -/

section Element

variable {d : α}

theorem prefix_singleton {x : α} : [d] <+: x :: xs ↔ d = x := by
  rw [List.cons_prefix_cons]
  simp

theorem occursAt_singleton {i : Nat} : OccursAt [d] xs i ↔ xs[i]? = some d := by
  induction xs generalizing i with
  | nil => simp [OccursAt]
  | cons x xs ih =>
    cases i with
    | zero =>
      have first : OccursAt [d] (x :: xs) 0 ↔ d = x := prefix_singleton
      simp [first, eq_comm]
    | succ i => rw [occursAt_cons, ih, List.getElem?_cons_succ]

theorem absent_singleton : (∀ i, ¬OccursAt [d] xs i) ↔ d ∉ xs := by
  simp only [occursAt_singleton, List.mem_iff_getElem?, not_exists]

theorem before_singleton {front rest : List α} :
    (∀ i < front.length, ¬OccursAt [d] (front ++ ([d] ++ rest)) i) ↔ d ∉ front := by
  rw [← absent_singleton]
  constructor
  · intro before i here
    rw [occursAt_singleton] at here
    obtain ⟨less, -⟩ := List.getElem?_eq_some_iff.mp here
    refine before i less ?_
    rw [occursAt_singleton, List.getElem?_append_left less, here]
  · intro absent i less here
    rw [occursAt_singleton, List.getElem?_append_left less] at here
    exact absent i (occursAt_singleton.mpr here)

/-- As many pieces as there are separators, and one more; none of them has a separator. -/
theorem Pieces.singleton [BEq α] [LawfulBEq α] {pieces : List (List α)}
    (cut : Pieces [d] xs pieces) :
    pieces.length = xs.count d + 1 ∧ ∀ piece ∈ pieces, d ∉ piece := by
  generalize single : [d] = f at cut
  induction cut with
  | last absent =>
    subst single
    have none_ := absent_singleton.mp absent
    simp [List.count_eq_zero.mpr none_, none_]
  | @cut front rest pieces before behind ih =>
    subst single
    have none_ := before_singleton.mp before
    obtain ⟨count, free⟩ := ih
    constructor
    · simp only [List.length_cons, count, List.count_append, List.count_eq_zero.mpr none_,
        List.count_cons_self, List.count_nil]
      omega
    · simpa [none_] using free

/-- Looking for an element is looking for a pattern of one element. -/
theorem findIdx?_eq_first [DecidableEq α] (p : α → Bool) (same : ∀ x, p x = true ↔ x = d)
    (xs : List α) : xs.findIdx? p = first [d] xs := by
  induction xs with
  | nil => rfl
  | cons x xs ih =>
    rw [List.findIdx?_cons, first, ih]
    by_cases here : x = d
    · rw [if_pos ((same x).mpr here), if_pos (prefix_singleton.mpr here.symm)]
    · have other : ¬[d] <+: x :: xs := fun begins => here (prefix_singleton.mp begins).symm
      rw [if_neg (fun yes => here ((same x).mp yes)), if_neg other]

/-! ## An element that stands twice -/

/-- Joined pieces do not begin with what is put between them, unless the first piece does. -/
theorem head_joined {piece : List α} (some_ : piece ≠ []) (plain : d ∉ piece)
    (pieces : List (List α)) (rest : List α) :
    ([d].intercalate (piece :: pieces) ++ rest).head? ≠ some d := by
  cases piece with
  | nil => exact absurd rfl some_
  | cons x piece =>
    have other : x ≠ d := fun same => plain (same ▸ List.mem_cons_self ..)
    cases pieces with
    | nil => simpa [List.intercalate_singleton] using other
    | cons next pieces => simpa [List.intercalate_cons_cons] using other

/-- An element that stands twice is behind all that does not have it. -/
theorem OccursAt.behind {piece rest : List α} (plain : d ∉ piece) {i : Nat}
    (here : OccursAt [d, d] (piece ++ rest) i) :
    ∃ j, i = piece.length + j ∧ OccursAt [d, d] rest j := by
  induction piece generalizing i with
  | nil => exact ⟨i, by simp, here⟩
  | cons x piece ih =>
    obtain ⟨other, plain⟩ := not_or.mp (mt List.mem_cons.mpr plain)
    cases i with
    | zero => exact absurd (List.cons_prefix_cons.mp here).1 other
    | succ i =>
      obtain ⟨j, rfl, behind⟩ := ih plain here
      exact ⟨j, by simp [Nat.add_right_comm], behind⟩

/-- It is behind all pieces with one between them, unless a piece is empty. -/
theorem OccursAt.behind_joined {pieces : List (List α)} {rest : List α}
    (some_ : ∀ piece ∈ pieces, piece ≠ []) (plain : ∀ piece ∈ pieces, d ∉ piece) {i : Nat}
    (here : OccursAt [d, d] ([d].intercalate pieces ++ rest) i) :
    ∃ j, i = ([d].intercalate pieces).length + j ∧ OccursAt [d, d] rest j := by
  induction pieces generalizing i with
  | nil => exact ⟨i, by simp, by simpa using here⟩
  | cons piece pieces ih =>
    have first := plain piece (List.mem_cons_self ..)
    cases pieces with
    | nil =>
      rw [List.intercalate_singleton] at here ⊢
      exact here.behind first
    | cons next pieces =>
      rw [List.intercalate_cons_cons, List.append_assoc, List.append_assoc] at here
      obtain ⟨j, rfl, behind⟩ := here.behind first
      cases j with
      | zero =>
        -- the next piece does not begin with it
        have begins := (List.cons_prefix_cons.mp behind).2
        have next_ := head_joined (some_ next (by simp)) (plain next (by simp)) pieces rest
        rw [List.singleton_prefix_iff_head?_eq_some] at begins
        exact absurd begins next_
      | succ j =>
        obtain ⟨k, rfl, last⟩ := ih (fun p member => some_ p (List.mem_cons_of_mem _ member))
          (fun p member => plain p (List.mem_cons_of_mem _ member)) behind
        refine ⟨k, ?_, last⟩
        rw [List.intercalate_cons_cons]
        simp only [List.length_append, List.length_singleton]
        omega

/-- Joined pieces do not have it twice. -/
theorem not_twice_joined {pieces : List (List α)} (some_ : ∀ piece ∈ pieces, piece ≠ [])
    (plain : ∀ piece ∈ pieces, d ∉ piece) (i : Nat) :
    ¬ OccursAt [d, d] ([d].intercalate pieces) i := by
  intro here
  rw [← List.append_nil ([d].intercalate pieces)] at here
  obtain ⟨j, -, behind⟩ := here.behind_joined some_ plain
  rw [OccursAt, List.drop_nil, List.prefix_nil] at behind
  cases behind

/-- Where it stands twice between joined pieces it does so nowhere else. -/
theorem twice_between {left right : List (List α)} (someLeft : ∀ piece ∈ left, piece ≠ [])
    (plainLeft : ∀ piece ∈ left, d ∉ piece) (someRight : ∀ piece ∈ right, piece ≠ [])
    (plainRight : ∀ piece ∈ right, d ∉ piece) {i : Nat}
    (here : OccursAt [d, d] ([d].intercalate left ++ ([d, d] ++ [d].intercalate right)) i) :
    i = ([d].intercalate left).length := by
  obtain ⟨j, rfl, behind⟩ := here.behind_joined someLeft plainLeft
  match j, behind with
  | 0, _ => rfl
  | 1, begins =>
    have head := (List.cons_prefix_cons.mp begins).2
    rw [List.singleton_prefix_iff_head?_eq_some] at head
    cases right with
    | nil => cases head
    | cons piece right =>
      have other := head_joined (someRight piece (by simp)) (plainRight piece (by simp)) right []
      rw [List.append_nil] at other
      exact absurd head other
  | j + 2, later => exact absurd later (not_twice_joined someRight plainRight j)

end Element

/-! ## A limited number of cuts -/

section Limited

variable {pieces : List (List α)}

/-- At most `n` cuts are made, and what is behind them is left together. -/
def limited (sep : List α) : Nat → List (List α) → List (List α)
  | 0, pieces => [sep.intercalate pieces]
  | _ + 1, [] => []
  | _ + 1, [piece] => [piece]
  | n + 1, piece :: next :: pieces => piece :: limited sep n (next :: pieces)

theorem limited_cons (sep piece : List α) (n : Nat) (some_ : pieces ≠ []) :
    limited sep (n + 1) (piece :: pieces) = piece :: limited sep n pieces := by
  cases pieces with
  | nil => exact absurd rfl some_
  | cons next pieces => rfl

theorem limited_singleton (sep piece : List α) (n : Nat) : limited sep n [piece] = [piece] := by
  cases n with
  | zero => rw [limited, List.intercalate_singleton]
  | succ n => rfl

theorem length_limited (sep : List α) (n : Nat) (some_ : pieces ≠ []) :
    (limited sep n pieces).length = min (n + 1) pieces.length := by
  induction pieces generalizing n with
  | nil => exact absurd rfl some_
  | cons piece pieces ih =>
    cases n with
    | zero => simp [limited]
    | succ n =>
      by_cases none_ : pieces = []
      · simp [none_, limited]
      · rw [limited_cons sep piece n none_, List.length_cons, ih n none_, List.length_cons]
        omega

theorem limited_ne_nil (sep : List α) (n : Nat) (some_ : pieces ≠ []) : limited sep n pieces ≠ [] := by
  have pos := List.length_pos_iff.mpr some_
  rw [← List.length_pos_iff, length_limited sep n some_]
  omega

theorem intercalate_limited (sep : List α) (n : Nat) (some_ : pieces ≠ []) :
    sep.intercalate (limited sep n pieces) = sep.intercalate pieces := by
  induction pieces generalizing n with
  | nil => exact absurd rfl some_
  | cons piece pieces ih =>
    cases n with
    | zero => rw [limited, List.intercalate_singleton]
    | succ n =>
      -- the last piece has no separator behind it
      by_cases none_ : pieces = []
      · rw [none_, limited]
      · rw [limited_cons sep piece n none_, intercalate_cons sep piece none_,
          intercalate_cons sep piece (limited_ne_nil sep n none_), ih n none_]

/-- All but the last are pieces. -/
theorem mem_dropLast_limited (sep : List α) (n : Nat) {piece : List α}
    (member : piece ∈ (limited sep n pieces).dropLast) : piece ∈ pieces := by
  induction pieces generalizing n with
  | nil => cases n <;> simp [limited] at member
  | cons front pieces ih =>
    cases n with
    | zero => simp [limited] at member
    | succ n =>
      by_cases none_ : pieces = []
      · simp [none_, limited] at member
      · rw [limited_cons sep front n none_,
          List.dropLast_cons_of_ne_nil (limited_ne_nil sep n none_)] at member
        rcases List.mem_cons.mp member with rfl | later
        · exact List.mem_cons_self
        · exact List.mem_cons_of_mem _ (ih n later)

end Limited

end Occurrences
