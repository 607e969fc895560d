import Mathlib.Algebra.Ring.Nat
import Mathlib.Data.List.Basic

/-!
# Overwriting a stretch of a list

`splice l p xs` is `l` with the elements from offset `p` on overwritten by `xs`,
growing past the end of `l` when `xs` does not fit. It is what a write at a cursor
does to a flat byte string. The lemmas say how it acts on a list cut into pieces,
which is what a write over a chain of blocks has to agree with.
-/
namespace Splice

variable {α : Type*}

def splice (l : List α) (p : Nat) (xs : List α) : List α :=
  l.take p ++ xs ++ l.drop (p + xs.length)

@[simp] theorem splice_nil (l : List α) (p : Nat) : splice l p [] = l := by
  simp [splice]

theorem length_splice (l : List α) (p : Nat) (xs : List α) (fits : p ≤ l.length) :
    (splice l p xs).length = max l.length (p + xs.length) := by
  simp only [splice, List.length_append, List.length_take, List.length_drop]
  omega

/-- A write that stays inside the first piece leaves the second alone. -/
theorem splice_append_left (a b : List α) (p : Nat) (xs : List α)
    (inside : p + xs.length ≤ a.length) : splice (a ++ b) p xs = splice a p xs ++ b := by
  have start : p ≤ a.length := by omega
  simp only [splice, List.append_assoc]
  rw [List.take_append_of_le_length start, List.drop_append_of_le_length inside]

/-- A write that starts after the first piece leaves it alone. -/
theorem splice_append_right (a b : List α) (p : Nat) (xs : List α) :
    splice (a ++ b) (a.length + p) xs = a ++ splice b p xs := by
  simp only [splice, Nat.add_assoc, List.take_length_add_append, List.drop_length_add_append,
    List.append_assoc]

/-- A write that crosses the border continues at the start of the second piece. -/
theorem splice_append_cross (a b : List α) (p : Nat) (xs : List α)
    (start : p ≤ a.length) (cross : a.length ≤ p + xs.length) :
    splice (a ++ b) p xs =
      splice a p (xs.take (a.length - p)) ++ splice b 0 (xs.drop (a.length - p)) := by
  have room : (xs.take (a.length - p)).length = a.length - p := by
    simp only [List.length_take]; omega
  have filled : a.drop (p + (a.length - p)) = [] := by
    apply List.drop_eq_nil_of_le; omega
  have past : p + xs.length = a.length + (xs.length - (a.length - p)) := by omega
  simp only [splice, room, filled, List.take_append_of_le_length start, List.take_zero,
    List.nil_append, List.append_nil, List.length_drop, Nat.zero_add]
  rw [past, List.drop_length_add_append, List.append_assoc, List.append_assoc,
    ← List.append_assoc (xs.take _), List.take_append_drop]

/-- Two writes in a row, the second where the first stopped, are one write. -/
theorem splice_splice (l : List α) (p : Nat) (xs ys : List α) (fits : p ≤ l.length) :
    splice (splice l p xs) (p + xs.length) ys = splice l p (xs ++ ys) := by
  have front : (l.take p ++ xs).length = p + xs.length := by simp [fits]
  have cut : (splice l p xs).take (p + xs.length) = l.take p ++ xs := by
    rw [splice, List.take_left' front]
  have rest : (splice l p xs).drop (p + xs.length + ys.length) =
      l.drop (p + xs.length + ys.length) := by
    rw [splice, ← List.drop_drop, List.drop_left' front, List.drop_drop]
  rw [splice, cut, rest, splice, List.length_append, ← Nat.add_assoc]
  simp [List.append_assoc]

/-- Writing and then keeping the part in use is writing on the part in use. -/
theorem take_splice (l : List α) (p s : Nat) (xs : List α)
    (start : p ≤ s) (room : p + xs.length ≤ l.length) (used : s ≤ l.length) :
    (splice l p xs).take (max s (p + xs.length)) = splice (l.take s) p xs := by
  have front : (l.take p ++ xs).length = p + xs.length := by
    simp only [List.length_append, List.length_take]; omega
  have inner : (l.take s).take p = l.take p := by
    rw [List.take_take]; congr 1; omega
  rw [splice, splice, inner]
  rcases Nat.le_total s (p + xs.length) with short | long
  · rw [Nat.max_eq_right short, List.take_left' front,
      List.drop_eq_nil_of_le (by simp only [List.length_take]; omega), List.append_nil]
  · rw [Nat.max_eq_left long, List.take_append, front, List.take_of_length_le (by omega),
      List.drop_take]

end Splice
