import Mathlib.Algebra.Ring.Nat
import Mathlib.Data.List.Basic

/-!
# Streams in segments

A stream that arrives in segments is a list of lists. A reader that asks for at most
`limit` elements gets a front part of the first segment.
-/
namespace Segments

variable {α : Type*}

/-- The start of the segment that holds position `p`. -/
def cutBefore : List (List α) → Nat → Nat
  | [], _ => 0
  | s :: segs, p => if p < s.length then 0 else s.length + cutBefore segs (p - s.length)

/-- The end of the read that holds position `p`, for a reader that starts to read at the
start of its segment. -/
def readEnd (limit : Nat) : List (List α) → Nat → Nat
  | [], _ => 0
  | s :: segs, p =>
    if p < s.length then min limit s.length else s.length + readEnd limit segs (p - s.length)

/-- What is left after the first `n` elements. -/
def dropFront : Nat → List (List α) → List (List α)
  | _, [] => []
  | n, s :: segs => if n < s.length then s.drop n :: segs else dropFront (n - s.length) segs

theorem cutBefore_le (segs : List (List α)) (p : Nat) : cutBefore segs p ≤ p := by
  induction segs generalizing p with
  | nil => exact Nat.zero_le p
  | cons s segs ih =>
    rw [cutBefore]
    split
    next => exact Nat.zero_le p
    next beyond =>
      have := ih (p - s.length)
      omega

/-- There is no cut between the start of a segment and a position in it. -/
theorem cutBefore_eq_of_le {segs : List (List α)} {p q : Nat} (start : cutBefore segs q ≤ p)
    (before : p ≤ q) : cutBefore segs p = cutBefore segs q := by
  induction segs generalizing p q with
  | nil => rfl
  | cons s segs ih =>
    rw [cutBefore] at start
    split at start
    next inside => rw [cutBefore, cutBefore, if_pos (by omega), if_pos inside]
    next beyond =>
      have same := ih (p := p - s.length) (q := q - s.length) (by omega) (by omega)
      rw [cutBefore, cutBefore, if_neg (by omega), if_neg beyond, same]

theorem cutBefore_mono (segs : List (List α)) {p q : Nat} (le : p ≤ q) :
    cutBefore segs p ≤ cutBefore segs q := by
  by_cases inside : cutBefore segs q ≤ p
  · rw [cutBefore_eq_of_le inside le]
  · exact Nat.le_trans (cutBefore_le segs p) (by omega)

theorem lt_readEnd {limit : Nat} {segs : List (List α)} {p : Nat} (short : p < limit)
    (inside : p < segs.flatten.length) : p < readEnd limit segs p := by
  induction segs generalizing p with
  | nil => simp at inside
  | cons s segs ih =>
    rw [List.flatten_cons, List.length_append] at inside
    rw [readEnd]
    split
    next here => omega
    next beyond =>
      have := ih (p := p - s.length) (by omega) (by omega)
      omega

theorem readEnd_le (limit : Nat) (segs : List (List α)) (p : Nat) :
    readEnd limit segs p ≤ segs.flatten.length := by
  induction segs generalizing p with
  | nil => exact Nat.zero_le _
  | cons s segs ih =>
    rw [List.flatten_cons, List.length_append, readEnd]
    split
    next here => omega
    next beyond =>
      have := ih (p - s.length)
      omega

theorem flatten_dropFront (n : Nat) (segs : List (List α)) :
    (dropFront n segs).flatten = segs.flatten.drop n := by
  induction segs generalizing n with
  | nil => simp [dropFront]
  | cons s segs ih =>
    rw [dropFront, List.flatten_cons, List.drop_append]
    split
    next inside =>
      have none_left : n - s.length = 0 := by omega
      rw [none_left, List.drop_zero, List.flatten_cons]
    next beyond =>
      have gone : s.drop n = [] := List.drop_eq_nil_of_le (by omega)
      rw [ih, gone, List.nil_append]

theorem ne_nil_of_mem_dropFront {n : Nat} {segs : List (List α)} (nonempty : ∀ s ∈ segs, s ≠ [])
    {s : List α} (member : s ∈ dropFront n segs) : s ≠ [] := by
  induction segs generalizing n with
  | nil => cases member
  | cons t segs ih =>
    rw [dropFront] at member
    split at member
    next inside =>
      rcases List.mem_cons.mp member with rfl | member
      · exact List.ne_nil_of_length_pos (by rw [List.length_drop]; omega)
      · exact nonempty s (List.mem_cons_of_mem _ member)
    next beyond => exact ih (fun s member => nonempty s (List.mem_cons_of_mem _ member)) member

theorem dropFront_zero {segs : List (List α)} (nonempty : ∀ s ∈ segs, s ≠ []) :
    dropFront 0 segs = segs := by
  cases segs with
  | nil => rfl
  | cons s segs =>
    have pos : 0 < s.length := List.length_pos_of_ne_nil (nonempty s (List.mem_cons_self ..))
    rw [dropFront, if_pos pos, List.drop_zero]

theorem dropFront_dropFront (m n : Nat) (segs : List (List α)) :
    dropFront m (dropFront n segs) = dropFront (n + m) segs := by
  induction segs generalizing n with
  | nil => rfl
  | cons s segs ih =>
    rw [dropFront, dropFront]
    by_cases inside : n < s.length
    · rw [if_pos inside, dropFront, List.length_drop, List.drop_drop]
      by_cases both : n + m < s.length
      · rw [if_pos both, if_pos (by omega)]
      · rw [if_neg both, if_neg (by omega)]
        congr 1
        omega
    · rw [if_neg inside, if_neg (by omega), ih]
      congr 1
      omega

/-- What is got ends inside of `tail` or holds it. -/
theorem split_stream {got rest tail after : List α} (stream : got ++ rest = tail ++ after) :
    (∃ more, more ≠ [] ∧ tail = got ++ more ∧ rest = more ++ after) ∨
      ∃ more, got = tail ++ more ∧ after = more ++ rest := by
  rcases List.append_eq_append_iff.mp stream with ⟨more, tail_eq, rest_eq⟩ | ⟨more, got_eq, after_eq⟩
  · by_cases none_left : more = []
    · subst none_left
      exact .inr ⟨[], by simp [tail_eq], by simp [rest_eq]⟩
    · exact .inl ⟨more, none_left, tail_eq, rest_eq⟩
  · exact .inr ⟨more, got_eq, after_eq⟩

/-! ## By lengths

Where a reader that asks for `limit` elements at a time reads in segments of given lengths:
in a long segment every `limit` elements. -/

/-- The start of the read that holds position `p`. -/
def readStart (limit : Nat) : List Nat → Nat → Nat
  | [], _ => 0
  | s :: lengths, p => if p < s then p / limit * limit else s + readStart limit lengths (p - s)

/-- The end of the read that holds position `p`. -/
def readStop (limit : Nat) : List Nat → Nat → Nat
  | [], _ => 0
  | s :: lengths, p =>
    if p < s then min (p / limit * limit + limit) s else s + readStop limit lengths (p - s)

/-- The lengths behind the first `n` elements. -/
def skip : Nat → List Nat → List Nat
  | _, [] => []
  | n, s :: lengths => if n < s then (s - n) :: lengths else skip (n - s) lengths

theorem map_length_dropFront (n : Nat) (segs : List (List α)) :
    (dropFront n segs).map List.length = skip n (segs.map List.length) := by
  induction segs generalizing n with
  | nil => rfl
  | cons s segs ih =>
    rw [dropFront, List.map_cons, skip]
    split
    next => rw [List.map_cons, List.length_drop]
    next => exact ih (n - s.length)

/-- What one read leaves. -/
def readOnce (limit s : Nat) (lengths : List Nat) : List Nat :=
  if limit < s then (s - limit) :: lengths else lengths

/-- The read that holds a position ends behind it, and not far behind it. -/
theorem readStop_bounds {limit : Nat} (pos : 0 < limit) {lengths : List Nat} {p : Nat}
    (inside : p < lengths.sum) :
    p < readStop limit lengths p ∧ readStop limit lengths p ≤ lengths.sum ∧
      readStop limit lengths p ≤ p + limit := by
  induction lengths generalizing p with
  | nil => cases inside
  | cons s lengths ih =>
    rw [List.sum_cons] at inside ⊢
    rw [readStop]
    split
    next here =>
      have below : p / limit * limit ≤ p := Nat.div_mul_le_self p limit
      have above : p < p / limit * limit + limit := Nat.lt_div_mul_add pos
      omega
    next beyond =>
      have rest := ih (p := p - s) (by omega)
      omega

section Once

variable {limit s p : Nat} {lengths : List Nat}

theorem readStart_of_lt (inside : p < min limit s) : readStart limit (s :: lengths) p = 0 := by
  rw [readStart, if_pos (by omega), Nat.div_eq_of_lt (by omega), Nat.zero_mul]

theorem readStop_of_lt (inside : p < min limit s) :
    readStop limit (s :: lengths) p = min limit s := by
  rw [readStop, if_pos (by omega), Nat.div_eq_of_lt (by omega), Nat.zero_mul, Nat.zero_add]

theorem div_mul_of_le (pos : 0 < limit) (le : limit ≤ p) :
    p / limit * limit = limit + (p - limit) / limit * limit := by
  have split : p = p - limit + limit := by omega
  calc
    p / limit * limit = (p - limit + limit) / limit * limit := by rw [← split]
    _ = limit + (p - limit) / limit * limit := by
      rw [Nat.add_div_right _ pos, Nat.succ_mul, Nat.add_comm]

theorem readStart_of_le (pos : 0 < limit) (beyond : min limit s ≤ p) :
    readStart limit (s :: lengths) p =
      min limit s + readStart limit (readOnce limit s lengths) (p - min limit s) := by
  rw [readOnce]
  by_cases long : limit < s
  · rw [Nat.min_eq_left (by omega), if_pos long, readStart, readStart]
    by_cases inside : p < s
    · rw [if_pos inside, if_pos (by omega), div_mul_of_le pos (by omega)]
    · have same : p - limit - (s - limit) = p - s := by omega
      rw [if_neg inside, if_neg (by omega), same]
      omega
  · rw [Nat.min_eq_right (by omega), if_neg long, readStart, if_neg (by omega)]

theorem readStop_of_le (pos : 0 < limit) (beyond : min limit s ≤ p) :
    readStop limit (s :: lengths) p =
      min limit s + readStop limit (readOnce limit s lengths) (p - min limit s) := by
  rw [readOnce]
  by_cases long : limit < s
  · rw [Nat.min_eq_left (by omega), if_pos long, readStop, readStop]
    by_cases inside : p < s
    · rw [if_pos inside, if_pos (by omega), div_mul_of_le pos (by omega)]
      omega
    · have same : p - limit - (s - limit) = p - s := by omega
      rw [if_neg inside, if_neg (by omega), same]
      omega
  · rw [Nat.min_eq_right (by omega), if_neg long, readStop, if_neg (by omega)]

theorem skip_add (n : Nat) :
    skip (min limit s + n) (s :: lengths) = skip n (readOnce limit s lengths) := by
  rw [readOnce]
  by_cases long : limit < s
  · rw [Nat.min_eq_left (by omega), if_pos long, skip, skip]
    by_cases inside : limit + n < s
    · have same : s - (limit + n) = s - limit - n := by omega
      rw [if_pos inside, if_pos (by omega), same]
    · have same : limit + n - s = n - (s - limit) := by omega
      rw [if_neg inside, if_neg (by omega), same]
  · have same : s + n - s = n := by omega
    rw [Nat.min_eq_right (by omega), if_neg long, skip, if_neg (by omega), same]

end Once

/-! ## A position that goes on -/

section Position

variable {x : α} {xs rest : List α} {p : Nat}

theorem drop_succ_of_drop (here : xs.drop p = x :: rest) : xs.drop (p + 1) = rest := by
  rw [← List.drop_drop, here, List.drop_one, List.tail_cons]

theorem take_succ_of_drop (here : xs.drop p = x :: rest) :
    xs.take (p + 1) = xs.take p ++ [x] := by
  rw [List.take_add, here]
  rfl

end Position

end Segments
