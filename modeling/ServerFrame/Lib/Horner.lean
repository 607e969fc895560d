import Mathlib.Algebra.BigOperators.Intervals
import Mathlib.Algebra.BigOperators.Ring.Finset
import Mathlib.Data.Int.ModEq
import Mathlib.Tactic.Ring

/-!
# Horner's rule

A loop that multiplies by a base and adds a digit evaluates a polynomial, the first digit with the
highest power. On machine words it does so modulo the size of a word.
-/
namespace Horner

open Finset

/-- `base * value + digit`, digit after digit. -/
def eval {R : Type*} [CommRing R] (base value : R) (digits : List R) : R :=
  digits.foldl (fun value digit => base * value + digit) value

section
variable {R : Type*} [CommRing R] (base : R)

@[simp] theorem eval_nil (value : R) : eval base value [] = value := rfl

@[simp] theorem eval_cons (value digit : R) (digits : List R) :
    eval base value (digit :: digits) = eval base (base * value + digit) digits := rfl

/-- The digits with their powers, behind the value from before. -/
theorem eval_eq_sum (value : R) (digits : List R) :
    eval base value digits = base ^ digits.length * value +
      ∑ i ∈ range digits.length, digits.getD i 0 * base ^ (digits.length - 1 - i) := by
  induction digits generalizing value with
  | nil => simp
  | cons digit digits ih =>
    have powers : ∀ i, digits.length + 1 - 1 - (i + 1) = digits.length - 1 - i := by
      intro i
      omega
    rw [eval_cons, ih, List.length_cons, sum_range_succ']
    simp only [List.getD_cons_succ, List.getD_cons_zero, powers]
    rw [show digits.length + 1 - 1 - 0 = digits.length by omega]
    ring

/-- Against as many digits of one kind, what counts is by how much each digit is off. -/
theorem eval_sub_replicate (value digit : R) (digits : List R) :
    eval base value digits - eval base value (List.replicate digits.length digit) =
      ∑ i ∈ range digits.length, (digits.getD i 0 - digit) * base ^ (digits.length - 1 - i) := by
  rw [eval_eq_sum, eval_eq_sum, List.length_replicate, add_sub_add_left_eq_sub,
    ← sum_sub_distrib]
  apply sum_congr rfl
  intro i inside
  have same : (List.replicate digits.length digit).getD i 0 = digit := by
    rw [List.getD_eq_getElem?_getD, List.getElem?_replicate_of_lt (mem_range.mp inside),
      Option.getD_some]
  rw [same, sub_mul]

end

/-- A loop over words runs with the integers, modulo `m`, if each of its passes does. -/
theorem foldl_modEq {α β : Type*} {m base : ℤ} {step : α → β → α} (value : α → ℤ) (digit : β → ℤ)
    (pass : ∀ h c, value (step h c) ≡ base * value h + digit c [ZMOD m]) (h : α) (cs : List β) :
    value (cs.foldl step h) ≡ eval base (value h) (cs.map digit) [ZMOD m] := by
  induction cs generalizing h with
  | nil => exact Int.ModEq.refl _
  | cons c cs ih =>
    rw [List.foldl_cons, List.map_cons, eval_cons]
    apply (ih (step h c)).trans
    -- the values agree before the next pass, and so they do behind it
    rw [eval_eq_sum, eval_eq_sum]
    exact Int.ModEq.add_right _ (Int.ModEq.mul_left _ (pass h c))

end Horner
