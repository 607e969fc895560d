import Mathlib.Algebra.Ring.Nat
import Mathlib.Data.List.Basic

/-!
# Families indexed by a range

What the members of a finite family hold, each at most one thing, when one of them
changes.
-/
namespace Family

variable {β : Type*}

/-- Changing member `w` exchanges what it held for what it holds now. -/
theorem flatMap_change {n w : Nat} (bound : w < n) {g g' : Nat → List β}
    (same : ∀ v, v ≠ w → g' v = g v) :
    ((List.range n).flatMap g' ++ g w).Perm ((List.range n).flatMap g ++ g' w) := by
  induction n with
  | zero => omega
  | succ n ih =>
    simp only [List.range_succ, List.flatMap_append, List.flatMap_singleton, List.append_assoc]
    by_cases last : w = n
    · -- the members before `w` hold what they held
      subst last
      have before : (List.range w).flatMap g' = (List.range w).flatMap g := by
        apply List.flatMap_congr
        intro v member
        exact same v (Nat.ne_of_lt (List.mem_range.mp member))
      rw [before]
      exact List.perm_append_comm.append_left _
    · have here : g' n = g n := same n (fun eq => last eq.symm)
      have inside := (ih (by omega)).append_right (g n)
      simp only [List.append_assoc] at inside
      rw [here]
      apply (List.perm_append_comm.append_left _).trans
      apply inside.trans
      exact List.perm_append_comm.append_left _

/-- The same for members that hold at most one thing. -/
theorem filterMap_change {n w : Nat} (bound : w < n) {g g' : Nat → Option β}
    (same : ∀ v, v ≠ w → g' v = g v) :
    ((List.range n).filterMap g' ++ (g w).toList).Perm
      ((List.range n).filterMap g ++ (g' w).toList) := by
  simp only [List.filterMap_eq_flatMap_toList]
  have same_list : ∀ v, v ≠ w → (g' v).toList = (g v).toList := fun v ne => by rw [same v ne]
  exact flatMap_change bound same_list

end Family
