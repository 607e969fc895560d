import ServerFrame.Lib.Run

/-!
# Regular expressions and partial automata

What a regular expression matches, and a test that an automaton, given by its partial step
function, gets through every word of it: the test computes the states in which the words
end.
-/
namespace Regular

variable {σ α : Type*}

inductive Expr (α : Type*) where
  | eps
  | sym (letters : List α)
  | cat (r s : Expr α)
  | alt (r s : Expr α)
  | star (r : Expr α)

inductive Matches : Expr α → List α → Prop
  | eps : Matches .eps []
  | sym {letters : List α} {a : α} (member : a ∈ letters) : Matches (.sym letters) [a]
  | cat {r s : Expr α} {v w : List α} (left : Matches r v) (right : Matches s w) :
      Matches (.cat r s) (v ++ w)
  | altLeft {r s : Expr α} {w : List α} (left : Matches r w) : Matches (.alt r s) w
  | altRight {r s : Expr α} {w : List α} (right : Matches s w) : Matches (.alt r s) w
  | starNil {r : Expr α} : Matches (.star r) []
  | starCons {r : Expr α} {v w : List α} (first : Matches r v) (rest : Matches (.star r) w) :
      Matches (.star r) (v ++ w)

theorem matches_star_sym {letters w : List α} (all : ∀ a ∈ w, a ∈ letters) :
    Matches (.star (.sym letters)) w := by
  induction w with
  | nil => exact .starNil
  | cons a w ih =>
    exact .starCons (.sym (all a (List.mem_cons_self ..)))
      (ih fun b member => all b (List.mem_cons_of_mem _ member))

/-- Induction over the words of a star. -/
theorem Matches.star_induction {r : Expr α} {P : List α → Prop} (nil : P [])
    (cons : ∀ v w, Matches r v → Matches (.star r) w → P w → P (v ++ w)) {w : List α}
    (is : Matches (.star r) w) : P w := by
  generalize whole : Expr.star r = s at is
  induction is with
  | starNil => exact nil
  | starCons first rest _ ih =>
    cases whole
    exact cons _ _ first rest (ih rfl)
  | eps | sym | cat | altLeft | altRight => cases whole

theorem Matches.star_cases {r : Expr α} {w : List α} (is : Matches (.star r) w) :
    w = [] ∨ ∃ u v, Matches r u ∧ Matches (.star r) v ∧ w = u ++ v := by
  cases is with
  | starNil => exact .inl rfl
  | starCons first rest => exact .inr ⟨_, _, first, rest, rfl⟩

theorem matches_sym_iff {letters w : List α} :
    Matches (.sym letters) w ↔ ∃ a ∈ letters, w = [a] := by
  constructor
  · intro is
    cases is with
    | sym member => exact ⟨_, member, rfl⟩
  · rintro ⟨a, member, rfl⟩
    exact .sym member

theorem matches_cat_iff {r s : Expr α} {w : List α} :
    Matches (.cat r s) w ↔ ∃ u v, Matches r u ∧ Matches s v ∧ w = u ++ v := by
  constructor
  · intro is
    cases is with
    | cat left right => exact ⟨_, _, left, right, rfl⟩
  · rintro ⟨u, v, left, right, rfl⟩
    exact .cat left right

theorem matches_alt_iff {r s : Expr α} {w : List α} :
    Matches (.alt r s) w ↔ Matches r w ∨ Matches s w := by
  constructor
  · intro is
    cases is with
    | altLeft left => exact .inl left
    | altRight right => exact .inr right
  · rintro (left | right)
    · exact .altLeft left
    · exact .altRight right

/-- Every letter of the expression has the property. -/
def Expr.all (p : α → Bool) : Expr α → Bool
  | .eps => true
  | .sym letters => letters.all p
  | .cat r s | .alt r s => r.all p && s.all p
  | .star r => r.all p

theorem Matches.all {p : α → Bool} {r : Expr α} {w : List α} (is : Matches r w)
    (holds : r.all p = true) : ∀ a ∈ w, p a = true := by
  induction is with
  | eps | starNil => simp
  | sym member =>
    intro a same
    rw [List.mem_singleton.mp same]
    exact List.all_eq_true.mp holds _ member
  | cat _ _ ih_left ih_right =>
    rw [Expr.all, Bool.and_eq_true] at holds
    exact fun a member => (List.mem_append.mp member).elim (ih_left holds.1 a) (ih_right holds.2 a)
  | altLeft _ ih =>
    rw [Expr.all, Bool.and_eq_true] at holds
    exact ih holds.1
  | altRight _ ih =>
    rw [Expr.all, Bool.and_eq_true] at holds
    exact ih holds.2
  | starCons _ _ ih_first ih_rest =>
    exact fun a member => (List.mem_append.mp member).elim (ih_first holds a) (ih_rest holds a)

section Ends

variable [DecidableEq σ] (step : σ → α → Option σ)

/-- The states that the letters lead to from `q`; every letter must lead somewhere. -/
def targets (q : σ) : List α → Option (List σ)
  | [] => some []
  | a :: as =>
    match step q a, targets q as with
    | some t, some ts => some (if t ∈ ts then ts else t :: ts)
    | _, _ => none

def advance (letters : List α) : List σ → Option (List σ)
  | [] => some []
  | q :: qs =>
    match targets step q letters, advance letters qs with
    | some ts, some us => some (ts ∪ us)
    | _, _ => none

/-- Adds to `qs` what `next` leads to until nothing is new. -/
def closure (next : List σ → Option (List σ)) : Nat → List σ → Option (List σ)
  | 0, _ => none
  | fuel + 1, qs =>
    match next qs with
    | none => none
    | some ts => if ts ⊆ qs then some qs else closure next fuel (ts ∪ qs)

/-- The states in which the words of the expression end that are read from one of `qs`. -/
def ends (fuel : Nat) : Expr α → List σ → Option (List σ)
  | .eps, qs => some qs
  | .sym letters, qs => advance step letters qs
  | .cat r s, qs => (ends fuel r qs).bind (ends fuel s)
  | .alt r s, qs =>
    match ends fuel r qs, ends fuel s qs with
    | some ts, some us => some (ts ∪ us)
    | _, _ => none
  | .star r, qs => closure (ends fuel r) fuel qs

variable {step}

theorem targets_spec {q : σ} {as : List α} {ts : List σ} (found : targets step q as = some ts) {a : α}
    (member : a ∈ as) : ∃ t ∈ ts, step q a = some t := by
  induction as generalizing ts with
  | nil => cases member
  | cons b as ih =>
    rw [targets] at found
    split at found
    next t us stepped later =>
      obtain rfl := Option.some.inj found
      rcases List.mem_cons.mp member with rfl | member
      · refine ⟨t, ?_, stepped⟩
        split
        next known => exact known
        next => exact List.mem_cons_self ..
      · obtain ⟨t', known, stepped'⟩ := ih later member
        refine ⟨t', ?_, stepped'⟩
        split
        next => exact known
        next => exact List.mem_cons_of_mem _ known
    next => cases found

theorem advance_spec {letters : List α} {qs ts : List σ} (found : advance step letters qs = some ts)
    {q : σ} {a : α} (from_q : q ∈ qs) (member : a ∈ letters) : ∃ t ∈ ts, step q a = some t := by
  induction qs generalizing ts with
  | nil => cases from_q
  | cons p qs ih =>
    rw [advance] at found
    split at found
    next us vs here later =>
      obtain rfl := Option.some.inj found
      rcases List.mem_cons.mp from_q with rfl | from_q
      · obtain ⟨t, known, stepped⟩ := targets_spec here member
        exact ⟨t, List.mem_union_iff.mpr (.inl known), stepped⟩
      · obtain ⟨t, known, stepped⟩ := ih later from_q
        exact ⟨t, List.mem_union_iff.mpr (.inr known), stepped⟩
    next => cases found

/-- The closure holds what it began with, and `next` does not lead out of it. -/
theorem closure_spec {next : List σ → Option (List σ)} {fuel : Nat} {qs ts : List σ}
    (found : closure next fuel qs = some ts) :
    qs ⊆ ts ∧ closure next fuel ts = some ts ∧ ∃ us, next ts = some us ∧ us ⊆ ts := by
  induction fuel generalizing qs with
  | zero => cases found
  | succ fuel ih =>
    rw [closure] at found
    split at found
    next => cases found
    next us leads =>
      split at found
      next closed =>
        obtain rfl := Option.some.inj found
        refine ⟨fun _ member => member, ?_, us, leads, closed⟩
        simp only [closure, leads, if_pos closed]
      next =>
        obtain ⟨more, -, vs, leads', closed⟩ := ih found
        refine ⟨fun q member => more (List.mem_union_iff.mpr (.inr member)), ?_, vs, leads', closed⟩
        simp only [closure, leads', if_pos closed]

/-- The automaton gets through every word of the expression. -/
theorem run_of_ends {fuel : Nat} {r : Expr α} {w : List α} (is : Matches r w) {qs ts : List σ}
    (found : ends step fuel r qs = some ts) {q : σ} (from_q : q ∈ qs) :
    ∃ t ∈ ts, Run.run step q w = some t := by
  induction is generalizing qs ts q with
  | eps =>
    obtain rfl := Option.some.inj found
    exact ⟨q, from_q, rfl⟩
  | sym member =>
    obtain ⟨t, known, stepped⟩ := advance_spec found from_q member
    exact ⟨t, known, by rw [Run.run, stepped, Option.bind_some, Run.run_nil]⟩
  | cat _ _ ih_left ih_right =>
    obtain ⟨us, left, right⟩ := Option.bind_eq_some_iff.mp found
    obtain ⟨u, known, ran⟩ := ih_left left from_q
    obtain ⟨t, known', ran'⟩ := ih_right right known
    exact ⟨t, known', by rw [Run.run_append, ran, Option.bind_some, ran']⟩
  | altLeft _ ih =>
    rw [ends] at found
    split at found
    next us vs left right =>
      obtain rfl := Option.some.inj found
      obtain ⟨t, known, ran⟩ := ih left from_q
      exact ⟨t, List.mem_union_iff.mpr (.inl known), ran⟩
    next => cases found
  | altRight _ ih =>
    rw [ends] at found
    split at found
    next us vs left right =>
      obtain rfl := Option.some.inj found
      obtain ⟨t, known, ran⟩ := ih right from_q
      exact ⟨t, List.mem_union_iff.mpr (.inr known), ran⟩
    next => cases found
  | starNil => exact ⟨q, (closure_spec found).1 from_q, rfl⟩
  | starCons _ _ ih_first ih_rest =>
    -- from the closure on, one word more stays in it
    obtain ⟨more, again, us, leads, closed⟩ := closure_spec found
    obtain ⟨u, known, ran⟩ := ih_first leads (more from_q)
    obtain ⟨t, known', ran'⟩ := ih_rest again (closed known)
    exact ⟨t, known', by rw [Run.run_append, ran, Option.bind_some, ran']⟩

end Ends

end Regular
