import Mathlib.Data.List.Induction
import Mathlib.Logic.Function.Basic

/-!
# A store that is filled on demand

The keys are on sides. A side is filled from a source when one of its keys is read for the
first time; what was put there before stays. An eager store is filled on every side before
it is used. The two give the same answers unless a key is deleted too early: filling the side
brings it back.
-/
namespace LazyStore

variable {K S V A : Type*}

inductive Op (K V A : Type*) where
  | read (k : K) (answer : Option V → A)
  | put (k : K) (v : V)
  | delete (k : K)

/-- The key that an operation changes. -/
def Op.changes : Op K V A → Option K
  | .read .. => none
  | .put k _ => some k
  | .delete k => some k

/-- The side that an operation looks into. -/
def Op.looks (side : K → S) : Op K V A → Option S
  | .read k _ => some (side k)
  | .put .. => none
  | .delete _ => none

@[ext]
structure Store (K S V : Type*) where
  content : K → Option V
  filled : S → Bool

/-! ## Answers of two systems -/

section Answers

variable {σ τ Op B : Type*} (f : σ → Op → B × σ) (g : τ → Op → B × τ)

def answers : σ → List Op → List B
  | _, [] => []
  | s, op :: ops => (f s op).1 :: answers (f s op).2 ops

def after (s : σ) (ops : List Op) : σ := ops.foldl (fun s op => (f s op).2) s

theorem after_concat (s : σ) (ops : List Op) (op : Op) :
    after f s (ops ++ [op]) = (f (after f s ops) op).2 := by
  rw [after, List.foldl_append]
  rfl

/-- Two systems answer alike if they do at every single operation. -/
theorem answers_eq_iff (s : σ) (t : τ) (ops : List Op) :
    answers f s ops = answers g t ops ↔
      ∀ before op rest, ops = before ++ op :: rest →
        (f (after f s before) op).1 = (g (after g t before) op).1 := by
  induction ops generalizing s t with
  | nil => simp [answers]
  | cons op ops ih =>
    rw [answers, answers, List.cons.injEq, ih]
    constructor
    · rintro ⟨first, rest⟩ before op' behind split
      cases before with
      | nil =>
        obtain ⟨rfl, rfl⟩ := List.cons.inj split
        exact first
      | cons _ before =>
        obtain ⟨same, split'⟩ := List.cons.inj split
        subst same
        exact rest before op' behind split'
    · intro all
      exact ⟨all [] op ops rfl, fun before op' behind split =>
        all (op :: before) op' behind (congrArg (op :: ·) split)⟩

/-- A simulation that keeps the answers. -/
theorem answers_of_simulation {Op' : Type*} {h : τ → Op' → B × τ} {translate : Op → Op'}
    {R : σ → τ → Prop}
    (simulates : ∀ s t op, R s t →
      (f s op).1 = (h t (translate op)).1 ∧ R (f s op).2 (h t (translate op)).2)
    {s : σ} {t : τ} (initial : R s t) (ops : List Op) :
    answers f s ops = answers h t (ops.map translate) := by
  induction ops generalizing s t with
  | nil => rfl
  | cons op ops ih =>
    obtain ⟨same, related⟩ := simulates s t op initial
    rw [List.map_cons, answers, answers, same, ih related]

end Answers

variable [DecidableEq K] [DecidableEq S]

namespace Store

def update (st : Store K S V) (k : K) (v : Option V) : Store K S V :=
  { st with content := Function.update st.content k v }

section

variable (side : K → S) (source : K → Option V)

def fill (st : Store K S V) (s : S) : Store K S V :=
  if st.filled s then st
  else
    { content := fun k => if side k = s then (st.content k).or (source k) else st.content k
      filled := Function.update st.filled s true }

def step (st : Store K S V) : Op K V A → Option A × Store K S V
  | .read k answer =>
    let st := st.fill side source (side k)
    (some (answer (st.content k)), st)
  | .put k v => (none, st.update k (some v))
  | .delete k => (none, st.update k none)

/-- What is read at `k`. -/
def seen (st : Store K S V) (k : K) : Option V :=
  if st.filled (side k) then st.content k else (st.content k).or (source k)

end

def empty : Store K S V := ⟨fun _ => none, fun _ => false⟩

def eager (source : K → Option V) : Store K S V := ⟨source, fun _ => true⟩

variable {side : K → S} {source : K → Option V} {st : Store K S V}

omit [DecidableEq K] in
theorem content_fill (k : K) : (st.fill side source (side k)).content k = st.seen side source k := by
  rw [seen, fill]
  split
  next => rfl
  next => exact if_pos rfl

omit [DecidableEq K] in
theorem seen_fill (s : S) (k : K) :
    (st.fill side source s).seen side source k = st.seen side source k := by
  rw [seen, seen, fill]
  split
  next => rfl
  next unfilled =>
    by_cases same : side k = s
    · subst same
      simp [unfilled]
    · simp [same]

omit [DecidableEq S] in
theorem content_update (k k' : K) (v : Option V) :
    (st.update k v).content k' = if k' = k then v else st.content k' :=
  Function.update_apply ..

omit [DecidableEq S] in
theorem seen_update (k k' : K) (v : Option V) :
    (st.update k v).seen side source k' =
      if k' = k then (if st.filled (side k') then v else v.or (source k'))
      else st.seen side source k' := by
  rw [seen, seen, content_update]
  by_cases here : k' = k
  · rw [if_pos here, if_pos here]
    rfl
  · rw [if_neg here, if_neg here]
    rfl

omit [DecidableEq K] in
theorem filled_fill (s s' : S) :
    (st.fill side source s).filled s' = true ↔ st.filled s' = true ∨ s = s' := by
  rw [fill]
  split
  next filled =>
    refine ⟨.inl, fun here => ?_⟩
    rcases here with filled' | rfl
    · exact filled'
    · exact filled
  next =>
    by_cases same : s = s'
    · simp [same]
    · simp [same, Function.update_of_ne (Ne.symm same)]

end Store

/-! ## What comes back -/

variable {side : K → S} {source : K → Option V} {ops : List (Op K V A)} {k : K}

omit [DecidableEq K] [DecidableEq S] in
theorem concat_eq_split_iff {α : Type*} {xs before between : List α} {x y : α} :
    xs ++ [y] = before ++ x :: between ↔
      (xs = before ∧ y = x ∧ between = []) ∨
        ∃ front, between = front ++ [y] ∧ xs = before ++ x :: front := by
  constructor
  · intro split
    rcases List.eq_nil_or_concat between with rfl | ⟨front, last, rfl⟩
    · obtain ⟨same, last⟩ := List.append_inj' split rfl
      exact .inl ⟨same, List.singleton_inj.mp last, rfl⟩
    · rw [List.concat_eq_append, ← List.cons_append, ← List.append_assoc] at split
      obtain ⟨same, last'⟩ := List.append_inj' split rfl
      exact .inr ⟨front, by rw [List.concat_eq_append, last'], same⟩
  · rintro (⟨rfl, rfl, rfl⟩ | ⟨front, rfl, rfl⟩)
    · rfl
    · simp

/-- `k` was deleted when its side had not been filled, and was then left alone. -/
def Early (side : K → S) (ops : List (Op K V A)) (k : K) : Prop :=
  ∃ before between, ops = before ++ .delete k :: between ∧
    (∀ op ∈ before, op.looks side ≠ some (side k)) ∧ ∀ op ∈ between, op.changes ≠ some k

omit [DecidableEq K] [DecidableEq S]

theorem not_early_nil : ¬ Early side ([] : List (Op K V A)) k := by
  rintro ⟨before, between, split, -⟩
  simp at split

theorem early_concat_of_changes {op : Op K V A} (changes : op.changes = some k) :
    Early side (ops ++ [op]) k ↔ op = .delete k ∧ ∀ op ∈ ops, op.looks side ≠ some (side k) := by
  constructor
  · rintro ⟨before, between, split, unfilled, alone⟩
    rcases concat_eq_split_iff.mp split with ⟨rfl, rfl, rfl⟩ | ⟨front, rfl, rfl⟩
    · exact ⟨rfl, unfilled⟩
    · exact absurd changes (alone op (by simp))
  · rintro ⟨rfl, unfilled⟩
    exact ⟨ops, [], rfl, unfilled, by simp⟩

theorem early_concat_of_keeps {op : Op K V A} (keeps : op.changes ≠ some k) :
    Early side (ops ++ [op]) k ↔ Early side ops k := by
  constructor
  · rintro ⟨before, between, split, unfilled, alone⟩
    rcases concat_eq_split_iff.mp split with ⟨rfl, rfl, rfl⟩ | ⟨front, rfl, rfl⟩
    · exact absurd rfl keeps
    · exact ⟨before, front, rfl, unfilled, fun op member => alone op (by simp [member])⟩
  · rintro ⟨before, between, rfl, unfilled, alone⟩
    refine ⟨before, between ++ [op], by simp, unfilled, fun op' member => ?_⟩
    rcases List.mem_append.mp member with member | member
    · exact alone op' member
    · rwa [List.mem_singleton.mp member]

theorem looked_concat {s : S} {op : Op K V A} :
    (∃ op' ∈ ops ++ [op], op'.looks side = some s) ↔
      (∃ op' ∈ ops, op'.looks side = some s) ∨ op.looks side = some s := by
  simp only [List.mem_append, List.mem_singleton, or_and_right, exists_or, exists_eq_left]

/-- How the two stores stand to each other after some operations. -/
structure Agree (side : K → S) (source : K → Option V) (ops : List (Op K V A))
    (lazy eager : Store K S V) : Prop where
  full : ∀ s, eager.filled s = true
  filled : ∀ s, lazy.filled s = true ↔ ∃ op ∈ ops, op.looks side = some s
  back : ∀ k, Early side ops k → lazy.seen side source k = source k ∧ eager.content k = none
  same : ∀ k, ¬ Early side ops k → lazy.seen side source k = eager.content k

theorem agree_nil : Agree side source ([] : List (Op K V A)) .empty (.eager source) where
  full _ := rfl
  filled _ := by simp [Store.empty]
  back _ early := absurd early not_early_nil
  same _ _ := rfl

theorem fill_of_full {st : Store K S V} [DecidableEq S] (full : ∀ s, st.filled s = true) (s : S) :
    st.fill side source s = st := if_pos (full s)

variable [DecidableEq K] [DecidableEq S] {lazy eager : Store K S V}

theorem Agree.step (agree : Agree side source ops lazy eager) (op : Op K V A) :
    Agree side source (ops ++ [op]) (lazy.step side source op).2 (eager.step side source op).2 := by
  obtain ⟨full, filled, back, same⟩ := agree
  cases op with
  | read k answer =>
    have keeps : ∀ k', (Op.read k answer : Op K V A).changes ≠ some k' := by simp [Op.changes]
    refine ⟨?_, fun s => ?_, fun k' early => ?_, fun k' early => ?_⟩
    · rwa [Store.step, fill_of_full full]
    · rw [Store.step, Store.filled_fill, filled, looked_concat, Op.looks, Option.some.injEq]
    · rw [early_concat_of_keeps (keeps k')] at early
      rw [Store.step, Store.step, Store.seen_fill, fill_of_full full]
      exact back k' early
    · rw [early_concat_of_keeps (keeps k')] at early
      rw [Store.step, Store.step, Store.seen_fill, fill_of_full full]
      exact same k' early
  | put k v =>
    refine ⟨full, fun s => ?_, fun k' early => ?_, fun k' early => ?_⟩
    · have blind : (Op.put k v : Op K V A).looks side ≠ some s := (Option.some_ne_none s).symm
      exact (filled s).trans (looked_concat.trans (or_iff_left blind)).symm
    · have other : k' ≠ k := by
        rintro rfl
        cases ((early_concat_of_changes rfl).mp early).1
      have keeps : (Op.put k v : Op K V A).changes ≠ some k' := fun at_k =>
        other (Option.some.inj at_k).symm
      rw [early_concat_of_keeps keeps] at early
      rw [Store.step, Store.step, Store.seen_update, Store.content_update, if_neg other, if_neg other]
      exact back k' early
    · rw [Store.step, Store.step, Store.seen_update, Store.content_update]
      by_cases here : k' = k
      · subst here
        simp
      · have keeps : (Op.put k v : Op K V A).changes ≠ some k' := fun at_k =>
          here (Option.some.inj at_k).symm
        rw [early_concat_of_keeps keeps] at early
        rw [if_neg here, if_neg here]
        exact same k' early
  | delete k =>
    refine ⟨full, fun s => ?_, fun k' early => ?_, fun k' early => ?_⟩
    · have blind : (Op.delete k : Op K V A).looks side ≠ some s := (Option.some_ne_none s).symm
      exact (filled s).trans (looked_concat.trans (or_iff_left blind)).symm
    · rw [Store.step, Store.step, Store.seen_update, Store.content_update]
      by_cases here : k' = k
      · subst here
        obtain ⟨-, unread⟩ := (early_concat_of_changes rfl).mp early
        have unfilled : lazy.filled (side k') ≠ true := fun here =>
          have ⟨op, member, looks⟩ := (filled _).mp here
          unread op member looks
        simp [unfilled]
      · have keeps : (Op.delete k : Op K V A).changes ≠ some k' := fun at_k =>
          here (Option.some.inj at_k).symm
        rw [early_concat_of_keeps keeps] at early
        rw [if_neg here, if_neg here]
        exact back k' early
    · rw [Store.step, Store.step, Store.seen_update, Store.content_update]
      by_cases here : k' = k
      · subst here
        have read : lazy.filled (side k') = true := by
          by_contra unfilled
          exact early ((early_concat_of_changes rfl).mpr ⟨rfl, fun op member looks =>
            unfilled ((filled _).mpr ⟨op, member, looks⟩)⟩)
        simp [read]
      · have keeps : (Op.delete k : Op K V A).changes ≠ some k' := fun at_k =>
          here (Option.some.inj at_k).symm
        rw [early_concat_of_keeps keeps] at early
        rw [if_neg here, if_neg here]
        exact same k' early

theorem agree_after (ops : List (Op K V A)) :
    Agree side source ops (after (Store.step side source) .empty ops)
      (after (Store.step side source) (.eager source) ops) := by
  induction ops using List.reverseRecOn with
  | nil => exact agree_nil
  | append_singleton ops op ih =>
    rw [after_concat, after_concat]
    exact ih.step op

/-- The lazy store answers as the eager one if and only if no read can tell that a key came
back. -/
theorem answers_lazy_iff (ops : List (Op K V A)) :
    answers (Store.step side source) .empty ops = answers (Store.step side source) (.eager source) ops ↔
      ∀ before k answer rest, ops = before ++ .read k answer :: rest → Early side before k →
        answer (source k) = answer none := by
  rw [answers_eq_iff]
  constructor
  · intro same before k answer rest split early
    obtain ⟨full, -, back, -⟩ := @agree_after K S V A side source _ _ before
    have same := same before (.read k answer) rest split
    rw [Store.step, Store.step, Store.content_fill, fill_of_full full, (back k early).1,
      (back k early).2] at same
    exact Option.some.inj same
  · intro unseen before op rest split
    obtain ⟨full, -, back, agree⟩ := @agree_after K S V A side source _ _ before
    cases op with
    | read k answer =>
      rw [Store.step, Store.step, Store.content_fill, fill_of_full full]
      by_cases early : Early side before k
      · rw [(back k early).1, (back k early).2, unseen before k answer rest split early]
      · rw [agree k early]
    | put k v => rfl
    | delete k => rfl

end LazyStore
