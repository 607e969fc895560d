import ServerFrame.Hook.Flags
import ServerFrame.IOManager.Growth

/-!
# `FdContextManager` under concurrent calls

`Get` looks a descriptor up under the read lock and, when it is to create the context, does so
under the write lock; between the two other threads may do the same. Contexts are numbered in
the order in which they are made. The callers set timeouts and the non-blocking flag through the
pointers that they got.
-/
namespace ServerFrame.Hook

open IOManager.Growth (toInt grownSize toInt_le)

def soRcvtimeo : Nat := 20

/-- `FdContext::FdContext` with `Init`; `stat` is what `fstat` finds, a socket or another file. -/
def FdContext.ofStat (stat : Option Bool) : FdContext where
  isInit := stat.isSome
  isSocket := stat.getD false
  isSysNonblock := stat.getD false
  isUserNonblock := false
  isClosed := false
  recvTimeout := -1
  sendTimeout := -1

def FdContext.setTimeout (ctx : FdContext) (type : Nat) (v : UInt64) : FdContext :=
  if type = soRcvtimeo then { ctx with recvTimeout := v } else { ctx with sendTimeout := v }

def FdContext.setUserNonblock (ctx : FdContext) (v : Bool) : FdContext :=
  { ctx with isUserNonblock := v }

namespace Contexts

inductive Setting where
  | timeout (type : Nat) (v : UInt64)
  | userNonblock (v : Bool)
  deriving DecidableEq

def Setting.apply (ctx : FdContext) : Setting → FdContext
  | .timeout type v => ctx.setTimeout type v
  | .userNonblock v => ctx.setUserNonblock v

/-- What a call of `Get` has returned. -/
structure Got where
  fd : Nat
  autoCreate : Bool
  ctx : Option Nat
  deriving DecidableEq

/-- `creating t` is the descriptor for which a thread is between the locks. `returned` and
`settings` are not in the source; they record the calls of `Get` and, by descriptor, what was
set. -/
structure State where
  datas : List (Option Nat)
  objects : Nat → FdContext
  made : Nat
  creating : Nat → Option Nat
  returned : List Got
  settings : Nat → List Setting
  /-- An index outside of `datas_` was used. -/
  fault : Bool

/-- `FdContextManager::FdContextManager`. -/
def State.new : State where
  datas := List.replicate 64 none
  objects := fun _ => .ofStat none
  made := 0
  creating := fun _ => none
  returned := []
  settings := fun _ => []
  fault := false

def State.return (s : State) (got : Got) : State := { s with returned := s.returned ++ [got] }

/-- `Get` under the read lock. -/
def lookup (t fd : Nat) (autoCreate : Bool) (s : State) : State :=
  if toInt s.datas.length ≤ fd then
    if autoCreate then { s with creating := Function.update s.creating t (some fd) }
    else s.return ⟨fd, autoCreate, none⟩
  else
    match s.datas[fd]? with
    | none => { s with fault := true }
    | some ctx =>
      if ctx.isSome || !autoCreate then s.return ⟨fd, autoCreate, ctx⟩
      else { s with creating := Function.update s.creating t (some fd) }

/-- `datas_.resize(size)`. -/
def resize (size : Nat) (datas : List (Option Nat)) : List (Option Nat) :=
  datas.take size ++ List.replicate (size - datas.length) none

/-- The table that the creation of a context for `fd` puts it into. -/
def State.enlarged (s : State) (fd : Nat) : List (Option Nat) :=
  if (fd : Int) ≥ toInt s.datas.length then resize (grownSize fd) s.datas else s.datas

/-- `Get` under the write lock. -/
def create (t fd : Nat) (stat : Option Bool) (s : State) : State :=
  let s' := { s with
    objects := Function.update s.objects s.made (.ofStat stat)
    made := s.made + 1
    creating := Function.update s.creating t none }
  if fd < (s.enlarged fd).length then
    { s' with datas := (s.enlarged fd).set fd (some s.made) }.return ⟨fd, true, some s.made⟩
  else { s' with fault := true }

/-- A caller sets something through the pointer that it got for `fd`. -/
def set (fd ctx : Nat) (setting : Setting) (s : State) : State :=
  { s with
    objects := Function.update s.objects ctx (setting.apply (s.objects ctx))
    settings := Function.update s.settings fd (s.settings fd ++ [setting]) }

inductive Label where
  | lookup (t fd : Nat) (autoCreate : Bool)
  | create (t : Nat) (stat : Option Bool)
  | set (fd ctx : Nat) (setting : Setting)
  deriving DecidableEq

/-- A descriptor is an `int`, and one sets what one was given. -/
def step (s : State) : Label → Option State
  | .lookup t fd autoCreate =>
    if !s.fault && (s.creating t).isNone && decide (fd < 2 ^ 31) then some (lookup t fd autoCreate s)
    else none
  | .create t stat =>
    if s.fault then none else (s.creating t).map fun fd => create t fd stat s
  | .set fd ctx setting =>
    if !s.fault && s.returned.any (fun got => got.fd == fd && got.ctx == some ctx) then
      some (set fd ctx setting s)
    else none

/-! ## What the manager is for -/

/-- The context that the table has for a descriptor. -/
def State.stored (s : State) (fd : Nat) : Option Nat := s.datas[fd]?.join

/-- Those who create the context of a descriptor get one and the same; what has been returned is
what the table has, and it has everything that was set. -/
structure Unique (s : State) : Prop where
  fault : s.fault = false
  created : ∀ got ∈ s.returned, got.autoCreate = true → got.ctx ≠ none
  same : ∀ got ∈ s.returned, ∀ got' ∈ s.returned, got.autoCreate = true → got'.autoCreate = true →
    got.fd = got'.fd → got.ctx = got'.ctx
  stays : ∀ got ∈ s.returned, ∀ ctx, got.ctx = some ctx → s.stored got.fd = some ctx
  settings : ∀ fd ctx, s.stored fd = some ctx →
    ∃ stat, s.objects ctx = (s.settings fd).foldl Setting.apply (.ofStat stat)

/-- The thread that creates a context finds none in its place, and the table no larger than it
will be. -/
def createsOnce (s : State) : Label → Bool
  | .create t _ =>
    match s.creating t with
    | some fd => (s.stored fd).isNone &&
      (decide (fd < toInt s.datas.length) || decide (s.datas.length ≤ grownSize fd))
    | none => true
  | _ => true

/-- While no context is made twice and the table only grows, every context has one place, and it
has been returned to the one that made it. -/
structure Sound (s : State) : Prop where
  fault : s.fault = false
  large : 64 ≤ s.datas.length
  made : ∀ fd ctx, s.stored fd = some ctx → ctx < s.made
  apart : ∀ fd fd' ctx, s.stored fd = some ctx → s.stored fd' = some ctx → fd = fd'
  returned : ∀ got ∈ s.returned, ∀ ctx, got.ctx = some ctx → s.stored got.fd = some ctx
  created : ∀ got ∈ s.returned, got.autoCreate = true → got.ctx ≠ none
  known : ∀ fd ctx, s.stored fd = some ctx → ⟨fd, true, some ctx⟩ ∈ s.returned
  settings : ∀ fd ctx, s.stored fd = some ctx →
    ∃ stat, s.objects ctx = (s.settings fd).foldl Setting.apply (.ofStat stat)
  unset : ∀ fd, s.stored fd = none → s.settings fd = []

theorem sound_new : Sound State.new := by
  have nothing : ∀ fd, State.new.stored fd = none := by
    intro fd
    simp only [State.stored, State.new, List.getElem?_replicate]
    split <;> rfl
  refine ⟨rfl, by decide, ?_, ?_, by simp [State.new], by simp [State.new], ?_, ?_, fun _ _ => rfl⟩
  · intro fd ctx is
    rw [nothing] at is
    cases is
  · intro fd fd' ctx is
    rw [nothing] at is
    cases is
  · intro fd ctx is
    rw [nothing] at is
    cases is
  · intro fd ctx is
    rw [nothing] at is
    cases is

theorem Sound.unique {s : State} (sound : Sound s) : Unique s := by
  refine ⟨sound.fault, sound.created, ?_, sound.returned, sound.settings⟩
  intro got member got' member' auto auto' same
  obtain ⟨ctx, is⟩ := Option.ne_none_iff_exists'.mp (sound.created got member auto)
  obtain ⟨ctx', is'⟩ := Option.ne_none_iff_exists'.mp (sound.created got' member' auto')
  have here := sound.returned got member ctx is
  rw [same, sound.returned got' member' ctx' is'] at here
  rw [is, is', here]

/-! ## Steps -/

section Steps

variable {s s' : State} {t fd : Nat}

/-- What a step keeps of the table. -/
structure Keeps (s s' : State) : Prop where
  sound : Sound s'
  length : s.datas.length ≤ s'.datas.length

/-- Something is returned that the table has, or nothing to one that does not create. -/
theorem Sound.return (sound : Sound s) {autoCreate : Bool} {ctx : Option Nat}
    (stored : ∀ c, ctx = some c → s.stored fd = some c)
    (created : autoCreate = true → ctx ≠ none) : Sound (s.return ⟨fd, autoCreate, ctx⟩) := by
  refine ⟨sound.fault, sound.large, sound.made, sound.apart, ?_, ?_, ?_, sound.settings,
    sound.unset⟩
  · intro got member c is
    rcases List.mem_append.mp member with member | member
    · exact sound.returned got member c is
    · obtain rfl := List.mem_singleton.mp member
      exact stored c is
  · intro got member auto
    rcases List.mem_append.mp member with member | member
    · exact sound.created got member auto
    · obtain rfl := List.mem_singleton.mp member
      exact created auto
  · intro fd' c is
    exact List.mem_append_left _ (sound.known fd' c is)

theorem Sound.creating (sound : Sound s) (creating : Nat → Option Nat) :
    Sound { s with creating := creating } :=
  ⟨sound.fault, sound.large, sound.made, sound.apart, sound.returned, sound.created, sound.known,
    sound.settings, sound.unset⟩

theorem keeps_lookup (sound : Sound s) (autoCreate : Bool) : Keeps s (lookup t fd autoCreate s) := by
  unfold lookup
  split
  next outside =>
    split
    next => exact ⟨sound.creating _, Nat.le_refl _⟩
    next no => exact ⟨sound.return (by simp) (fun auto => absurd auto no), Nat.le_refl _⟩
  next inside =>
    have small : fd < s.datas.length := by
      have := toInt_le s.datas.length
      omega
    rw [List.getElem?_eq_getElem small]
    dsimp only
    split
    next found =>
      refine ⟨sound.return (fun c is => ?_) fun auto none => ?_, Nat.le_refl _⟩
      · rw [State.stored, List.getElem?_eq_getElem small, is]
        rfl
      · rw [none, auto] at found
        exact Bool.false_ne_true found
    next => exact ⟨sound.creating _, Nat.le_refl _⟩

/-- A setting goes to the context that the table has. -/
theorem keeps_set (sound : Sound s) {ctx : Nat} (setting : Setting) (got : s.stored fd = some ctx) :
    Keeps s (set fd ctx setting s) := by
  refine ⟨⟨sound.fault, sound.large, sound.made, sound.apart, sound.returned, sound.created,
    sound.known, ?_, ?_⟩, Nat.le_refl _⟩
  · intro fd' c is
    obtain ⟨stat, has⟩ := sound.settings fd' c is
    refine ⟨stat, ?_⟩
    by_cases same : fd' = fd
    · subst same
      obtain rfl := Option.some.inj (got.symm.trans is)
      simp only [set, Function.update_self, List.foldl_append, List.foldl_cons, List.foldl_nil]
      rw [has]
    · have other : c ≠ ctx := fun eq => same (sound.apart fd' fd ctx (eq ▸ is) got)
      simp only [set, Function.update_of_ne same, Function.update_of_ne other]
      exact has
  · intro fd' none
    have other : fd' ≠ fd := by
      rintro rfl
      exact absurd (got.symm.trans none) (by simp)
    simp only [set, Function.update_of_ne other]
    exact sound.unset fd' none

/-- The table that a new context is put into has new places behind the old ones only. -/
theorem enlarged_eq (large : 64 ≤ s.datas.length)
    (grows : (fd : Int) < toInt s.datas.length ∨ s.datas.length ≤ grownSize fd) :
    fd < (s.enlarged fd).length ∧ ∃ n, s.enlarged fd = s.datas ++ List.replicate n none := by
  have bound := toInt_le s.datas.length
  unfold State.enlarged
  split
  next outside =>
    have more := grows.resolve_left (Int.not_lt.mpr outside)
    rw [resize, List.take_of_length_le more]
    refine ⟨?_, _, rfl⟩
    rw [List.length_append, List.length_replicate]
    unfold grownSize at *
    omega
  next inside => exact ⟨by omega, 0, by simp⟩

theorem stored_append (datas : List (Option Nat)) (n fd : Nat) :
    (datas ++ List.replicate n none)[fd]?.join = datas[fd]?.join := by
  rcases Nat.lt_or_ge fd datas.length with inside | outside
  · rw [List.getElem?_append_left inside]
  · rw [List.getElem?_append_right outside, List.getElem?_replicate,
      List.getElem?_eq_none outside]
    split <;> rfl

/-- A creation within the table that it makes. -/
theorem create_eq (stat : Option Bool) (inside : fd < (s.enlarged fd).length) :
    create t fd stat s =
      { s with
        objects := Function.update s.objects s.made (.ofStat stat)
        made := s.made + 1
        creating := Function.update s.creating t none
        datas := (s.enlarged fd).set fd (some s.made)
        returned := s.returned ++ [⟨fd, true, some s.made⟩] } := by
  simp only [create, if_pos inside, State.return]

/-- What the creation of a context leaves behind. -/
structure Created (fd : Nat) (stat : Option Bool) (s s' : State) : Prop where
  fault : s'.fault = s.fault
  length : s.datas.length ≤ s'.datas.length
  stored : s'.stored = Function.update s.stored fd (some s.made)
  objects : s'.objects = Function.update s.objects s.made (.ofStat stat)
  made : s'.made = s.made + 1
  returned : s'.returned = s.returned ++ [⟨fd, true, some s.made⟩]
  settings : s'.settings = s.settings

theorem created_create (sound : Sound s) (stat : Option Bool)
    (grows : (fd : Int) < toInt s.datas.length ∨ s.datas.length ≤ grownSize fd) :
    Created fd stat s (create t fd stat s) := by
  obtain ⟨inside, n, enlarged⟩ := enlarged_eq sound.large grows
  rw [create_eq stat inside]
  refine ⟨rfl, ?_, ?_, rfl, rfl, rfl, rfl⟩
  · rw [List.length_set, enlarged, List.length_append]
    exact Nat.le_add_right _ _
  · funext fd'
    by_cases same : fd' = fd
    · subst same
      rw [State.stored, Function.update_self, List.getElem?_set_self inside, Option.join_some]
    · rw [State.stored, Function.update_of_ne same, List.getElem?_set_ne (Ne.symm same), enlarged,
        stored_append, State.stored]

/-- Where the contexts are after a creation. -/
theorem Created.cases {stat : Option Bool} (created : Created fd stat s s') {fd' ctx : Nat}
    (is : s'.stored fd' = some ctx) :
    fd' = fd ∧ ctx = s.made ∨ fd' ≠ fd ∧ s.stored fd' = some ctx := by
  rw [created.stored] at is
  by_cases same : fd' = fd
  · subst same
    rw [Function.update_self] at is
    exact .inl ⟨rfl, (Option.some.inj is).symm⟩
  · rw [Function.update_of_ne same] at is
    exact .inr ⟨same, is⟩

/-- The first creation for a descriptor. -/
theorem Created.sound {stat : Option Bool} (created : Created fd stat s s') (sound : Sound s)
    (empty : s.stored fd = none) : Sound s' := by
  have at_fd : s'.stored fd = some s.made := by rw [created.stored, Function.update_self]
  have others : ∀ fd', fd' ≠ fd → s'.stored fd' = s.stored fd' := by
    intro fd' ne
    rw [created.stored, Function.update_of_ne ne]
  refine ⟨created.fault.trans sound.fault, Nat.le_trans sound.large created.length, ?_, ?_, ?_, ?_,
    ?_, ?_, ?_⟩
  · intro fd' ctx is
    rw [created.made]
    rcases created.cases is with ⟨-, rfl⟩ | ⟨-, old⟩
    · exact Nat.lt_succ_self _
    · exact Nat.lt_succ_of_lt (sound.made fd' ctx old)
  · intro fd₁ fd₂ ctx is is'
    rcases created.cases is with ⟨rfl, new⟩ | ⟨-, old⟩
    · rcases created.cases is' with ⟨rfl, -⟩ | ⟨-, old'⟩
      · rfl
      · exact absurd (sound.made fd₂ ctx old') (new ▸ Nat.lt_irrefl _)
    · rcases created.cases is' with ⟨-, new'⟩ | ⟨-, old'⟩
      · exact absurd (sound.made fd₁ ctx old) (new' ▸ Nat.lt_irrefl _)
      · exact sound.apart fd₁ fd₂ ctx old old'
  · intro got member ctx is
    rw [created.returned] at member
    rcases List.mem_append.mp member with member | member
    · have old := sound.returned got member ctx is
      have other : got.fd ≠ fd := fun same => absurd (same ▸ old) (by rw [empty]; simp)
      exact (others got.fd other).trans old
    · obtain rfl := List.mem_singleton.mp member
      exact is ▸ at_fd
  · intro got member auto
    rw [created.returned] at member
    rcases List.mem_append.mp member with member | member
    · exact sound.created got member auto
    · obtain rfl := List.mem_singleton.mp member
      exact Option.some_ne_none _
  · intro fd' ctx is
    rw [created.returned]
    rcases created.cases is with ⟨rfl, rfl⟩ | ⟨-, old⟩
    · exact List.mem_append_right _ (List.mem_singleton_self _)
    · exact List.mem_append_left _ (sound.known fd' ctx old)
  · intro fd' ctx is
    rw [created.objects, created.settings]
    rcases created.cases is with ⟨rfl, rfl⟩ | ⟨-, old⟩
    · rw [sound.unset fd' empty, Function.update_self]
      exact ⟨stat, rfl⟩
    · obtain ⟨stat', has⟩ := sound.settings fd' ctx old
      rw [Function.update_of_ne (Nat.ne_of_lt (sound.made fd' ctx old))]
      exact ⟨stat', has⟩
  · intro fd' none
    have other : fd' ≠ fd := by
      rintro rfl
      exact absurd (at_fd.symm.trans none) (by simp)
    rw [created.settings]
    exact sound.unset fd' ((others fd' other).symm.trans none)

theorem keeps_step {label : Label} (sound : Sound s) (once : createsOnce s label = true)
    (stepped : step s label = some s') : Keeps s s' := by
  cases label with
  | lookup t fd autoCreate =>
    obtain ⟨-, same⟩ := Option.ite_none_right_eq_some.mp stepped
    exact Option.some.inj same ▸ keeps_lookup sound autoCreate
  | create t stat =>
    obtain ⟨-, mapped⟩ := Option.ite_none_left_eq_some.mp stepped
    obtain ⟨fd, waits, rfl⟩ := Option.map_eq_some_iff.mp mapped
    simp only [createsOnce, waits, Bool.and_eq_true, Option.isNone_iff_eq_none, Bool.or_eq_true,
      decide_eq_true_eq] at once
    have created := created_create (t := t) sound stat once.2
    exact ⟨created.sound sound once.1, created.length⟩
  | set fd ctx setting =>
    obtain ⟨can, same⟩ := Option.ite_none_right_eq_some.mp stepped
    obtain ⟨-, got⟩ := Bool.and_eq_true_iff.mp can
    obtain ⟨got, member, is⟩ := List.any_eq_true.mp got
    simp only [Bool.and_eq_true, beq_iff_eq] at is
    exact Option.some.inj same ▸
      keeps_set sound setting (is.1 ▸ sound.returned got member ctx is.2)

/-- A creation keeps the contexts and the table exactly when it is the first one and enlarges. -/
theorem create_iff {stat : Option Bool} (sound : Sound s) (stepped : step s (.create t stat) = some s') :
    Unique s' ∧ s.datas.length ≤ s'.datas.length ↔ createsOnce s (.create t stat) = true := by
  constructor
  · rintro ⟨unique, longer⟩
    obtain ⟨-, mapped⟩ := Option.ite_none_left_eq_some.mp stepped
    obtain ⟨fd, waits, rfl⟩ := Option.map_eq_some_iff.mp mapped
    have inside : fd < (s.enlarged fd).length := by
      by_contra outside
      have fault := unique.fault
      rw [create, if_neg outside] at fault
      exact Bool.false_ne_true fault.symm
    rw [create_eq stat inside] at unique longer
    dsimp only at longer
    have new : (⟨fd, true, some s.made⟩ : Got) ∈ s.returned ++ [⟨fd, true, some s.made⟩] :=
      List.mem_append_right _ (List.mem_singleton_self _)
    simp only [createsOnce, waits, Bool.and_eq_true, Option.isNone_iff_eq_none, Bool.or_eq_true,
      decide_eq_true_eq]
    constructor
    · -- a context that was there had been returned to the one that made it
      cases stored : s.stored fd with
      | none => rfl
      | some ctx =>
        have old := List.mem_append_left [⟨fd, true, some s.made⟩] (sound.known fd ctx stored)
        have same := unique.same _ old _ new rfl rfl rfl
        have before := sound.made fd ctx stored
        rw [Option.some.inj same] at before
        exact absurd before (Nat.lt_irrefl _)
    · by_contra shrinks
      obtain ⟨outside, fewer⟩ := not_or.mp shrinks
      rw [List.length_set, State.enlarged, if_pos (Int.not_lt.mp outside), resize,
        List.length_append, List.length_take, List.length_replicate] at longer
      omega
  · intro once
    have keeps := keeps_step sound once stepped
    exact ⟨keeps.sound.unique, keeps.length⟩

end Steps

/-- In every run in which each creation finds no context in its place and a table no larger than
it will be: the callers of `Get` share one context for each descriptor, with all that was set,
no index is outside of the table, and the table does not shrink. The next creation keeps that
exactly when it meets the condition. -/
theorem contexts_unique {before after : List Label} {s s' : State}
    (first : Run.Steps step (fun s label => createsOnce s label = true) State.new before s)
    (second : Run.Steps step (fun s label => createsOnce s label = true) s after s') :
    Unique s' ∧ s.datas.length ≤ s'.datas.length ∧
    ∀ t stat s'', step s' (.create t stat) = some s'' →
      (Unique s'' ∧ s'.datas.length ≤ s''.datas.length ↔
        createsOnce s' (.create t stat) = true) := by
  have sound : Sound s := first.invariant
    (fun _ _ _ sound once stepped => (keeps_step sound once stepped).sound) sound_new
  have kept : Keeps s s' := by
    refine second.invariant (P := Keeps s) ?_ ⟨sound, Nat.le_refl _⟩
    intro mid label next keeps once stepped
    have later := keeps_step keeps.sound once stepped
    exact ⟨later.sound, Nat.le_trans keeps.length later.length⟩
  exact ⟨kept.sound.unique, kept.length, fun t stat s'' stepped => create_iff kept.sound stepped⟩

/-- Two threads ask for descriptor 100, one after the other, and one of them sets a timeout. -/
theorem contexts_unique_in_order :
    ∃ s s', Run.Steps step (fun s label => createsOnce s label = true) State.new
        [.lookup 0 100 true, .create 0 (some true)] s ∧
      Run.Steps step (fun s label => createsOnce s label = true) s
        [.lookup 1 100 true, .set 100 0 (.timeout soRcvtimeo 5000)] s' ∧
      Unique s' ∧ s.datas.length ≤ s'.datas.length := by
  obtain ⟨s, first⟩ := Run.Steps.of_admissible step (fun s label => createsOnce s label = true)
    State.new [.lookup 0 100 true, .create 0 (some true)] (by decide)
  have continues : (Run.run step State.new [.lookup 0 100 true, .create 0 (some true)]).all
      (Run.admissible step (fun s label => createsOnce s label = true) ·
        [.lookup 1 100 true, .set 100 0 (.timeout soRcvtimeo 5000)]) = true := by decide
  rw [first.run, Option.all_some] at continues
  obtain ⟨s', second⟩ := Run.Steps.of_admissible step (fun s label => createsOnce s label = true)
    s [.lookup 1 100 true, .set 100 0 (.timeout soRcvtimeo 5000)] continues
  have holds := contexts_unique first second
  exact ⟨s, s', first, second, holds.1, holds.2.1⟩

/-- Two threads find no context for descriptor 5, and both make one: the timeout that was set
through the first is lost. -/
theorem second_creator_replaces :
    ∃ s, Run.run step State.new
        [.lookup 0 5 true, .lookup 1 5 true, .create 0 (some true),
          .set 5 0 (.timeout soRcvtimeo 5000), .create 1 (some true)] = some s ∧
      s.returned = [⟨5, true, some 0⟩, ⟨5, true, some 1⟩] ∧ s.stored 5 = some 1 ∧
      (s.objects 0).recvTimeout = 5000 ∧ (s.objects 1).recvTimeout = -1 ∧ ¬ Unique s := by
  have runs : (Run.run step State.new [.lookup 0 5 true, .lookup 1 5 true, .create 0 (some true),
      .set 5 0 (.timeout soRcvtimeo 5000), .create 1 (some true)]).isSome = true := by decide
  obtain ⟨s, ran⟩ := Option.isSome_iff_exists.mp runs
  have ends : (Run.run step State.new [.lookup 0 5 true, .lookup 1 5 true, .create 0 (some true),
      .set 5 0 (.timeout soRcvtimeo 5000), .create 1 (some true)]).map (fun s =>
        (s.returned, s.stored 5, (s.objects 0).recvTimeout, (s.objects 1).recvTimeout)) =
      some ([⟨5, true, some 0⟩, ⟨5, true, some 1⟩], some 1, 5000, -1) := by decide
  rw [ran, Option.map_some, Option.some.injEq, Prod.mk.injEq, Prod.mk.injEq, Prod.mk.injEq] at ends
  obtain ⟨returned, stored, first, second⟩ := ends
  refine ⟨s, ran, returned, stored, first, second, fun unique => ?_⟩
  have same := unique.same ⟨5, true, some 0⟩ (by simp [returned]) ⟨5, true, some 1⟩
    (by simp [returned]) rfl rfl rfl
  cases same

end Contexts
end ServerFrame.Hook
