import ServerFrame.IOManager.Events
import ServerFrame.Lib.Run
import Mathlib.Algebra.Ring.Int.Defs

/-!
# The context table under concurrent calls

`fd_contexts_` is a vector of pointers. `AddEvent` tests its size under the read lock
and, when the descriptor is outside, enlarges it under the write lock; between the two
other threads may enlarge it as well. The size that is tested is cast to `int`. What is
done with a context under its own lock is `Events`; here only its `events_` is kept, to
tell which contexts have something registered.
-/
namespace ServerFrame.IOManager.Growth

/-- `static_cast<int>(size)`. -/
def toInt (size : Nat) : Int := (((size + 2 ^ 31) % 2 ^ 32 : Nat) : Int) - 2 ^ 31

/-- The argument `fd * 1.5` of `ContextResize`. -/
def grownSize (fd : Nat) : Nat := fd * 3 / 2

/-- Where a thread stands. -/
inductive Pc where
  | idle
  /-- `AddEvent`: the test failed, and the read lock is released. -/
  | grow (fd : Nat) (event : Event)
  /-- `AddEvent` has its context. -/
  | found (ctx : Nat) (event : Event)
  /-- `DelEvent` or `CancelEvent` has its context. -/
  | remove (ctx : Nat) (event : Event)
  deriving DecidableEq

/-- `table` holds the contexts as numbers, `objects` the contexts that were made. -/
structure State where
  table : List Nat
  objects : Nat → FdContext
  made : Nat
  pc : Nat → Pc
  /-- An index outside of `fd_contexts_` was used. -/
  fault : Bool

/-- `ContextResize`: every new place gets a new context. -/
def contextResize (size : Nat) (s : State) : State :=
  { s with
    table := s.table.take size ++ (List.range (size - s.table.length)).map (s.made + ·)
    objects := fun c =>
      if s.made ≤ c ∧ c < s.made + (size - s.table.length)
      then .new (s.table.length + (c - s.made)) else s.objects c
    made := s.made + (size - s.table.length) }

def State.new : State := contextResize 32
  { table := [], objects := fun _ => .new 0, made := 0, pc := fun _ => .idle, fault := false }

def State.goto (s : State) (t : Nat) (pc : Pc) : State :=
  { s with pc := Function.update s.pc t pc }

/-- Assigns `events_` of a context. -/
def State.setEvents (s : State) (ctx : Nat) (events : Events) : State :=
  { s with objects := Function.update s.objects ctx { s.objects ctx with events := events } }

/-- `fd_contexts_[fd]`. -/
def State.index (s : State) (t fd : Nat) (next : Nat → Pc) : State :=
  match s.table[fd]? with
  | some ctx => s.goto t (next ctx)
  | none => { s with fault := true }

/-- The context that `DelEvent` and `CancelEvent` find. -/
def State.lookup (s : State) (fd : Nat) : Option Nat :=
  if toInt s.table.length ≤ fd then none else s.table[fd]?

inductive Label where
  /-- `AddEvent`, under the read lock. -/
  | test (t fd : Nat) (event : Event)
  /-- `AddEvent`, under the write lock. -/
  | grow (t : Nat)
  /-- `AddEvent`, under the lock of the context. -/
  | register (t : Nat) (ok : Bool)
  /-- `DelEvent` or `CancelEvent`, under the read lock. -/
  | find (t fd : Nat) (event : Event)
  /-- `DelEvent` or `CancelEvent`, under the lock of the context. -/
  | remove (t : Nat) (ok : Bool)
  deriving DecidableEq

/-- `ok` is what the kernel says to `epoll_ctl`; a descriptor is an `int`. -/
def step (s : State) : Label → Option State
  | .test t fd event =>
    if s.fault = false ∧ s.pc t = .idle ∧ fd < 2 ^ 31 then
      if toInt s.table.length > fd then some (s.index t fd (.found · event))
      else some (s.goto t (.grow fd event))
    else none
  | .grow t =>
    match s.fault, s.pc t with
    | false, .grow fd event => some ((contextResize (grownSize fd) s).index t fd (.found · event))
    | _, _ => none
  | .register t ok =>
    match s.fault, s.pc t with
    | false, .found ctx event =>
      if ok then some ((s.setEvents ctx ((s.objects ctx).events.add event)).goto t .idle)
      else some (s.goto t .idle)
    | _, _ => none
  | .find t fd event =>
    if s.fault = false ∧ s.pc t = .idle ∧ fd < 2 ^ 31 then
      if toInt s.table.length ≤ fd then some s
      else some (s.index t fd (.remove · event))
    else none
  | .remove t ok =>
    match s.fault, s.pc t with
    | false, .remove ctx event =>
      if ok then some ((s.setEvents ctx ((s.objects ctx).events.remove event)).goto t .idle)
      else some (s.goto t .idle)
    | _, _ => none

/-- A thread that enlarges the table for `fd` finds it no larger than it will be, and the
new size is an `int`. -/
def enlarges (s : State) : Label → Bool
  | .grow t =>
    match s.pc t with
    | .grow fd _ => decide (s.table.length ≤ grownSize fd) && decide (grownSize fd < 2 ^ 31)
    | _ => true
  | _ => true

theorem toInt_of_lt {size : Nat} (small : size < 2 ^ 31) : toInt size = size := by
  simp only [toInt]
  omega

theorem toInt_of_large {size : Nat} (large : 2 ^ 31 ≤ size) (bounded : size < 2 ^ 32) :
    toInt size < 0 := by
  simp only [toInt]
  omega

theorem toInt_le (size : Nat) : toInt size ≤ size := by
  unfold toInt
  omega

/-! ## Enlarging keeps what is there -/

theorem table_contextResize {size : Nat} {s : State} (larger : s.table.length ≤ size) :
    s.table <+: (contextResize size s).table := by
  rw [contextResize, List.take_of_length_le larger]
  exact List.prefix_append _ _

theorem length_contextResize (size : Nat) (s : State) :
    (contextResize size s).table.length = size := by
  simp only [contextResize, List.length_append, List.length_take, List.length_map,
    List.length_range]
  omega

/-- While the table is only enlarged it holds the contexts in the order in which they were
made. -/
structure Sound (s : State) : Prop where
  fault : s.fault = false
  large : 32 ≤ s.made
  small : s.made < 2 ^ 31
  table : s.table = List.range s.made
  fd : ∀ c, c < s.made → (s.objects c).fd = c
  unused : ∀ c, s.made ≤ c → (s.objects c).events = .none
  grow : ∀ t fd event, s.pc t = .grow fd event → 32 ≤ fd ∧ fd < 2 ^ 31
  found : ∀ t ctx event, s.pc t = .found ctx event → ctx < s.made
  remove : ∀ t ctx event, s.pc t = .remove ctx event → ctx < s.made

namespace Sound

variable {s : State} {t : Nat}

theorem length (sound : Sound s) : s.table.length = s.made := by
  rw [sound.table, List.length_range]

theorem toInt_length (sound : Sound s) : toInt s.table.length = s.made := by
  rw [sound.length, toInt_of_lt sound.small]

theorem get (sound : Sound s) {fd : Nat} (inside : fd < s.made) : s.table[fd]? = some fd := by
  rw [sound.table, List.getElem?_range inside]

theorem lookup (sound : Sound s) {fd : Nat} (inside : fd < s.made) : s.lookup fd = some fd := by
  have not_outside : ¬ (s.made : Int) ≤ fd := by omega
  rw [State.lookup, sound.toInt_length, if_neg not_outside, sound.get inside]

/-- A thread moves on to a place that is in order. -/
theorem goto (sound : Sound s) {pc : Pc}
    (grow : ∀ fd event, pc = .grow fd event → 32 ≤ fd ∧ fd < 2 ^ 31)
    (found : ∀ ctx event, pc = .found ctx event → ctx < s.made)
    (remove : ∀ ctx event, pc = .remove ctx event → ctx < s.made) : Sound (s.goto t pc) := by
  have cases_pc : ∀ t', (s.goto t pc).pc t' = pc ∨ (s.goto t pc).pc t' = s.pc t' := by
    intro t'
    by_cases same : t' = t
    · exact .inl (by simp [State.goto, same])
    · exact .inr (by simp [State.goto, same])
  refine ⟨sound.fault, sound.large, sound.small, sound.table, sound.fd, sound.unused,
    fun t' fd event is => ?_, fun t' ctx event is => ?_, fun t' ctx event is => ?_⟩
  · rcases cases_pc t' with here | there
    · exact grow fd event (here ▸ is)
    · exact sound.grow t' fd event (there ▸ is)
  · rcases cases_pc t' with here | there
    · exact found ctx event (here ▸ is)
    · exact sound.found t' ctx event (there ▸ is)
  · rcases cases_pc t' with here | there
    · exact remove ctx event (here ▸ is)
    · exact sound.remove t' ctx event (there ▸ is)

theorem idle (sound : Sound s) : Sound (s.goto t .idle) :=
  sound.goto (by simp) (by simp) (by simp)

theorem setEvents (sound : Sound s) {ctx : Nat} (made : ctx < s.made) (events : Events) :
    Sound (s.setEvents ctx events) := by
  refine ⟨sound.fault, sound.large, sound.small, sound.table, fun c inside => ?_,
    fun c outside => ?_, sound.grow, sound.found, sound.remove⟩
  · by_cases same : c = ctx
    · subst same
      simpa [State.setEvents] using sound.fd c inside
    · simpa [State.setEvents, same] using sound.fd c inside
  · have ne : c ≠ ctx := by
      rintro rfl
      exact Nat.not_lt.mpr outside made
    simpa [State.setEvents, ne] using sound.unused c outside

theorem contextResize (sound : Sound s) {size : Nat} (larger : s.made ≤ size)
    (small : size < 2 ^ 31) : Sound (contextResize size s) ∧ (contextResize size s).made = size := by
  have length := sound.length
  have made : (Growth.contextResize size s).made = size := by
    simp only [Growth.contextResize, length]
    omega
  have more : s.made ≤ (Growth.contextResize size s).made := by rw [made]; exact larger
  refine ⟨⟨sound.fault, ?_, ?_, ?_, fun c inside => ?_, fun c outside => ?_, sound.grow,
    fun t ctx event is => ?_, fun t ctx event is => ?_⟩, made⟩
  · exact Nat.le_trans sound.large more
  · rw [made]
    exact small
  · rw [made, Growth.contextResize, List.take_of_length_le (by omega), length, sound.table]
    have whole : size = s.made + (size - s.made) := by omega
    conv_rhs => rw [whole, List.range_add]
  · rw [made] at inside
    simp only [Growth.contextResize, length]
    split
    · simp only [FdContext.new]
      omega
    · exact sound.fd c (by omega)
  · rw [made] at outside
    simp only [Growth.contextResize, length]
    split
    · rfl
    · exact sound.unused c (by omega)
  · exact Nat.lt_of_lt_of_le (sound.found t ctx event is) more
  · exact Nat.lt_of_lt_of_le (sound.remove t ctx event is) more

end Sound

theorem sound_new : Sound State.new := by
  refine ⟨rfl, by decide, by decide, by decide, by decide, fun c _ => ?_, ?_, ?_, ?_⟩
  · simp only [State.new, contextResize]
    split <;> rfl
  all_goals
    intro t _ _ is
    cases is

/-! ## Steps and runs -/

section Steps

variable {s s' : State} {t fd : Nat} {event : Event}

/-- What a step keeps of the table. -/
structure Keeps (s s' : State) : Prop where
  sound : Sound s'
  table : s.table <+: s'.table

theorem index_inside {next : Nat → Pc} (sound : Sound s) (inside : fd < s.made) :
    s.index t fd next = s.goto t (next fd) := by
  rw [State.index, sound.get inside]

theorem keeps_test (sound : Sound s) (int : fd < 2 ^ 31)
    (stepped : (if toInt s.table.length > fd then some (s.index t fd (.found · event))
      else some (s.goto t (.grow fd event))) = some s') : Keeps s s' := by
  rw [sound.toInt_length] at stepped
  split at stepped
  next inside =>
    have inside : fd < s.made := by omega
    rw [index_inside sound inside] at stepped
    obtain rfl := Option.some.inj stepped
    refine ⟨sound.goto (by simp) ?_ (by simp), List.prefix_rfl⟩
    intro ctx event' is
    exact (Pc.found.inj is).1 ▸ inside
  next outside =>
    obtain rfl := Option.some.inj stepped
    refine ⟨sound.goto ?_ (by simp) (by simp), List.prefix_rfl⟩
    intro fd' event' is
    have large := sound.large
    rw [← (Pc.grow.inj is).1]
    omega

theorem keeps_find (sound : Sound s)
    (stepped : (if toInt s.table.length ≤ fd then some s
      else some (s.index t fd (.remove · event))) = some s') : Keeps s s' := by
  rw [sound.toInt_length] at stepped
  split at stepped
  next => exact Option.some.inj stepped ▸ ⟨sound, List.prefix_rfl⟩
  next inside =>
    have inside : fd < s.made := by omega
    rw [index_inside sound inside] at stepped
    obtain rfl := Option.some.inj stepped
    refine ⟨sound.goto (by simp) (by simp) ?_, List.prefix_rfl⟩
    intro ctx event' is
    exact (Pc.remove.inj is).1 ▸ inside

/-- A growth step that finds the table no larger than it will be. -/
theorem grow_enlarges (sound : Sound s) (waits : s.pc t = .grow fd event)
    (larger : s.table.length ≤ grownSize fd) (small : grownSize fd < 2 ^ 31) :
    Keeps s ((contextResize (grownSize fd) s).index t fd (.found · event)) := by
  obtain ⟨sound', made⟩ := sound.contextResize (sound.length ▸ larger) small
  have inside : fd < (contextResize (grownSize fd) s).made := by
    have := (sound.grow t fd event waits).1
    rw [made, grownSize]
    omega
  rw [index_inside sound' inside]
  refine ⟨sound'.goto (by simp) ?_ (by simp), table_contextResize larger⟩
  intro ctx event' is
  exact (Pc.found.inj is).1 ▸ inside

theorem keeps_step {label : Label} (sound : Sound s) (enlarged : enlarges s label = true)
    (stepped : step s label = some s') : Keeps s s' := by
  cases label with
  | test t fd event =>
    simp only [step] at stepped
    split at stepped
    next can => exact keeps_test sound can.2.2 stepped
    next => cases stepped
  | grow t =>
    simp only [step] at stepped
    split at stepped
    next fd event _ waits =>
      -- the only step that can shorten the table
      simp only [enlarges, waits, Bool.and_eq_true, decide_eq_true_eq] at enlarged
      exact Option.some.inj stepped ▸ grow_enlarges sound waits enlarged.1 enlarged.2
    next => cases stepped
  | register t ok =>
    simp only [step] at stepped
    split at stepped
    next ctx event _ holds =>
      have made := sound.found t ctx event holds
      split at stepped
      next => exact Option.some.inj stepped ▸ ⟨(sound.setEvents made _).idle, List.prefix_rfl⟩
      next => exact Option.some.inj stepped ▸ ⟨sound.idle, List.prefix_rfl⟩
    next => cases stepped
  | find t fd event =>
    simp only [step] at stepped
    split at stepped
    next => exact keeps_find sound stepped
    next => cases stepped
  | remove t ok =>
    simp only [step] at stepped
    split at stepped
    next ctx event _ holds =>
      have made := sound.remove t ctx event holds
      split at stepped
      next => exact Option.some.inj stepped ▸ ⟨(sound.setEvents made _).idle, List.prefix_rfl⟩
      next => exact Option.some.inj stepped ▸ ⟨sound.idle, List.prefix_rfl⟩
    next => cases stepped

/-- A growth step keeps the table and makes its descriptor known exactly when it finds
the table no larger than it will be and the new size is an `int`. -/
theorem grow_iff (sound : Sound s) (waits : s.pc t = .grow fd event)
    (stepped : step s (.grow t) = some s') :
    s.table <+: s'.table ∧ s'.lookup fd ≠ none ↔ enlarges s (.grow t) = true := by
  have bounds := sound.grow t fd event waits
  simp only [step, sound.fault, waits, Option.some.injEq] at stepped
  simp only [enlarges, waits, Bool.and_eq_true, decide_eq_true_eq]
  constructor
  · rintro ⟨kept, known⟩
    have inside : fd < (contextResize (grownSize fd) s).table.length := by
      rw [length_contextResize, grownSize]
      omega
    have table : s'.table = (contextResize (grownSize fd) s).table := by
      rw [← stepped, State.index, List.getElem?_eq_getElem inside]
      rfl
    have length : s'.table.length = grownSize fd := by rw [table, length_contextResize]
    refine ⟨length ▸ kept.length_le, ?_⟩
    by_contra large
    -- a size from 2^31 on is negative as an `int`, and every look-up fails
    have negative : toInt (grownSize fd) < 0 := by
      apply toInt_of_large (by omega)
      rw [grownSize]
      omega
    apply known
    rw [State.lookup, length, if_pos (by omega)]
  · rintro ⟨larger, small⟩
    have keeps := grow_enlarges sound waits larger small
    rw [stepped] at keeps
    refine ⟨keeps.table, ?_⟩
    have made : grownSize fd = s'.made := by
      rw [← keeps.sound.length, ← stepped, State.index]
      split
      · exact (length_contextResize _ s).symm
      · exact (length_contextResize _ s).symm
    have inside : fd < s'.made := by
      rw [← made, grownSize]
      omega
    rw [keeps.sound.lookup inside]
    simp

end Steps

/-- In every run whose growth steps find the table no larger than they make it, the table
only grows and keeps its contexts, no index is outside of it, and a context with
registered events is the one found under its descriptor. A growth step that comes next
keeps the table and finds its descriptor exactly when it meets the condition, too. -/
theorem table_only_grows {before after : List Label} {s s' : State}
    (first : Run.Steps step (fun s label => enlarges s label = true) State.new before s)
    (second : Run.Steps step (fun s label => enlarges s label = true) s after s') :
    s'.fault = false ∧ s.table <+: s'.table ∧
    (∀ ctx, (s'.objects ctx).events ≠ .none → s'.lookup (s'.objects ctx).fd = some ctx) ∧
    ∀ t fd event s'', s'.pc t = .grow fd event → step s' (.grow t) = some s'' →
      (s'.table <+: s''.table ∧ s''.lookup fd ≠ none ↔ enlarges s' (.grow t) = true) := by
  have sound : Sound s := first.invariant
    (fun _ _ _ sound enlarged stepped => (keeps_step sound enlarged stepped).sound) sound_new
  have kept : Keeps s s' := by
    refine second.invariant (P := Keeps s) ?_ ⟨sound, List.prefix_rfl⟩
    intro mid label next keeps enlarged stepped
    have later := keeps_step keeps.sound enlarged stepped
    exact ⟨later.sound, keeps.table.trans later.table⟩
  have sound' := kept.sound
  refine ⟨sound'.fault, kept.table, fun ctx registered => ?_,
    fun t fd event s'' waits stepped => grow_iff sound' waits stepped⟩
  have inside : ctx < s'.made := by
    by_contra outside
    exact registered (sound'.unused ctx (Nat.not_lt.mp outside))
  rw [sound'.fd ctx inside, sound'.lookup inside]

/-- Two threads find the table too small and enlarge it, the larger one last. -/
theorem table_only_grows_in_order :
    ∃ s s', Run.Steps step (fun s label => enlarges s label = true) State.new
        [.test 0 40 .read, .test 1 100 .write, .grow 0, .register 0 true] s ∧
      Run.Steps step (fun s label => enlarges s label = true) s [.grow 1, .register 1 true] s' ∧
      s'.fault = false ∧ s.table <+: s'.table := by
  obtain ⟨s, first⟩ := Run.Steps.of_admissible step (fun s label => enlarges s label = true)
    State.new [.test 0 40 .read, .test 1 100 .write, .grow 0, .register 0 true]
    (by decide)
  have continues : (Run.run step State.new [.test 0 40 .read, .test 1 100 .write, .grow 0,
      .register 0 true]).all (Run.admissible step (fun s label => enlarges s label = true) ·
        [.grow 1, .register 1 true]) = true := by decide
  rw [first.run, Option.all_some] at continues
  obtain ⟨s', second⟩ := Run.Steps.of_admissible step (fun s label => enlarges s label = true)
    s [.grow 1, .register 1 true] continues
  have holds := table_only_grows first second
  exact ⟨s, s', first, second, holds.1, holds.2.1⟩

/-- Two threads find the table too small and enlarge it, the larger one first: the second
growth step drops the context of descriptor 100, with the event registered on it. -/
theorem table_shrinks :
    let labels : List Label :=
      [.test 0 100 .read, .test 1 40 .read, .grow 0, .register 0 true]
    ((Run.run step State.new labels).map fun s =>
      (s.table.length, s.lookup 100, (s.objects 100).events)) =
        some (150, some 100, ⟨true, false⟩) ∧
    ((Run.run step State.new (labels ++ [.grow 1])).map fun s =>
      (s.table.length, s.lookup 100, (s.objects 100).events)) =
        some (60, none, ⟨true, false⟩) := by
  decide +kernel

end ServerFrame.IOManager.Growth
