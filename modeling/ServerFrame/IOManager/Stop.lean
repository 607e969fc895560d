import ServerFrame.Scheduler.Queue
import ServerFrame.Timer.Lifetime

/-!
# `Stop` of an `IOManager`

A worker leaves `Run` after its idle fiber has found `IOManager::Stopping()` true. That
function reads the timer set, then `pending_event_count_`, and then under the lock of the
scheduler its flags, its queue and its count of active threads, and between two of these
reads the other threads go on. Here the scheduler is joined with the timers and with the
registered events, each read is a step of its own, and so are the two halves of
`TriggerEvent` that others can see: the task is scheduled first and counted off later.
Waking up and the time that is spent in `epoll_wait` do not matter and are left out.
-/
namespace ServerFrame.Stop

open Scheduler

/-- Where a thread is outside of what its `Pc` tells. -/
inductive Place where
  /-- In the code of a fiber or of an outsider, in `Run`, or at the head of the loop in `Idle`. -/
  | turn
  /-- In `Stopping`: there was no timer. -/
  | noTimer
  /-- In `Stopping`: there was no registered event either. -/
  | noEvent
  /-- In `Idle`, behind `Stopping`. -/
  | wait
  /-- In `Idle`, with what `ListExpiredCb` has collected. -/
  | expired (cbs : List (Option Nat))
  /-- In `Idle`, in the loop over the records of `epoll_wait`. -/
  | records
  /-- Behind `TriggerEvent` and before `--pending_event_count_`; `idle` tells whether this is
  in the loop over the records. -/
  | triggered (idle : Bool)
  deriving DecidableEq, Repr

/-- Thread `x` is a worker below `scheduler.threads` and some other thread from there on. Worker
0 is the thread that made the scheduler if `use_caller` was given; it enters `Run` in `Stop`,
when `called` is set. `waiting` is what is registered for events. -/
structure State where
  scheduler : Scheduler
  outsiders : Nat
  timers : TimerManager Nat
  waiting : List Work
  pendingEventCount : Nat
  place : Nat → Place
  called : Bool

/-- After `Start`. -/
def start (threads outsiders : Nat) (useCaller : Bool) (now : UInt64) : State where
  scheduler := .start threads
  outsiders := outsiders
  timers := .new now
  waiting := []
  pendingEventCount := 0
  place := fun _ => .turn
  called := !useCaller

namespace State

def threads (s : State) : Nat := s.scheduler.threads

def pc (s : State) (w : Nat) : Pc := (s.scheduler.workers w).pc

def goto (s : State) (x : Nat) (place : Place) : State :=
  { s with place := Function.update s.place x place }

/-- A step of the scheduler. -/
def lift (s : State) (action : Scheduler.Action) : Option State :=
  (s.scheduler.step action).map fun scheduler => { s with scheduler := scheduler }

/-- Thread `x` executes code of a fiber that is no idle fiber, or is no worker. -/
def acts (s : State) (x : Nat) : Bool :=
  s.place x == .turn &&
    if x < s.threads then
      match s.pc x with
      | .running j => !j.isIdle
      | _ => false
    else decide (x < s.threads + s.outsiders)

/-- Worker `w` executes `Idle`. -/
def idles (s : State) (w : Nat) : Bool := decide (w < s.threads) && s.pc w == .running .idle

/-- `Stop` evaluates `Stopping()` on the thread of worker 0 before it enters `Run` there. -/
def stopsRoot (s : State) (w : Nat) : Bool :=
  w == 0 && decide (0 < s.threads) && !s.called && s.scheduler.stopping && s.pc 0 == .top

/-- A read of `Stopping` has found something. -/
def giveUp (s : State) (w : Nat) : State :=
  if s.idles w then s.goto w .wait else { s.goto w .turn with called := true }

/-- `Stopping` is true: `Idle` ends, or `Stop` does not enter `Run`. -/
def leave (s : State) (w : Nat) : State :=
  let pc := if s.idles w then .yieldWrite .idle .term else .exited
  { s.goto w .turn with scheduler := s.scheduler.setPc w pc }

/-- The task of a registered event is scheduled. -/
def trigger (s : State) (x i : Nat) (idle : Bool) : Option State :=
  match s.waiting[i]? with
  | none => none
  | some work =>
    ({ s.goto x (.triggered idle) with waiting := s.waiting.eraseIdx i }).lift
      (.schedule [(some work, -1)])

end State

/-- What any thread may do. -/
inductive Action where
  | worker (w : Nat)
  | fiber (w : Nat) (choice : Choice)
  | makeFiber
  | schedule (x : Nat) (items : List (Option Work × Int))
  | setAutoStop
  | setStopping
  | timer (x : Nat) (call : Timers.Call Nat)
  | addEvent (x : Nat) (work : Work)
  | delEvent (x i : Nat)
  /-- `TriggerEvent`, by `CancelEvent` and `CancelAll` or for a record. -/
  | trigger (x i : Nat)
  | decrement (x : Nat)
  | readTimers (w : Nat) (now : UInt64)
  | readEvents (w : Nat)
  | readQueue (w : Nat)
  | listExpired (w : Nat) (now : UInt64) (addr : Nat)
  | scheduleExpired (w : Nat)
  | giveWay (w : Nat)

open State in
def step (s : State) : Action → Option State
  | .worker w =>
    if s.place w = .turn ∧ (w ≠ 0 ∨ s.called = true) then s.lift (.worker w) else none
  | .fiber w choice => if s.acts w then s.lift (.fiber w choice) else none
  | .makeFiber => s.lift .makeFiber
  | .schedule x items => if s.acts x then s.lift (.schedule items) else none
  | .setAutoStop => s.lift .setAutoStop
  | .setStopping => s.lift .setStopping
  | .timer x call =>
    if s.acts x then
      match Timers.exec call s.timers with
      | .ok _ timers => some { s with timers := timers }
      | .error _ _ => none
    else none
  -- the event is registered and counted under the lock of its descriptor
  | .addEvent x work =>
    if s.acts x then
      some { s with waiting := s.waiting ++ [work], pendingEventCount := s.pendingEventCount + 1 }
    else none
  | .delEvent x i =>
    if s.acts x ∧ i < s.waiting.length then
      some { s with waiting := s.waiting.eraseIdx i, pendingEventCount := s.pendingEventCount - 1 }
    else none
  | .trigger x i =>
    if s.acts x then s.trigger x i false
    else if s.idles x ∧ s.place x = .records then s.trigger x i true
    else none
  | .decrement x =>
    match s.place x with
    | .triggered idle =>
      some { s.goto x (if idle then .records else .turn) with
        pendingEventCount := s.pendingEventCount - 1 }
    | _ => none
  -- `*timeout == ~0ull`; the clock is not at zero
  | .readTimers w now =>
    if (s.idles w ∨ s.stopsRoot w) ∧ s.place w = .turn ∧ 0 < now then
      match TimerManager.getNextTimer now s.timers with
      | .ok timeout timers =>
        let s := { s with timers := timers }
        some (if timeout = ~~~0 then s.goto w .noTimer else s.giveUp w)
      | .error _ _ => none
    else none
  | .readEvents w =>
    if s.place w = .noTimer then
      some (if s.pendingEventCount = 0 then s.goto w .noEvent else s.giveUp w)
    else none
  -- `Scheduler::Stopping()`
  | .readQueue w =>
    if s.place w = .noEvent then
      some (if s.scheduler.isStopping then s.leave w else s.giveUp w)
    else none
  | .listExpired w now addr =>
    if s.idles w ∧ s.place w = .wait then
      match TimerManager.listExpiredCb now addr s.timers with
      | .ok (_, cbs) timers => some ({ s with timers := timers }.goto w (.expired cbs))
      | .error _ _ => none
    else none
  | .scheduleExpired w =>
    match s.place w with
    | .expired cbs => (s.goto w .records).lift (.schedule (cbs.map fun cb => (cb.map .cb, -1)))
    | _ => none
  -- the `SwapOut` at the end of the loop
  | .giveWay w =>
    if s.idles w ∧ s.place w = .records then
      some { s.goto w .turn with scheduler := s.scheduler.setPc w (.swapOut .idle) }
    else none

/-! ## What a worker's own steps do to its idle fiber -/

/-- From here on the idle fiber does not look again. -/
def endsIdle : Pc → Bool
  | .yieldAssert .idle .term => true
  | .yieldWrite .idle .term => true
  | .exited => true
  | _ => false

/-- Worker `w` has looked for the last time: its idle fiber has ended or is about to. -/
def Ended (s : Scheduler) (w : Nat) : Prop :=
  endsIdle (s.workers w).pc = true ∨ (s.workers w).idle.state = .term

@[simp] theorem idle_setPc (s : Scheduler) (w v : Nat) (pc : Pc) :
    ((s.setPc w pc).workers v).idle = (s.workers v).idle := by
  by_cases same : v = w
  · subst same
    simp [setPc]
  · rw [workers_setPc_of_ne _ _ _ _ same]

@[simp] theorem idle_setCbFiber (s : Scheduler) (w v : Nat) (f : Option Nat) :
    ((s.setCbFiber w f).workers v).idle = (s.workers v).idle := by
  by_cases same : v = w
  · subst same
    simp [setCbFiber]
  · rw [workers_setCbFiber_of_ne _ _ _ _ same]

theorem idle_setFiberOf {s : Scheduler} {w : Nat} {j : Job} {fiber : Fiber}
    (is_term : ((s.setFiberOf w j fiber).workers w).idle.state = .term) :
    (s.workers w).idle.state = .term ∨ j = .idle ∧ fiber.state = .term := by
  cases j with
  | fiber f entry => exact .inl is_term
  | cb f entry => exact .inl is_term
  | idle =>
    simp only [setFiberOf, Function.update_self] at is_term
    exact .inr ⟨rfl, is_term⟩

/-- A step that goes to `pc` ends the idle fiber only if its state was written. -/
theorem Ended.back {s t : Scheduler} {w : Nat} {pc : Pc} (ended : Ended (t.setPc w pc) w)
    (goes_on : endsIdle pc = false) (written : (t.workers w).idle.state = .term → Ended s w) :
    Ended s w := by
  rw [Ended, pc_setPc, idle_setPc, goes_on] at ended
  exact written (ended.resolve_left Bool.false_ne_true)

section Steps

variable {s : Scheduler} {w : Nat}

theorem ended_of_idle (is_term : (s.workers w).idle.state = .term) : Ended s w := .inr is_term

theorem ended_dequeue (ended : Ended (s.dequeue w) w) : Ended s w := by
  rw [dequeue] at ended
  split at ended
  · exact ended.back rfl ended_of_idle
  · exact ended.back rfl ended_of_idle

theorem ended_prepare {entry : Nat} (ended : Ended (s.prepare w entry) w) : Ended s w := by
  rw [prepare] at ended
  split at ended
  · split at ended
    · exact ended.back rfl ended_of_idle
    · exact ended
  · exact ended.back rfl fun is_term => ended_of_idle (by simpa using is_term)

theorem endsIdle_afterTerminated (j : Job) : endsIdle (afterTerminated j) = false := by
  cases j <;> rfl

/-- Writing a state other than `kTerm` ends no idle fiber. -/
theorem ended_of_written {j : Job} {fiber : Fiber} (other : fiber.state ≠ .term)
    (is_term : ((s.setFiberOf w j fiber).workers w).idle.state = .term) : Ended s w :=
  (idle_setFiberOf is_term).elim .inr fun written => absurd written.2 other

/-- Nor does saving or loading its context. -/
theorem ended_of_context {j : Job} {saved : Bool}
    (is_term : ((s.setFiberOf w j { s.fiberOf w j with saved := saved }).workers w).idle.state = .term) :
    Ended s w := by
  rcases idle_setFiberOf is_term with before | ⟨rfl, before⟩
  · exact .inr before
  · exact .inr before

theorem ended_workerStep {s' : Scheduler} (stepped : s.workerStep w = some s')
    (ended : Ended s' w) : Ended s w := by
  unfold workerStep at stepped
  split at stepped
  next =>
    cases stepped
    exact ended_dequeue ended
  next =>
    split at stepped
    · split at stepped
      · cases stepped
        exact ended.back rfl ended_of_idle
      · cases stepped
        exact ended.back rfl ended_of_idle
    · cases stepped
      exact ended_prepare ended
  next =>
    split at stepped
    · cases stepped
      exact ended.back rfl ended_of_idle
    · cases stepped
      exact ended.back rfl ended_of_idle
  next =>
    cases stepped
    exact ended.back rfl ended_of_idle
  next =>
    split at stepped
    next is_term => exact .inr is_term
    next =>
      cases stepped
      exact ended.back rfl ended_of_idle
  next =>
    split at stepped
    · cases stepped
      exact ended
    · cases stepped
      exact ended.back rfl ended_of_idle
  next =>
    cases stepped
    exact ended.back rfl (ended_of_written (by simp))
  next =>
    split at stepped
    · cases stepped
      exact ended.back rfl ended_of_context
    · cases stepped
      exact ended
  next => cases stepped
  next j st at_ =>
    split at stepped
    · cases stepped
      -- a yield of the idle fiber with `kTerm` is its end already
      rcases ended with ends | is_term
      · left
        rw [pc_setPc] at ends
        rw [at_]
        cases j <;> cases st <;> first | rfl | cases ends
      · exact .inr (by simpa using is_term)
    · cases stepped
      exact ended
  next j st at_ =>
    -- the only write of `kTerm`
    cases stepped
    refine ended.back rfl fun is_term => ?_
    rcases idle_setFiberOf is_term with before | ⟨rfl, written⟩
    · exact .inr before
    · cases (written : st = .term)
      exact .inl (by rw [at_]; rfl)
  next j _ =>
    cases stepped
    cases is_idle : j.isIdle with
    | true =>
      rw [is_idle, if_pos rfl] at ended
      exact ended.back rfl ended_of_context
    | false =>
      rw [is_idle, if_neg Bool.false_ne_true] at ended
      exact ended.back rfl ended_of_context
  next =>
    split at stepped
    · cases stepped
      exact ended.back rfl ended_of_idle
    · cases stepped
      exact ended.back rfl ended_of_idle
    · cases stepped
  next =>
    split at stepped
    · split at stepped
      · cases stepped
        exact ended.back rfl ended_of_idle
      · cases stepped
        exact ended.back rfl ended_of_idle
    · split at stepped
      · cases stepped
        exact ended.back rfl fun is_term => ended_of_idle (by simpa using is_term)
      · cases stepped
        exact ended.back rfl ended_of_idle
    · cases stepped
  next =>
    split at stepped
    · cases stepped
      exact ended.back rfl ended_of_idle
    · cases stepped
      exact ended.back rfl ended_of_idle
    · cases stepped
  next j _ =>
    split at stepped
    · cases stepped
      exact ended.back (endsIdle_afterTerminated j) ended_of_idle
    · split at stepped
      · cases stepped
        exact ended.back rfl ended_of_idle
      · cases stepped
        exact ended.back rfl ended_of_idle
  next j _ =>
    split at stepped
    · cases stepped
      exact ended.back (endsIdle_afterTerminated j) ended_of_idle
    · split at stepped
      · cases stepped
        exact ended.back rfl ended_of_idle
      · cases stepped
        exact ended.back rfl ended_of_idle
  next j _ =>
    have held : ∀ is_term : ((s.setFiberOf w j { s.fiberOf w j with state := .hold }).workers
        w).idle.state = .term, Ended s w := ended_of_written (by simp)
    dsimp only at stepped
    split at stepped
    · cases stepped
      refine ended.back rfl fun is_term => held ?_
      rwa [idle_setCbFiber] at is_term
    · cases stepped
      exact ended.back rfl held
  next =>
    split at stepped
    · cases stepped
      exact ended.back rfl (ended_of_written (by simp [Fiber.new]))
    · cases stepped
      exact ended
  next => cases stepped

/-- The code of a fiber that is no idle fiber ends no idle fiber. -/
theorem ended_fiberStep {s' : Scheduler} {j : Job} {choice : Choice} (busy : j.isIdle = false)
    (stepped : s.fiberStep w j choice = some s') (ended : Ended s' w) : Ended s w := by
  cases j with
  | idle => cases busy
  | fiber f entry =>
    cases choice with
    | register =>
      cases stepped
      exact ended
    | swapOut => cases stepped
    | _ =>
      cases stepped
      exact ended.back rfl ended_of_idle
  | cb f entry =>
    cases choice with
    | register =>
      cases stepped
      exact ended
    | swapOut => cases stepped
    | _ =>
      cases stepped
      exact ended.back rfl ended_of_idle

end Steps

/-! ## What is still to be seen -/

namespace State

/-- Worker `w` does not look at the timers again. -/
def Past (s : State) (w : Nat) : Prop :=
  Ended s.scheduler w ∨ s.place w = .noTimer ∨ s.place w = .noEvent

/-- Worker `w` does not look at the number of registered events again. -/
def PastEvents (s : State) (w : Nat) : Prop := Ended s.scheduler w ∨ s.place w = .noEvent

/-- Some worker has not begun its last look. -/
def Awaited (s : State) : Prop := ∃ w < s.threads, ¬ s.Past w

/-- Everything that is still to be done and not in a thread's hands. -/
def load (s : State) : Nat :=
  s.scheduler.queue.length + s.timers.timers.length + s.waiting.length

end State

/-- An action may add a task, a timer or an event only while some worker has not begun its
last look. The code of a fiber whose own worker has not is always admitted. -/
def admitted (s : State) (a : Action) : Prop :=
  ∀ s', step s a = some s' → s.load < s'.load → s.Awaited

instance decidableEnded (s : Scheduler) (w : Nat) : Decidable (Ended s w) :=
  inferInstanceAs (Decidable (_ ∨ _))

instance decidablePast (s : State) (w : Nat) : Decidable (s.Past w) :=
  inferInstanceAs (Decidable (_ ∨ _))

instance decidableAwaited (s : State) : Decidable s.Awaited :=
  inferInstanceAs (Decidable (∃ w < s.threads, ¬ s.Past w))

instance decidableAdmitted (s : State) (a : Action) : Decidable (admitted s a) :=
  decidable_of_iff (∀ s' ∈ step s a, s.load < s'.load → s.Awaited) Iff.rfl

/-- The last look of a worker finds nothing that it stops looking at. -/
structure Kept (s s' : State) : Prop where
  threads : s'.threads = s.threads
  ended : ∀ w, Ended s'.scheduler w → Ended s.scheduler w ∨ s'.scheduler.queue = []
  past : ∀ w, s'.Past w → s.Past w ∨ s'.timers.timers = []
  pastEvents : ∀ w, s'.PastEvents w → s.PastEvents w ∨ s'.pendingEventCount = 0
  queue : s'.scheduler.queue ≠ [] →
    s.scheduler.queue ≠ [] ∨ 0 < s.pendingEventCount ∨ s.load < s'.load
  timers : s'.timers.timers ≠ [] → s.timers.timers ≠ [] ∨ s.load < s'.load
  events : 0 < s'.pendingEventCount → 0 < s.pendingEventCount ∨ s.load < s'.load

/-- Whatever is left, some worker will look at it. -/
structure Seen (s : State) : Prop where
  queue : s.scheduler.queue ≠ [] → ∃ w < s.threads, ¬ Ended s.scheduler w
  timers : s.timers.timers ≠ [] → s.Awaited
  events : 0 < s.pendingEventCount → ∃ w < s.threads, ¬ s.PastEvents w

theorem State.Awaited.events {s : State} (awaited : s.Awaited) :
    ∃ w < s.threads, ¬ s.PastEvents w := by
  obtain ⟨w, bound, looks⟩ := awaited
  exact ⟨w, bound, fun past => looks (past.imp id .inr)⟩

theorem exists_not_ended {s : State} (looks : ∃ w < s.threads, ¬ s.PastEvents w) :
    ∃ w < s.threads, ¬ Ended s.scheduler w := by
  obtain ⟨w, bound, looks⟩ := looks
  exact ⟨w, bound, fun ended => looks (.inl ended)⟩

theorem Seen.kept {s s' : State} (seen : Seen s) (kept : Kept s s')
    (allowed : s.load < s'.load → s.Awaited) : Seen s' := by
  refine ⟨fun tasks => ?_, fun some_ => ?_, fun some_ => ?_⟩
  · have looks : ∃ w < s.threads, ¬ Ended s.scheduler w := by
      rcases kept.queue tasks with before | before | more
      · exact seen.queue before
      · exact exists_not_ended (seen.events before)
      · exact exists_not_ended (allowed more).events
    obtain ⟨w, bound, looks⟩ := looks
    exact ⟨w, kept.threads ▸ bound, fun ended => (kept.ended w ended).elim looks tasks⟩
  · have looks : s.Awaited := (kept.timers some_).elim seen.timers allowed
    obtain ⟨w, bound, looks⟩ := looks
    exact ⟨w, kept.threads ▸ bound, fun past => (kept.past w past).elim looks some_⟩
  · have looks : ∃ w < s.threads, ¬ s.PastEvents w :=
      (kept.events some_).elim seen.events fun more => (allowed more).events
    obtain ⟨w, bound, looks⟩ := looks
    refine ⟨w, kept.threads ▸ bound, fun past => ?_⟩
    exact (kept.pastEvents w past).elim looks (Nat.ne_of_gt some_)

/-! ## The other invariants -/

/-- What a place says about the position of its worker. -/
def Place.Fits (place : Place) (pc : Pc) (root : Prop) : Prop :=
  match place with
  | .turn => True
  | .noTimer => pc = .running .idle ∨ pc = .top ∧ root
  | .noEvent => pc = .running .idle ∨ pc = .top ∧ root
  | .triggered false => ∃ j, pc = .running j ∧ j.isIdle = false
  | _ => pc = .running .idle

/-- A decrement of `pending_event_count_` is outstanding. -/
def Place.owes : Place → Option Unit
  | .triggered _ => some ()
  | _ => none

/-- How many decrements are outstanding. -/
def State.owed (s : State) : Nat :=
  ((List.range (s.threads + s.outsiders)).filterMap fun x => (s.place x).owes).length

structure Sound (s : State) : Prop extends Seen s where
  counted : s.pendingEventCount = s.waiting.length + s.owed
  fits : ∀ w < s.threads, (s.place w).Fits (s.pc w) (w = 0 ∧ s.called = false)
  outside : ∀ x, s.threads ≤ x →
    s.place x = .turn ∨ s.place x = .triggered false ∧ x < s.threads + s.outsiders
  books : QueueInv s.scheduler

theorem sound_start (threads outsiders : Nat) (useCaller : Bool) (now : UInt64) :
    Sound (start threads outsiders useCaller now) := by
  have none_owed : (start threads outsiders useCaller now).owed = 0 := by
    simp [State.owed, start, Place.owes]
  refine ⟨⟨?_, ?_, ?_⟩, ?_, fun _ _ => trivial, fun _ _ => .inl rfl, queueInv_start threads⟩
  · exact fun some_ => absurd rfl some_
  · exact fun some_ => absurd rfl some_
  · exact fun some_ => absurd some_ (Nat.lt_irrefl 0)
  · rw [none_owed]
    rfl

/-! ## The steps -/

section Sound

variable {s s' : State}

theorem lift_eq {action : Scheduler.Action} (stepped : s.lift action = some s') :
    ∃ scheduler, s.scheduler.step action = some scheduler ∧ s' = { s with scheduler := scheduler } := by
  obtain ⟨scheduler, ran, rfl⟩ := Option.map_eq_some_iff.mp stepped
  exact ⟨scheduler, ran, rfl⟩

/-- A step of the scheduler that ends no idle fiber. -/
theorem Sound.scheduled {scheduler : Scheduler} (sound : Sound s)
    (allowed : s.load < { s with scheduler := scheduler }.load → s.Awaited)
    (threads_eq : scheduler.threads = s.scheduler.threads)
    (ended : ∀ w, Ended scheduler w → Ended s.scheduler w)
    (fits : ∀ w < s.threads, (s.place w).Fits (scheduler.workers w).pc (w = 0 ∧ s.called = false))
    (books : QueueInv scheduler) : Sound { s with scheduler := scheduler } := by
  have kept : Kept s { s with scheduler := scheduler } := by
    refine ⟨threads_eq, fun w now_ => .inl (ended w now_),
      fun w past => .inl (past.imp (ended w) id), fun w past => .inl (past.imp (ended w) id),
      fun tasks => ?_, .inl, .inl⟩
    -- a task more, or there was one before
    by_cases none_ : s.scheduler.queue = []
    · refine .inr (.inr ?_)
      have some_ := List.length_pos_iff.mpr tasks
      simp only [State.load, none_, List.length_nil]
      exact Nat.add_lt_add_right (Nat.add_lt_add_right some_ _) _
    · exact .inl none_
  have owed_eq : { s with scheduler := scheduler }.owed = s.owed := by
    simp only [State.owed, State.threads, threads_eq]
  refine ⟨sound.toSeen.kept kept allowed, ?_, ?_, ?_, books⟩
  · rw [owed_eq]
    exact sound.counted
  · intro w bound
    rw [State.threads, threads_eq] at bound
    exact fits w bound
  · intro x beyond
    rw [State.threads, threads_eq] at beyond
    simpa only [State.threads, threads_eq] using sound.outside x beyond

theorem Sound.worker {w : Nat} (sound : Sound s) (free : s.place w = .turn)
    (stepped : s.lift (.worker w) = some s') (allowed : s.load < s'.load → s.Awaited) :
    Sound s' := by
  obtain ⟨scheduler, ran, rfl⟩ := lift_eq stepped
  have books := step_queueInv sound.books ran
  simp only [Scheduler.step] at ran
  split at ran
  · cases ran
  split at ran
  next bound =>
    obtain ⟨moved, -⟩ := workerStep_effect ran
    refine sound.scheduled allowed moved.threads_eq (fun v now_ => ?_) (fun v bound => ?_) books
    · by_cases same : v = w
      · subst same
        exact ended_workerStep ran now_
      · rwa [Ended, moved.others v same] at now_
    · by_cases same : v = w
      · subst same
        rw [free]
        trivial
      · rw [moved.others v same]
        exact sound.fits v bound
  next => cases ran

theorem Sound.fiber {w : Nat} {choice : Choice} (sound : Sound s) (free : s.acts w = true)
    (stepped : s.lift (.fiber w choice) = some s') (allowed : s.load < s'.load → s.Awaited) :
    Sound s' := by
  obtain ⟨scheduler, ran, rfl⟩ := lift_eq stepped
  have books := step_queueInv sound.books ran
  simp only [Scheduler.step] at ran
  split at ran
  · cases ran
  split at ran
  next bound =>
    split at ran
    next j at_ =>
      have running : s.pc w = .running j := at_
      simp only [State.acts, State.threads, if_pos bound, running, Bool.and_eq_true,
        beq_iff_eq] at free
      obtain ⟨turn, busy⟩ := free
      have busy : j.isIdle = false := by simpa using busy
      obtain ⟨moved, -⟩ := fiberStep_effect at_ ran
      refine sound.scheduled allowed moved.threads_eq (fun v now_ => ?_) (fun v bound => ?_) books
      · by_cases same : v = w
        · subst same
          exact ended_fiberStep busy ran now_
        · rwa [Ended, moved.others v same] at now_
      · by_cases same : v = w
        · subst same
          rw [turn]
          trivial
        · rw [moved.others v same]
          exact sound.fits v bound
    next => cases ran
  next => cases ran

theorem workers_schedule (scheduler : Scheduler) (items : List (Option Work × Int)) :
    (scheduler.schedule items).workers = scheduler.workers ∧
      (scheduler.schedule items).threads = scheduler.threads := by
  induction items generalizing scheduler with
  | nil => exact ⟨rfl, rfl⟩
  | cons item items ih =>
    obtain ⟨workers_eq, threads_eq⟩ := ih (scheduler.scheduleNoLock item.1 item.2)
    obtain ⟨work, thread⟩ := item
    cases work with
    | none => exact ⟨workers_eq, threads_eq⟩
    | some work => exact ⟨workers_eq, threads_eq⟩

/-- The actions that no worker takes leave the workers as they are. -/
def quietAction : Scheduler.Action → Bool
  | .worker _ => false
  | .fiber _ _ => false
  | _ => true

theorem workers_quiet {scheduler scheduler' : Scheduler} {action : Scheduler.Action}
    (quiet : quietAction action = true) (stepped : scheduler.step action = some scheduler') :
    scheduler'.workers = scheduler.workers ∧ scheduler'.threads = scheduler.threads := by
  unfold Scheduler.step at stepped
  split at stepped
  · cases stepped
  cases action with
  | worker w => cases quiet
  | fiber w choice => cases quiet
  | schedule items =>
    dsimp only at stepped
    split at stepped
    · cases stepped
      exact workers_schedule scheduler items
    · cases stepped
  | _ =>
    cases stepped
    exact ⟨rfl, rfl⟩

theorem Sound.quiet {action : Scheduler.Action} (sound : Sound s)
    (quiet : quietAction action = true) (stepped : s.lift action = some s')
    (allowed : s.load < s'.load → s.Awaited) : Sound s' := by
  obtain ⟨scheduler, ran, rfl⟩ := lift_eq stepped
  obtain ⟨workers_eq, threads_eq⟩ := workers_quiet quiet ran
  refine sound.scheduled allowed threads_eq (fun w now_ => ?_) (fun w bound => ?_)
    (step_queueInv sound.books ran)
  · rwa [Ended, workers_eq] at now_
  · rw [workers_eq]
    exact sound.fits w bound

/-- A call that changes the timers or the registered events only. -/
theorem Sound.outside_scheduler {timers : TimerManager Nat} {waiting : List Work} {pending : Nat}
    (sound : Sound s)
    (allowed : s.load < { s with
      timers := timers, waiting := waiting, pendingEventCount := pending }.load → s.Awaited)
    (same : waiting.length = s.waiting.length ∨ timers = s.timers)
    (more : 0 < pending → 0 < s.pendingEventCount ∨ s.waiting.length < waiting.length)
    (counted : pending + s.waiting.length = s.pendingEventCount + waiting.length) :
    Sound { s with timers := timers, waiting := waiting, pendingEventCount := pending } := by
  have kept : Kept s { s with
      timers := timers, waiting := waiting, pendingEventCount := pending } := by
    refine ⟨rfl, fun _ => .inl, fun _ => .inl, fun _ => .inl, .inl, fun some_ => ?_, fun some_ => ?_⟩
    · by_cases none_ : s.timers.timers = []
      · rcases same with same | same
        · refine .inr ?_
          have longer := List.length_pos_iff.mpr some_
          simp only [State.load, none_, same, List.length_nil]
          exact Nat.add_lt_add_right (Nat.add_lt_add_left longer _) _
        · exact absurd (same ▸ none_) some_
      · exact .inl none_
    · rcases same with same | same
      · exact .inl ((more some_).resolve_right (by omega))
      · refine (more some_).imp id fun longer => ?_
        simp only [State.load, same]
        exact Nat.add_lt_add_left longer _
  refine ⟨sound.toSeen.kept kept allowed, ?_, sound.fits, sound.outside, sound.books⟩
  have before := sound.counted
  show pending = waiting.length + s.owed
  omega

theorem owed_of_place {x : Nat} {place : Place} (bound : x < s.threads + s.outsiders)
    (threads_eq : s'.threads = s.threads) (outsiders_eq : s'.outsiders = s.outsiders)
    (place_eq : s'.place = Function.update s.place x place) :
    s'.owed + (s.place x).owes.toList.length = s.owed + place.owes.toList.length := by
  have others : ∀ y, y ≠ x → (fun v => (s'.place v).owes) y = (fun v => (s.place v).owes) y := by
    intro y other
    simp only [place_eq, Function.update_of_ne other]
  have changed := (Family.filterMap_change bound others).length_eq
  simp only [List.length_append, place_eq, Function.update_self] at changed
  rw [State.owed, State.owed, threads_eq, outsiders_eq, place_eq]
  exact changed

/-- One thread moves from one place to another. -/
structure Moves (s : State) (x : Nat) (place : Place) (s' : State) : Prop where
  bound : x < s.threads + s.outsiders
  threads : s'.threads = s.threads
  outsiders : s'.outsiders = s.outsiders
  places : s'.place = Function.update s.place x place
  pc : ∀ w, w ≠ x → s'.pc w = s.pc w
  called : s'.called = s.called ∨ x = 0
  fits : x < s.threads → place.Fits (s'.pc x) (x = 0 ∧ s'.called = false)
  outside : s.threads ≤ x → place = .turn ∨ place = .triggered false
  counted : s'.pendingEventCount + s.waiting.length + (s.place x).owes.toList.length =
    s.pendingEventCount + s'.waiting.length + place.owes.toList.length
  books : QueueInv s'.scheduler

theorem Sound.moves {x : Nat} {place : Place} (sound : Sound s) (moves : Moves s x place s')
    (kept : Kept s s') (allowed : s.load < s'.load → s.Awaited) : Sound s' := by
  refine ⟨sound.toSeen.kept kept allowed, ?_, fun w bound => ?_, fun y beyond => ?_, moves.books⟩
  · have before := sound.counted
    have owed := owed_of_place moves.bound moves.threads moves.outsiders moves.places
    have counted := moves.counted
    omega
  · rw [moves.threads] at bound
    by_cases same : w = x
    · subst same
      rw [moves.places, Function.update_self]
      exact moves.fits bound
    · rw [moves.places, Function.update_of_ne same, moves.pc w same]
      have root : (w = 0 ∧ s'.called = false) = (w = 0 ∧ s.called = false) := by
        rcases moves.called with called | is_root
        · rw [called]
        · exact propext (and_congr_right fun is_zero => absurd (is_zero.trans is_root.symm) same)
      rw [root]
      exact sound.fits w bound
  · rw [moves.threads] at beyond
    rw [moves.threads, moves.outsiders, moves.places]
    by_cases same : y = x
    · subst same
      rw [Function.update_self]
      exact (moves.outside beyond).imp id fun triggered => ⟨triggered, moves.bound⟩
    · rw [Function.update_of_ne same]
      exact sound.outside y beyond

/-- A move to a place that is not in `Stopping`. -/
theorem Moves.kept {x : Nat} {place : Place} (moves : Moves s x place s')
    (ended : ∀ w, Ended s'.scheduler w → Ended s.scheduler w)
    (elsewhere : place ≠ .noTimer ∧ place ≠ .noEvent)
    (queue : s'.scheduler.queue ≠ [] →
      s.scheduler.queue ≠ [] ∨ 0 < s.pendingEventCount ∨ s.load < s'.load)
    (timers : s'.timers.timers ≠ [] → s.timers.timers ≠ [] ∨ s.load < s'.load)
    (events : s'.pendingEventCount ≤ s.pendingEventCount) : Kept s s' := by
  have place_of : ∀ w, s'.place w = .noTimer ∨ s'.place w = .noEvent → s'.place w = s.place w := by
    intro w inside
    rw [moves.places] at inside ⊢
    by_cases same : w = x
    · subst same
      rw [Function.update_self] at inside
      exact absurd inside (not_or.mpr elsewhere)
    · rw [Function.update_of_ne same]
  refine ⟨moves.threads, fun w now_ => .inl (ended w now_), fun w past => .inl ?_,
    fun w past => .inl ?_, queue, timers, fun some_ => .inl (Nat.lt_of_lt_of_le some_ events)⟩
  · rcases past with now_ | inside
    · exact .inl (ended w now_)
    · exact .inr (place_of w inside ▸ inside)
  · rcases past with now_ | inside
    · exact .inl (ended w now_)
    · exact .inr (place_of w (.inr inside) ▸ inside)

theorem idles_iff {w : Nat} : s.idles w = true ↔ w < s.threads ∧ s.pc w = .running .idle := by
  rw [State.idles, Bool.and_eq_true, decide_eq_true_iff, beq_iff_eq]

/-- What `acts` says. -/
theorem of_acts {x : Nat} (free : s.acts x = true) :
    s.place x = .turn ∧ x < s.threads + s.outsiders ∧
      (x < s.threads → ∃ j, s.pc x = .running j ∧ j.isIdle = false) := by
  rw [State.acts, Bool.and_eq_true, beq_iff_eq] at free
  obtain ⟨turn, inside⟩ := free
  by_cases bound : x < s.threads
  · rw [if_pos bound] at inside
    refine ⟨turn, Nat.lt_add_right _ bound, fun _ => ?_⟩
    split at inside
    next j at_ => exact ⟨j, at_, by simpa using inside⟩
    next => cases inside
  · rw [if_neg bound, decide_eq_true_iff] at inside
    exact ⟨turn, inside, fun bound' => absurd bound' bound⟩

/-- The only way past the first test of `Stopping`. -/
theorem getNextTimer_none {now : UInt64} {m m' : TimerManager Nat} {timeout : UInt64}
    (ran : TimerManager.getNextTimer now m = .ok timeout m') :
    m'.timers = m.timers ∧ (timeout = ~~~0 → 0 < now → m'.timers = []) := by
  cases timers_eq : m.timers with
  | nil =>
    simp only [TimerManager.getNextTimer, EState.run_bind, EState.run_modify, EState.run_get,
      timers_eq, EState.run_pure, EStateM.Result.ok.injEq] at ran
    rw [← ran.2]
    exact ⟨rfl, fun _ _ => rfl⟩
  | cons i rest =>
    simp only [TimerManager.getNextTimer, EState.run_bind, EState.run_modify, EState.run_get,
      timers_eq] at ran
    split at ran
    next =>
      cases ran
      exact ⟨rfl, fun none_ => absurd none_ (by decide)⟩
    next early =>
      cases ran
      refine ⟨rfl, fun none_ later => ?_⟩
      -- the difference is below the deadline, which is at most the greatest number
      have before : now < (m.objects i).next := UInt64.not_le.mp early
      have whole : ((m.objects i).next - now).toNat = 2 ^ 64 - 1 := by
        rw [none_]
        rfl
      rw [UInt64.toNat_sub_of_le _ _ (UInt64.le_of_lt before)] at whole
      have limit := (m.objects i).next.toNat_lt
      have positive : 0 < now.toNat := UInt64.lt_iff_toNat_lt.mp later
      have before := UInt64.lt_iff_toNat_lt.mp before
      omega

theorem Sound.trigger {x i : Nat} {idle : Bool} (sound : Sound s)
    (from_ : (idle = false ∧ s.acts x = true) ∨
      (idle = true ∧ s.idles x = true ∧ s.place x = .records))
    (stepped : s.trigger x i idle = some s') (allowed : s.load < s'.load → s.Awaited) : Sound s' := by
  rw [State.trigger] at stepped
  split at stepped
  · cases stepped
  next work found =>
    obtain ⟨scheduler, ran, rfl⟩ := lift_eq stepped
    obtain ⟨workers_eq, threads_eq⟩ := workers_quiet rfl ran
    obtain ⟨inside, -⟩ := List.getElem?_eq_some_iff.mp found
    have shorter := List.length_eraseIdx_of_lt inside
    have pending : 0 < s.pendingEventCount := by
      have := sound.counted
      omega
    have owes_none : (s.place x).owes = none := by
      rcases from_ with ⟨-, free⟩ | ⟨-, -, at_⟩
      · rw [(of_acts free).1]
        rfl
      · rw [at_]
        rfl
    have moves : Moves s x (.triggered idle) { s.goto x (.triggered idle) with
        scheduler := scheduler, waiting := s.waiting.eraseIdx i } := by
      refine ⟨?_, threads_eq, rfl, rfl, fun w _ => ?_, .inl rfl, fun bound => ?_, fun beyond => ?_, ?_,
        step_queueInv sound.books ran⟩
      · rcases from_ with ⟨-, free⟩ | ⟨-, idles, -⟩
        · exact (of_acts free).2.1
        · exact Nat.lt_add_right _ (idles_iff.mp idles).1
      · rw [State.pc, workers_eq]
        rfl
      · have pc_eq : { s.goto x (.triggered idle) with
            scheduler := scheduler, waiting := s.waiting.eraseIdx i }.pc x = s.pc x := by
          rw [State.pc, workers_eq]
          rfl
        rw [pc_eq]
        rcases from_ with ⟨rfl, free⟩ | ⟨rfl, idles, -⟩
        · exact (of_acts free).2.2 bound
        · exact (idles_iff.mp idles).2
      · rcases from_ with ⟨rfl, -⟩ | ⟨-, idles, -⟩
        · exact .inr rfl
        · exact absurd (idles_iff.mp idles).1 (Nat.not_lt.mpr beyond)
      · have owes_one : (Place.triggered idle).owes.toList.length = 1 := rfl
        rw [owes_none, owes_one]
        show s.pendingEventCount + s.waiting.length + 0 =
          s.pendingEventCount + (s.waiting.eraseIdx i).length + 1
        omega
    refine sound.moves moves (moves.kept (fun w now_ => ?_) ⟨by simp, by simp⟩
      (fun _ => .inr (.inl pending)) .inl (Nat.le_refl _)) allowed
    rwa [Ended, workers_eq] at now_

theorem Sound.decrement {x : Nat} {idle : Bool} (sound : Sound s) (at_ : s.place x = .triggered idle) :
    Sound { s.goto x (if idle then .records else .turn) with
      pendingEventCount := s.pendingEventCount - 1 } := by
  have owes_one : (s.place x).owes = some () := by
    rw [at_]
    rfl
  have owes_none : (if idle then Place.records else .turn).owes = none := by
    cases idle <;> rfl
  have bound : x < s.threads + s.outsiders := by
    by_cases inside : x < s.threads
    · exact Nat.lt_add_right _ inside
    · rcases sound.outside x (Nat.not_lt.mp inside) with turn | ⟨-, bound⟩
      · rw [at_] at turn
        cases turn
      · exact bound
  have owed : 0 < s.pendingEventCount := by
    have threads_eq : (s.goto x .turn).threads = s.threads := rfl
    have changed := owed_of_place bound threads_eq rfl rfl
    rw [owes_one] at changed
    simp only [Place.owes, Option.toList_none, Option.toList_some, List.length_nil,
      List.length_singleton] at changed
    have := sound.counted
    omega
  have moves : Moves s x (if idle then .records else .turn)
      { s.goto x (if idle then .records else .turn) with
        pendingEventCount := s.pendingEventCount - 1 } := by
    refine ⟨bound, rfl, rfl, rfl, fun _ _ => rfl, .inl rfl, fun inside => ?_, fun beyond => ?_, ?_,
      sound.books⟩
    · have fits := sound.fits x inside
      rw [at_] at fits
      cases idle with
      | true => exact fits
      | false => trivial
    · rcases sound.outside x beyond with turn | ⟨triggered, -⟩
      · rw [at_] at turn
        cases turn
      · rw [at_] at triggered
        cases triggered
        exact .inl rfl
    · rw [owes_one, owes_none]
      simp only [Option.toList_none, Option.toList_some, List.length_nil, List.length_singleton]
      show s.pendingEventCount - 1 + s.waiting.length + 1 = s.pendingEventCount + s.waiting.length + 0
      omega
  have elsewhere : (if idle then Place.records else .turn) ≠ .noTimer ∧
      (if idle then Place.records else .turn) ≠ .noEvent := by
    cases idle <;> simp
  refine sound.moves moves (moves.kept (fun _ => id) elsewhere .inl .inl (Nat.sub_le ..)) fun more => ?_
  exact absurd more (Nat.lt_irrefl _)

/-- A worker whose place tells that it is in `Idle` or in `Stop`. -/
theorem Sound.looking {w : Nat} (sound : Sound s) (at_ : s.place w = .noTimer ∨ s.place w = .noEvent) :
    w < s.threads ∧ (s.idles w = true ∨ s.pc w = .top ∧ w = 0 ∧ s.called = false) := by
  have bound : w < s.threads := by
    by_contra beyond
    rcases sound.outside w (Nat.not_lt.mp beyond) with turn | ⟨triggered, -⟩
    · rcases at_ with at_ | at_ <;> rw [at_] at turn <;> cases turn
    · rcases at_ with at_ | at_ <;> rw [at_] at triggered <;> cases triggered
  refine ⟨bound, ?_⟩
  have fits := sound.fits w bound
  rcases at_ with at_ | at_
  · rw [at_] at fits
    exact fits.imp (fun running => idles_iff.mpr ⟨bound, running⟩) id
  · rw [at_] at fits
    exact fits.imp (fun running => idles_iff.mpr ⟨bound, running⟩) id

/-- `Stopping` goes on or gives up: the thread only moves. -/
theorem Sound.look {w : Nat} {place : Place} {timers : TimerManager Nat} {called : Bool}
    (sound : Sound s) (bound : w < s.threads) (owes_none : (s.place w).owes = none)
    (owes_none' : place.owes = none) (timers_eq : timers.timers = s.timers.timers)
    (called_eq : called = s.called ∨ w = 0)
    (fits : place.Fits (s.pc w) (w = 0 ∧ called = false))
    (no_timer : place = .noTimer → timers.timers = [])
    (no_event : place = .noEvent → s.place w = .noTimer ∧ s.pendingEventCount = 0) :
    Sound { s.goto w place with timers := timers, called := called } := by
  have moves : Moves s w place { s.goto w place with timers := timers, called := called } := by
    refine ⟨Nat.lt_add_right _ bound, rfl, rfl, rfl, fun _ _ => rfl, called_eq, fun _ => fits,
      fun beyond => absurd bound (Nat.not_lt.mpr beyond), ?_, sound.books⟩
    rw [owes_none, owes_none']
    rfl
  have load_eq : { s.goto w place with timers := timers, called := called }.load = s.load := by
    simp only [State.load, timers_eq]
    rfl
  have place_eq : ∀ v, { s.goto w place with timers := timers, called := called }.place v =
      if v = w then place else s.place v := fun v => Function.update_apply ..
  have kept : Kept s { s.goto w place with timers := timers, called := called } := by
    refine ⟨rfl, fun _ => .inl, fun v past => ?_, fun v past => ?_, .inl, fun some_ => ?_, .inl⟩
    · rcases past with ended | inside
      · exact .inl (.inl ended)
      · rw [place_eq] at inside
        split at inside
        next same =>
          subst same
          rcases inside with is_here | is_here
          · exact .inr (no_timer is_here)
          · exact .inl (.inr (.inl (no_event is_here).1))
        next => exact .inl (.inr inside)
    · rcases past with ended | inside
      · exact .inl (.inl ended)
      · rw [place_eq] at inside
        split at inside
        next => exact .inr (no_event inside).2
        next => exact .inl (.inr inside)
    · exact .inl (timers_eq ▸ some_)
  exact sound.moves moves kept fun more => absurd more (Nat.not_lt.mpr (Nat.le_of_eq load_eq))

theorem Sound.giveUp {w : Nat} {timers : TimerManager Nat} (sound : Sound s) (bound : w < s.threads)
    (owes_none : (s.place w).owes = none) (timers_eq : timers.timers = s.timers.timers)
    (root : s.idles w = false → w = 0) : Sound ({ s with timers := timers }.giveUp w) := by
  have idles_eq : { s with timers := timers }.idles w = s.idles w := rfl
  rw [State.giveUp, idles_eq]
  cases idles : s.idles w with
  | true =>
    exact sound.look bound owes_none rfl timers_eq (.inl rfl) (idles_iff.mp idles).2 nofun nofun
  | false => exact sound.look bound owes_none rfl timers_eq (.inr (root idles)) trivial nofun nofun

theorem Sound.readTimers {w : Nat} {now timeout : UInt64} {timers : TimerManager Nat}
    (sound : Sound s) (looks : s.idles w = true ∨ s.stopsRoot w = true) (turn : s.place w = .turn)
    (later : 0 < now) (ran : TimerManager.getNextTimer now s.timers = .ok timeout timers) :
    Sound (if timeout = ~~~0 then { s with timers := timers }.goto w .noTimer
      else { s with timers := timers }.giveUp w) := by
  obtain ⟨timers_eq, none_⟩ := getNextTimer_none ran
  have owes_none : (s.place w).owes = none := by
    rw [turn]
    rfl
  have root_of : s.stopsRoot w = true → w = 0 ∧ 0 < s.threads ∧ s.called = false ∧ s.pc 0 = .top := by
    simp only [State.stopsRoot, Bool.and_eq_true, beq_iff_eq, decide_eq_true_iff, Bool.not_eq_true',
      and_assoc]
    exact fun ⟨is_root, bound, not_called, _, top⟩ => ⟨is_root, bound, not_called, top⟩
  have bound : w < s.threads := by
    rcases looks with idles | root
    · exact (idles_iff.mp idles).1
    · obtain ⟨rfl, bound, -⟩ := root_of root
      exact bound
  split
  next is_none =>
    refine sound.look bound owes_none rfl timers_eq (.inl rfl) ?_ (fun _ => none_ is_none later) nofun
    rcases looks with idles | root
    · exact .inl (idles_iff.mp idles).2
    · obtain ⟨rfl, -, not_called, top⟩ := root_of root
      exact .inr ⟨top, rfl, not_called⟩
  next =>
    refine sound.giveUp bound owes_none timers_eq fun not_idle => ?_
    exact (root_of (looks.resolve_left (by simp [not_idle]))).1

theorem Sound.readEvents {w : Nat} (sound : Sound s) (at_ : s.place w = .noTimer) :
    Sound (if s.pendingEventCount = 0 then s.goto w .noEvent else s.giveUp w) := by
  obtain ⟨bound, looks⟩ := sound.looking (.inl at_)
  have owes_none : (s.place w).owes = none := by
    rw [at_]
    rfl
  split
  next zero =>
    refine sound.look bound owes_none rfl rfl (.inl rfl) ?_ nofun fun _ => ⟨at_, zero⟩
    exact looks.imp (fun idles => (idles_iff.mp idles).2) id
  next => exact sound.giveUp bound owes_none rfl fun not_idle =>
      (looks.resolve_left (by simp [not_idle])).2.1

theorem isStopping_queue {scheduler : Scheduler} (stopping : scheduler.isStopping = true) :
    scheduler.queue = [] := by
  simp only [isStopping, Bool.and_eq_true, List.isEmpty_iff] at stopping
  exact stopping.1.2

/-- The position of one worker changes, and it holds no entry before and after. -/
theorem books_setPc_quiet {scheduler : Scheduler} {w : Nat} {pc : Pc} (books : QueueInv scheduler)
    (bound : w < scheduler.threads) (none_ : (scheduler.workers w).pc.entry = none)
    (none_' : pc.entry = none) (no_drop : ∀ entry st, pc ≠ .drop entry st) :
    QueueInv (scheduler.setPc w pc) := by
  refine books.effect bound ⟨rfl, fun v other => workers_setPc_of_ne _ _ _ _ other, ?_⟩ (.quiet rfl ?_)
  · intro entry st dropped
    rw [pc_setPc] at dropped
    exact absurd dropped (no_drop entry st)
  · rw [pc_setPc, none_, none_']

theorem Sound.leave {w : Nat} (sound : Sound s) (at_ : s.place w = .noEvent)
    (stopping : s.scheduler.isStopping = true) : Sound (s.leave w) := by
  obtain ⟨bound, looks⟩ := sound.looking (.inr at_)
  have no_entry : (s.pc w).entry = none := by
    rcases looks with idles | ⟨top, -⟩
    · rw [(idles_iff.mp idles).2]
      rfl
    · rw [top]
      rfl
  have next_ : ∀ pc, pc = (if s.idles w then Pc.yieldWrite .idle .term else .exited) →
      pc.entry = none ∧ ∀ entry st, pc ≠ .drop entry st := by
    rintro pc rfl
    cases s.idles w <;> simp [Pc.entry, Job.entry]
  obtain ⟨no_entry', no_drop⟩ := next_ _ rfl
  have books := books_setPc_quiet sound.books bound no_entry no_entry' no_drop
  have moves : Moves s w .turn (s.leave w) := by
    refine ⟨Nat.lt_add_right _ bound, rfl, rfl, rfl, fun v other => ?_, .inl rfl, fun _ => trivial,
      fun _ => .inl rfl, ?_, books⟩
    · exact congrArg Worker.pc (workers_setPc_of_ne _ _ _ _ other)
    · rw [at_]
      rfl
  have empty : (s.leave w).scheduler.queue = [] := isStopping_queue stopping
  have ended_of : ∀ v, v ≠ w → Ended (s.leave w).scheduler v → Ended s.scheduler v := by
    intro v other ended
    rwa [Ended, State.leave, workers_setPc_of_ne _ _ _ _ other] at ended
  have place_of : ∀ v, v ≠ w → (s.leave w).place v = s.place v := fun v other =>
    Function.update_of_ne other _ _
  have kept : Kept s (s.leave w) := by
    refine ⟨rfl, fun _ _ => .inr empty, fun v past => .inl ?_, fun v past => .inl ?_,
      fun some_ => absurd empty some_, .inl, .inl⟩
    · by_cases same : v = w
      · subst same
        exact .inr (.inr at_)
      · rw [State.Past, place_of v same] at past
        exact past.imp (ended_of v same) id
    · by_cases same : v = w
      · subst same
        exact .inr at_
      · rw [State.PastEvents, place_of v same] at past
        exact past.imp (ended_of v same) id
  exact sound.moves moves kept fun more => absurd more (Nat.lt_irrefl _)

theorem Sound.readQueue {w : Nat} (sound : Sound s) (at_ : s.place w = .noEvent) :
    Sound (if s.scheduler.isStopping then s.leave w else s.giveUp w) := by
  obtain ⟨bound, looks⟩ := sound.looking (.inr at_)
  split
  next stopping => exact sound.leave at_ stopping
  next =>
    have owes_none : (s.place w).owes = none := by
      rw [at_]
      rfl
    exact sound.giveUp bound owes_none rfl fun not_idle =>
      (looks.resolve_left (by simp [not_idle])).2.1

theorem Sound.listExpired {w : Nat} {cbs : List (Option Nat)} {timers : TimerManager Nat}
    (sound : Sound s) (idles : s.idles w = true) (at_ : s.place w = .wait)
    (allowed : s.load < ({ s with timers := timers }.goto w (.expired cbs)).load → s.Awaited) :
    Sound ({ s with timers := timers }.goto w (.expired cbs)) := by
  obtain ⟨bound, running⟩ := idles_iff.mp idles
  have moves : Moves s w (.expired cbs) ({ s with timers := timers }.goto w (.expired cbs)) := by
    refine ⟨Nat.lt_add_right _ bound, rfl, rfl, rfl, fun _ _ => rfl, .inl rfl, fun _ => running,
      fun beyond => absurd bound (Nat.not_lt.mpr beyond), ?_, sound.books⟩
    rw [at_]
    rfl
  refine sound.moves moves (moves.kept (fun _ => id) ⟨by simp, by simp⟩ .inl (fun some_ => ?_)
    (Nat.le_refl _)) allowed
  by_cases none_ : s.timers.timers = []
  · refine .inr ?_
    have longer : 0 < timers.timers.length := List.length_pos_iff.mpr some_
    simp only [State.load, none_, List.length_nil]
    exact Nat.add_lt_add_right (Nat.add_lt_add_left longer _) _
  · exact .inl none_

/-- Behind the last task of `Idle`: the callbacks go into the queue. -/
theorem Sound.scheduleExpired {w : Nat} {cbs : List (Option Nat)} (sound : Sound s)
    (at_ : s.place w = .expired cbs)
    (stepped : (s.goto w .records).lift (.schedule (cbs.map fun cb => (cb.map .cb, -1))) = some s')
    (allowed : s.load < s'.load → s.Awaited) : Sound s' := by
  obtain ⟨scheduler, ran, rfl⟩ := lift_eq stepped
  obtain ⟨workers_eq, threads_eq⟩ := workers_quiet rfl ran
  have bound : w < s.threads := by
    by_contra beyond
    rcases sound.outside w (Nat.not_lt.mp beyond) with turn | ⟨triggered, -⟩
    · rw [at_] at turn
      cases turn
    · rw [at_] at triggered
      cases triggered
  have running : s.pc w = .running .idle := by
    have fits := sound.fits w bound
    rwa [at_] at fits
  have pc_eq : ∀ v, { s.goto w .records with scheduler := scheduler }.pc v = s.pc v := by
    intro v
    rw [State.pc, workers_eq]
    rfl
  have moves : Moves s w .records { s.goto w .records with scheduler := scheduler } := by
    refine ⟨Nat.lt_add_right _ bound, threads_eq, rfl, rfl, fun v _ => pc_eq v, .inl rfl,
      fun _ => (pc_eq w).trans running, fun beyond => absurd bound (Nat.not_lt.mpr beyond), ?_,
      step_queueInv sound.books ran⟩
    rw [at_]
    rfl
  refine sound.moves moves (moves.kept (fun v now_ => ?_) ⟨by simp, by simp⟩ (fun tasks => ?_) .inl
    (Nat.le_refl _)) allowed
  · rwa [Ended, workers_eq] at now_
  · by_cases none_ : s.scheduler.queue = []
    · refine .inr (.inr ?_)
      have longer : 0 < scheduler.queue.length := List.length_pos_iff.mpr tasks
      simp only [State.load, none_, List.length_nil]
      exact Nat.add_lt_add_right (Nat.add_lt_add_right longer _) _
    · exact .inl none_

theorem Sound.giveWay {w : Nat} (sound : Sound s) (idles : s.idles w = true)
    (at_ : s.place w = .records) :
    Sound { s.goto w .turn with scheduler := s.scheduler.setPc w (.swapOut .idle) } := by
  obtain ⟨bound, running⟩ := idles_iff.mp idles
  have no_entry : (s.pc w).entry = none := by
    rw [running]
    rfl
  have books := books_setPc_quiet sound.books bound no_entry (rfl : (Pc.swapOut .idle).entry = none)
    nofun
  have moves : Moves s w .turn
      { s.goto w .turn with scheduler := s.scheduler.setPc w (.swapOut .idle) } := by
    refine ⟨Nat.lt_add_right _ bound, rfl, rfl, rfl, fun v other => ?_, .inl rfl, fun _ => trivial,
      fun _ => .inl rfl, ?_, books⟩
    · exact congrArg Worker.pc (workers_setPc_of_ne _ _ _ _ other)
    · rw [at_]
      rfl
  refine sound.moves moves (moves.kept (fun v now_ => ?_) ⟨by simp, by simp⟩ .inl .inl
    (Nat.le_refl _)) fun more => absurd more (Nat.lt_irrefl _)
  by_cases same : v = w
  · subst same
    exact now_.back rfl ended_of_idle
  · rwa [Ended, workers_setPc_of_ne _ _ _ _ same] at now_

end Sound

/-- Every admitted step keeps the invariant. -/
theorem sound_step {s s' : State} {a : Action} (sound : Sound s) (allowed : admitted s a)
    (stepped : step s a = some s') : Sound s' := by
  have awaited : s.load < s'.load → s.Awaited := allowed s' stepped
  cases a with
  | worker w =>
    simp only [step] at stepped
    split at stepped
    next free => exact sound.worker free.1 stepped awaited
    next => cases stepped
  | fiber w choice =>
    simp only [step] at stepped
    split at stepped
    next free => exact sound.fiber free stepped awaited
    next => cases stepped
  | makeFiber => exact sound.quiet rfl stepped awaited
  | schedule x items =>
    simp only [step] at stepped
    split at stepped
    next => exact sound.quiet rfl stepped awaited
    next => cases stepped
  | setAutoStop => exact sound.quiet rfl stepped awaited
  | setStopping => exact sound.quiet rfl stepped awaited
  | timer x call =>
    simp only [step] at stepped
    split at stepped
    next =>
      split at stepped
      next =>
        cases stepped
        exact sound.outside_scheduler awaited (.inl rfl) .inl rfl
      next => cases stepped
    next => cases stepped
  | addEvent x work =>
    simp only [step] at stepped
    split at stepped
    next =>
      cases stepped
      refine sound.outside_scheduler awaited (.inr rfl) (fun _ => .inr (by simp)) ?_
      rw [List.length_append, List.length_singleton]
      omega
    next => cases stepped
  | delEvent x i =>
    simp only [step] at stepped
    split at stepped
    next inside =>
      cases stepped
      have shorter := List.length_eraseIdx_of_lt inside.2
      have counted := sound.counted
      exact sound.outside_scheduler awaited (.inr rfl) (fun some_ => .inl (by omega)) (by omega)
    next => cases stepped
  | trigger x i =>
    simp only [step] at stepped
    split at stepped
    next free => exact sound.trigger (.inl ⟨rfl, free⟩) stepped awaited
    next =>
      split at stepped
      next inside => exact sound.trigger (.inr ⟨rfl, inside⟩) stepped awaited
      next => cases stepped
  | decrement x =>
    simp only [step] at stepped
    split at stepped
    next at_ =>
      cases stepped
      exact sound.decrement at_
    next => cases stepped
  | readTimers w now =>
    simp only [step] at stepped
    split at stepped
    next here =>
      split at stepped
      next ran =>
        cases stepped
        exact sound.readTimers here.1 here.2.1 here.2.2 ran
      next => cases stepped
    next => cases stepped
  | readEvents w =>
    simp only [step] at stepped
    split at stepped
    next at_ =>
      cases stepped
      exact sound.readEvents at_
    next => cases stepped
  | readQueue w =>
    simp only [step] at stepped
    split at stepped
    next at_ =>
      cases stepped
      exact sound.readQueue at_
    next => cases stepped
  | listExpired w now addr =>
    simp only [step] at stepped
    split at stepped
    next here =>
      split at stepped
      next =>
        cases stepped
        exact sound.listExpired here.1 here.2 awaited
      next => cases stepped
    next => cases stepped
  | scheduleExpired w =>
    simp only [step] at stepped
    split at stepped
    next at_ => exact sound.scheduleExpired at_ stepped awaited
    next => cases stepped
  | giveWay w =>
    simp only [step] at stepped
    split at stepped
    next here =>
      cases stepped
      exact sound.giveWay here.1 here.2
    next => cases stepped

/-- Nothing is left: every accepted task has been run to the end of its pass or was dropped
because its fiber had ended, and no timer, no registered event and nothing in the hands of a
thread remains. -/
structure Nothing (s : State) : Prop where
  queue : s.scheduler.queue = []
  timers : s.timers.timers = []
  waiting : s.waiting = []
  pending : s.pendingEventCount = 0
  hands : ∀ x < s.threads + s.outsiders, s.place x = .turn
  done : (s.scheduler.finished ++ s.scheduler.dropped.map Prod.fst).Perm
    (List.range s.scheduler.issued)

/-- **Orderly stop**: for any number of workers and other threads, with and without
`use_caller`, and any interleaving of tasks, timers and events in which tasks, timers and
events are only added while some worker has not begun its last look, nothing is left when
all workers have left `Run`. -/
theorem stop_leaves_nothing {threads outsiders : Nat} {useCaller : Bool} {now : UInt64}
    {actions : List Action} {s : State}
    (steps : Run.Steps step admitted (start threads outsiders useCaller now) actions s)
    (left : ∀ w < s.threads, s.pc w = .exited) : Nothing s := by
  have sound : Sound s :=
    steps.invariant (fun _ _ _ sound allowed stepped => sound_step sound allowed stepped)
      (sound_start threads outsiders useCaller now)
  have ended : ∀ w < s.threads, Ended s.scheduler w := by
    intro w bound
    have exited : (s.scheduler.workers w).pc = .exited := left w bound
    exact .inl (by rw [exited]; rfl)
  have queue : s.scheduler.queue = [] := by
    by_contra some_
    obtain ⟨w, bound, looks⟩ := sound.queue some_
    exact looks (ended w bound)
  have timers : s.timers.timers = [] := by
    by_contra some_
    obtain ⟨w, bound, looks⟩ := sound.timers some_
    exact looks (.inl (ended w bound))
  have pending : s.pendingEventCount = 0 := by
    by_contra some_
    obtain ⟨w, bound, looks⟩ := sound.events (Nat.pos_of_ne_zero some_)
    exact looks (.inl (ended w bound))
  have counted := sound.counted
  have waiting : s.waiting = [] := List.eq_nil_of_length_eq_zero (by omega)
  have owed : s.owed = 0 := by omega
  refine ⟨queue, timers, waiting, pending, fun x bound => ?_, ?_⟩
  · by_cases inside : x < s.threads
    · have fits := sound.fits x inside
      rw [left x inside] at fits
      cases place : s.place x with
      | turn => rfl
      | triggered idle =>
        rw [place] at fits
        cases idle with
        | true => cases (fits : Pc.exited = _)
        | false =>
          obtain ⟨j, running, -⟩ : ∃ j, Pc.exited = .running j ∧ j.isIdle = false := fits
          cases running
      | noTimer =>
        rw [place] at fits
        rcases (fits : Pc.exited = _ ∨ _) with running | ⟨top, -⟩
        · cases running
        · cases top
      | noEvent =>
        rw [place] at fits
        rcases (fits : Pc.exited = _ ∨ _) with running | ⟨top, -⟩
        · cases running
        · cases top
      | _ =>
        rw [place] at fits
        cases (fits : Pc.exited = _)
    · rcases sound.outside x (Nat.not_lt.mp inside) with turn | ⟨triggered, -⟩
      · exact turn
      · -- its decrement would be outstanding
        rw [State.owed, List.length_eq_zero_iff, List.filterMap_eq_nil_iff] at owed
        have none_ := owed x (List.mem_range.mpr bound)
        rw [triggered] at none_
        cases none_
  · have held : s.scheduler.held = [] := by
      rw [Scheduler.held, List.filterMap_eq_nil_iff]
      intro w member
      have exited : (s.scheduler.workers w).pc = .exited := left w (List.mem_range.mp member)
      rw [exited]
      rfl
    simpa [queue, held] using sound.books.ledger

/-- `n` own steps of worker 0. -/
def turns (n : Nat) : List Action := List.replicate n (.worker 0)

/-- A task adds a timer and registers for an event, and the stop request comes when both have
been scheduled: all three callbacks have been run when the worker leaves. -/
theorem stop_leaves_nothing_of_three :
    ∃ s, Run.run step (start 1 1 false 1) ([.schedule 1 [(some (.cb 7), -1)]] ++ turns 5 ++
        [.timer 0 (.addTimer 0 5 8 false 1), .addEvent 0 (.cb 9), .fiber 0 .finish] ++ turns 12 ++
        [.readTimers 0 2, .listExpired 0 10 1, .scheduleExpired 0, .trigger 0 0, .decrement 0,
          .giveWay 0] ++ turns 9 ++ [.fiber 0 .finish] ++ turns 12 ++
        [.fiber 0 .finish, .setAutoStop, .setStopping] ++ turns 12 ++
        [.readTimers 0 11, .readEvents 0, .readQueue 0] ++ turns 5) = some s ∧
      s.scheduler.finished = [0, 1, 2] ∧ Nothing s := by
  obtain ⟨s, steps, left, finished⟩ := Run.Steps.of_tested step admitted
    (fun t => (∀ w < t.threads, t.pc w = .exited) ∧ t.scheduler.finished = [0, 1, 2])
    (start 1 1 false 1)
    ([.schedule 1 [(some (.cb 7), -1)]] ++ turns 5 ++
      [.timer 0 (.addTimer 0 5 8 false 1), .addEvent 0 (.cb 9), .fiber 0 .finish] ++ turns 12 ++
      [.readTimers 0 2, .listExpired 0 10 1, .scheduleExpired 0, .trigger 0 0, .decrement 0,
        .giveWay 0] ++ turns 9 ++ [.fiber 0 .finish] ++ turns 12 ++
      [.fiber 0 .finish, .setAutoStop, .setStopping] ++ turns 12 ++
      [.readTimers 0 11, .readEvents 0, .readQueue 0] ++ turns 5)
    (by decide +kernel) (by decide +kernel)
  exact ⟨s, steps.run, finished, stop_leaves_nothing steps left⟩

/-- Another thread adds a timer between the first test of `Stopping` and the last one. The
worker leaves, and nobody will look at the timer. -/
theorem timer_lost :
    ∃ s, Run.run step (start 1 1 false 1) (turns 5 ++ [.readTimers 0 1,
        .timer 1 (.addTimer 0 5 7 false 1), .setAutoStop, .setStopping, .readEvents 0,
        .readQueue 0] ++ turns 5) = some s ∧
      (∀ w < s.threads, s.pc w = .exited) ∧ s.timers.timers = [0] := by
  have ends : (Run.run step (start 1 1 false 1) (turns 5 ++ [.readTimers 0 1,
      .timer 1 (.addTimer 0 5 7 false 1), .setAutoStop, .setStopping, .readEvents 0,
      .readQueue 0] ++ turns 5)).any (fun s =>
        decide ((∀ w < s.threads, s.pc w = .exited) ∧ s.timers.timers = [0])) = true := by
    decide +kernel
  obtain ⟨s, ran, lost⟩ := (Option.any_eq_true _ _).mp ends
  exact ⟨s, ran, of_decide_eq_true lost⟩

end ServerFrame.Stop
