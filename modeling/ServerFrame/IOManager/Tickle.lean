import ServerFrame.IOManager.Turns
import ServerFrame.Lib.Run

/-!
# Waking up idle workers

A worker that finds nothing to take goes to sleep in `epoll_wait`, and `IOManager::Tickle` wakes
one up by a byte in a pipe. It writes the byte only if `idle_thread_count_` is not zero, and
`Schedule` calls it only if the queue was empty. The worker counts itself as idle some time
after it has looked at the queue. Here the scheduler is joined with that count, the pipe and the
one report that an edge-triggered `epoll_wait` makes of it. Timers and registered events only
matter as what a woken worker schedules. The pipe never fills up.
-/
namespace ServerFrame.Tickle

open Scheduler

/-- Where a thread stands in `Tickle`. -/
inductive Tickling where
  | out
  /-- Before `HasIdleThreads()`. -/
  | asks
  /-- Before the `write`. -/
  | writes
  deriving DecidableEq, Repr

/-- The threads below `scheduler.threads` are the workers. `counted` tells who has added itself to
`idle_thread_count_`, and `edge` whether bytes have come into the pipe since its last report. -/
structure State where
  scheduler : Scheduler
  idleThreadCount : Nat
  counted : Nat → Bool
  tickling : Nat → Tickling
  phase : Nat → Phase
  pipe : Nat
  edge : Bool

/-- After `Start`. -/
def start (threads : Nat) : State where
  scheduler := .start threads
  idleThreadCount := 0
  counted := fun _ => false
  tickling := fun _ => .out
  phase := fun _ => .head
  pipe := 0
  edge := false

namespace State

def threads (s : State) : Nat := s.scheduler.threads

def pc (s : State) (w : Nat) : Pc := (s.scheduler.workers w).pc

/-- `Tickle()` is called. -/
def call (s : State) (x : Nat) : State :=
  { s with tickling := Function.update s.tickling x .asks }

def goto (s : State) (w : Nat) (phase : Phase) : State :=
  { s with phase := Function.update s.phase w phase }

/-- A step of the scheduler. -/
def lift (s : State) (action : Scheduler.Action) : Option State :=
  (s.scheduler.step action).map fun scheduler => { s with scheduler := scheduler }

/-- Thread `x` executes code of a fiber that is no idle fiber, or is no worker. -/
def acts (s : State) (x : Nat) : Bool :=
  s.tickling x == .out &&
    if x < s.threads then
      match s.pc x with
      | .running j => !j.isIdle
      | _ => false
    else true

/-- Worker `w` executes `Idle`. -/
def idles (s : State) (w : Nat) : Bool :=
  decide (w < s.threads) && s.pc w == .running .idle && s.tickling w == .out

/-- Worker `w` schedules what `epoll_wait` and the timers have brought. -/
def woken (s : State) (w : Nat) : Bool :=
  s.idles w && (s.phase w == .drains || s.phase w == .acts)

/-- `++idle_thread_count_` stands before `SwapIn`, and `--idle_thread_count_` behind it. -/
def ready (s : State) (w : Nat) : Bool :=
  match s.pc w with
  | .swapAssert .idle => s.counted w
  | .readTerm .idle => !s.counted w
  | _ => true

/-- The next step of worker `w` ends with a call of `Tickle`. -/
def callsTickle (s : State) (w : Nat) : Bool :=
  match s.pc w with
  | .top => tickleMe s.scheduler.fibers w s.scheduler.queue
  | .reschedule _ => s.scheduler.queue.isEmpty
  | _ => false

@[simp] theorem tickling_call (s : State) (x : Nat) : (s.call x).tickling x = .asks :=
  Function.update_self ..

theorem tickling_call_of_ne (s : State) {x y : Nat} (other : y ≠ x) :
    (s.call x).tickling y = s.tickling y :=
  Function.update_of_ne other _ _

theorem phase_goto_of_ne (s : State) {w v : Nat} (phase : Phase) (other : v ≠ w) :
    (s.goto w phase).phase v = s.phase v :=
  Function.update_of_ne other _ _

@[simp] theorem phase_goto (s : State) (w : Nat) (phase : Phase) : (s.goto w phase).phase w = phase :=
  Function.update_self ..

end State

/-- What any thread may do. -/
inductive Action where
  | worker (w : Nat)
  | fiber (w : Nat) (choice : Choice)
  | makeFiber
  | schedule (x : Nat) (items : List (Option Work × Int))
  | setAutoStop
  | setStopping
  /-- A call of `Tickle` by `Stop` or by `OnTimerInsertedAtFront`. -/
  | tickle (x : Nat)
  | ask (x : Nat)
  | write (x : Nat)
  | increment (w : Nat)
  | decrement (w : Nat)
  | wait (w : Nat)
  /-- `epoll_wait` returns, with a record of the pipe or without it. -/
  | wake (w : Nat) (reported : Bool)
  /-- One `read` of the loop that empties the pipe. -/
  | drain (w : Nat)
  | giveWay (w : Nat)
  deriving DecidableEq, Repr

open State in
def step (s : State) : Action → Option State
  | .worker w =>
    if s.tickling w = .out ∧ s.ready w then
      (s.lift (.worker w)).map fun s' => if s.callsTickle w then s'.call w else s'
    else none
  | .fiber w choice =>
    -- `Idle` ends at the head of its loop
    if s.acts w ∨ s.idles w ∧ s.phase w = .head ∧ choice = .finish then s.lift (.fiber w choice)
    else none
  | .makeFiber => s.lift .makeFiber
  | .schedule x items =>
    if s.acts x ∨ s.woken x then
      (s.lift (.schedule items)).map fun s' =>
        if s.scheduler.queue.isEmpty && !items.isEmpty then s'.call x else s'
    else none
  | .setAutoStop => s.lift .setAutoStop
  | .setStopping => s.lift .setStopping
  | .tickle x => if s.acts x then some (s.call x) else none
  | .ask x =>
    if s.tickling x = .asks then
      some { s with
        tickling := Function.update s.tickling x (if 0 < s.idleThreadCount then .writes else .out) }
    else none
  | .write x =>
    if s.tickling x = .writes then
      some { s with tickling := Function.update s.tickling x .out, pipe := s.pipe + 1, edge := true }
    else none
  | .increment w =>
    if w < s.threads ∧ s.tickling w = .out ∧ s.pc w = .swapAssert .idle ∧ s.counted w = false then
      some { s with
        idleThreadCount := s.idleThreadCount + 1, counted := Function.update s.counted w true }
    else none
  | .decrement w =>
    if w < s.threads ∧ s.pc w = .readTerm .idle ∧ s.counted w = true then
      some { s with
        idleThreadCount := s.idleThreadCount - 1, counted := Function.update s.counted w false }
    else none
  | .wait w => if s.idles w ∧ s.phase w = .head then some (s.goto w .waits) else none
  | .wake w reported =>
    if s.idles w ∧ s.phase w = .waits then
      if reported then
        if s.edge ∧ 0 < s.pipe then some ({ s with edge := false }.goto w .drains) else none
      else some (s.goto w .acts)
    else none
  | .drain w =>
    if s.idles w ∧ s.phase w = .drains then
      if 0 < s.pipe then some { s with pipe := s.pipe - 256 } else some (s.goto w .acts)
    else none
  -- the `SwapOut` at the end of the loop
  | .giveWay w =>
    if s.idles w ∧ s.phase w = .acts then
      some { s.goto w .head with scheduler := s.scheduler.setPc w (.swapOut .idle) }
    else none

/-! ## Who sleeps and who will look -/

namespace State

def Waiting (s : State) : Prop := ∃ e ∈ s.scheduler.queue, free s.scheduler e = true

def Drowsy (s : State) (w : Nat) : Prop := drowsyAt (s.pc w) (s.phase w) = true

def Alert (s : State) (w : Nat) : Prop := alertAt (s.pc w) (s.phase w) = true

/-- Worker `w` has looked at the queue and has not counted itself. -/
def Uncounted (s : State) (w : Nat) : Prop :=
  s.pc w = .idleTest ∨ s.pc w = .swapAssert .idle ∧ s.counted w = false

/-- Thread `x` is in `Tickle`, and not because of what it found in the queue as it went to sleep. -/
def Calls (s : State) (x : Nat) : Prop :=
  s.tickling x ≠ .out ∧ ¬ (x < s.threads ∧ s.pc x = .idleTest)

/-- The next `epoll_wait` reports the pipe. -/
def Armed (s : State) : Prop := s.edge = true ∧ 0 < s.pipe

/-- Somebody will look at the queue soon. -/
def Roused (s : State) : Prop :=
  s.Armed ∨ (∃ x, s.Calls x) ∨ ∃ w < s.threads, s.Alert w

/-- While a worker sleeps, no task that it may take lies in the queue unnoticed. -/
def Watchful (s : State) : Prop := s.Waiting → (∃ w < s.threads, s.Drowsy w) → s.Roused

end State

/-! ## The invariant -/

/-- A task that any worker may take is put only into an empty queue, or behind such a task, or by
a worker that is awake for it. No `Tickle` finds `idle_thread_count_` at zero while a worker has
looked at the queue and not counted itself. -/
def admitted (s : State) : Action → Prop
  | .schedule x items =>
    ∀ s', step s (.schedule x items) = some s' → s'.Waiting →
      s.woken x = true ∨ s.scheduler.queue = [] ∨ s.Waiting
  | .ask x =>
    0 < s.idleThreadCount ∨ x < s.threads ∧ s.pc x = .idleTest ∨ ∀ w < s.threads, ¬ s.Uncounted w
  | _ => True

instance decidableWaiting (s : State) : Decidable s.Waiting :=
  inferInstanceAs (Decidable (∃ e ∈ s.scheduler.queue, free s.scheduler e = true))

instance decidableUncounted (s : State) (w : Nat) : Decidable (s.Uncounted w) :=
  inferInstanceAs (Decidable (_ ∨ _))

instance decidableAdmitted (s : State) (a : Action) : Decidable (admitted s a) :=
  match a with
  | .schedule x items => decidable_of_iff (∀ s' ∈ step s (.schedule x items), s'.Waiting →
      s.woken x = true ∨ s.scheduler.queue = [] ∨ s.Waiting) Iff.rfl
  | .ask x => inferInstanceAs (Decidable (0 < s.idleThreadCount ∨
      x < s.threads ∧ s.pc x = .idleTest ∨ ∀ w < s.threads, ¬ s.Uncounted w))
  | .worker _ | .fiber _ _ | .makeFiber | .setAutoStop | .setStopping | .tickle _ | .write _
  | .increment _ | .decrement _ | .wait _ | .wake _ _ | .drain _ | .giveWay _ => isTrue trivial

structure Sound (s : State) : Prop where
  known : Known s.scheduler
  watchful : s.Watchful
  count_eq : s.idleThreadCount =
    ((List.range s.threads).filterMap fun w => if s.counted w then some w else none).length
  slept : ∀ w < s.threads, s.Drowsy w → s.Uncounted w ∨ s.counted w = true

section Sound

variable {s s' : State} {w x : Nat}

/-- A state in which no more waits or sleeps than before. -/
theorem State.Watchful.keep (watchful : s.Watchful) (waiting : s'.Waiting → s.Waiting)
    (drowsy : (∃ w < s'.threads, s'.Drowsy w) → ∃ w < s.threads, s.Drowsy w)
    (roused : s.Roused → s'.Roused) : s'.Watchful :=
  fun waits sleeps => roused (watchful (waiting waits) (drowsy sleeps))

theorem lift_eq {action : Scheduler.Action} (stepped : s.lift action = some s') :
    ∃ scheduler, s.scheduler.step action = some scheduler ∧ s' = { s with scheduler := scheduler } := by
  obtain ⟨scheduler, ran, rfl⟩ := Option.map_eq_some_iff.mp stepped
  exact ⟨scheduler, ran, rfl⟩

theorem worker_ran {scheduler scheduler' : Scheduler}
    (ran : scheduler.step (.worker w) = some scheduler') :
    w < scheduler.threads ∧ scheduler.workerStep w = some scheduler' := by
  simp only [Scheduler.step] at ran
  split at ran
  · cases ran
  split at ran
  next bound => exact ⟨bound, ran⟩
  next => cases ran

/-- `s'` differs from `s` in worker `w` of the scheduler, and maybe in a call of `Tickle` by it. -/
structure Moves (s : State) (w : Nat) (s' : State) : Prop where
  moved : Moved s.scheduler w s'.scheduler
  bound : w < s.threads
  out : s.tickling w = .out
  tickling : ∀ x, x ≠ w → s'.tickling x = s.tickling x
  phase : s'.phase = s.phase
  pipe : s'.pipe = s.pipe ∧ s'.edge = s.edge
  count : s'.idleThreadCount = s.idleThreadCount ∧ s'.counted = s.counted

namespace Moves

theorem pc_eq (moves : Moves s w s') {v : Nat} (other : v ≠ w) : s'.pc v = s.pc v :=
  congrArg Worker.pc (moves.moved.others v other)

/-- What others have said and who of the others is awake stays. -/
theorem roused (moves : Moves s w s') (alert : s.Alert w → s'.Alert w) : s.Roused → s'.Roused := by
  rintro (armed | ⟨x, calls⟩ | ⟨v, bound, looks⟩)
  · exact .inl ⟨moves.pipe.2 ▸ armed.1, moves.pipe.1 ▸ armed.2⟩
  · have other : x ≠ w := by
      rintro rfl
      exact calls.1 moves.out
    refine .inr (.inl ⟨x, ?_, ?_⟩)
    · rw [moves.tickling x other]
      exact calls.1
    · rw [moves.pc_eq other, State.threads, moves.moved.threads_eq]
      exact calls.2
  · refine .inr (.inr ⟨v, by rw [State.threads, moves.moved.threads_eq]; exact bound, ?_⟩)
    by_cases same : v = w
    · subst same
      exact alert looks
    · rw [State.Alert, moves.pc_eq same, moves.phase]
      exact looks

theorem roused_of_alert (moves : Moves s w s') (alert : s'.Alert w) : s'.Roused :=
  .inr (.inr ⟨w, by rw [State.threads, moves.moved.threads_eq]; exact moves.bound, alert⟩)

theorem drowsy (moves : Moves s w s') (mine : s'.Drowsy w → s.Drowsy w) :
    (∃ v < s'.threads, s'.Drowsy v) → ∃ v < s.threads, s.Drowsy v := by
  rintro ⟨v, bound, sleeps⟩
  rw [State.threads, moves.moved.threads_eq] at bound
  refine ⟨v, bound, ?_⟩
  by_cases same : v = w
  · subst same
    exact mine sleeps
  · rw [State.Drowsy, moves.pc_eq same, moves.phase] at sleeps
    exact sleeps

/-- The rest of the invariant. -/
theorem sound (moves : Moves s w s') (sound : Sound s) (known : Known s'.scheduler)
    (watchful : s'.Watchful) (slept : s'.Drowsy w → s'.Uncounted w ∨ s'.counted w = true) : Sound s' := by
  refine ⟨known, watchful, ?_, fun v bound sleeps => ?_⟩
  · rw [moves.count.1, moves.count.2, State.threads, moves.moved.threads_eq]
    exact sound.count_eq
  · rw [State.threads, moves.moved.threads_eq] at bound
    by_cases same : v = w
    · subst same
      exact slept sleeps
    · rw [State.Drowsy, moves.pc_eq same, moves.phase] at sleeps
      rw [State.Uncounted, moves.pc_eq same, moves.count.2]
      exact sound.slept v bound sleeps

end Moves

theorem sound_worker (sound : Sound s) (stepped : step s (.worker w) = some s') : Sound s' := by
  simp only [step] at stepped
  split at stepped
  next free_ =>
    obtain ⟨out, ready⟩ := free_
    obtain ⟨t, lifted, s'_eq⟩ := Option.map_eq_some_iff.mp stepped
    obtain ⟨scheduler, ran, rfl⟩ := lift_eq lifted
    obtain ⟨bound, ran⟩ := worker_ran ran
    have moved := (workerStep_effect ran).1
    have scheduler_eq : s'.scheduler = scheduler := by
      rw [← s'_eq]
      split <;> rfl
    have phase_eq : s'.phase = s.phase := by
      rw [← s'_eq]
      split <;> rfl
    have moves : Moves s w s' := by
      refine ⟨scheduler_eq ▸ moved, bound, out, fun x other => ?_, phase_eq, ?_, ?_⟩
      · rw [← s'_eq]
        split
        · exact Function.update_of_ne other _ _
        · rfl
      · rw [← s'_eq]
        split <;> exact ⟨rfl, rfl⟩
      · rw [← s'_eq]
        split <;> exact ⟨rfl, rfl⟩
    have turn : Turn s.scheduler w (s.phase w) s'.scheduler := by
      rw [scheduler_eq]
      exact turn_workerStep sound.known ran
    have known : Known s'.scheduler := by
      rw [scheduler_eq] at turn ⊢
      exact sound.known.moved (names_workerStep ran) moved turn.queued
    cases turn with
    | looks alert queue_eq =>
      have awake : s'.Alert w := by rw [State.Alert, phase_eq]; exact alert
      exact moves.sound sound known (fun _ _ => moves.roused_of_alert awake) fun sleeps =>
        absurd (not_drowsy_of_alert awake) (by rw [sleeps]; decide)
    | pushes f j at_ is alert queue_eq =>
      have awake : s'.Alert w := by rw [State.Alert, phase_eq]; exact alert
      exact moves.sound sound known (fun _ _ => moves.roused_of_alert awake) fun sleeps =>
        absurd (not_drowsy_of_alert awake) (by rw [sleeps]; decide)
    | goesOn before queue_eq frees drowsy =>
      have slept : s'.Drowsy w → s.Drowsy w ∧ (s'.pc w = .swapAssert .idle ∨ s.pc w ≠ .idleTest) := by
        intro sleeps
        rw [State.Drowsy, phase_eq] at sleeps
        exact drowsy sleeps
      refine moves.sound sound known (sound.watchful.keep ?_ (moves.drowsy fun sleeps => (slept sleeps).1)
        (moves.roused fun alert => absurd alert (by rw [State.Alert, State.pc, before]; decide)))
        fun sleeps => ?_
      · rintro ⟨e, member, is_free⟩
        rw [queue_eq] at member
        exact ⟨e, member, frees e member is_free⟩
      · -- the test before `SwapIn` of the idle fiber asks for the count
        obtain ⟨slept_before, place⟩ := slept sleeps
        rcases place with at_ | looked
        · cases counts : s'.counted w with
          | true => exact .inr rfl
          | false => exact .inl (.inr ⟨at_, counts⟩)
        · rcases sound.slept w bound slept_before with uncounted | counted
          · rcases uncounted with test | ⟨at_, uncounted⟩
            · exact absurd test looked
            · rw [State.ready, at_] at ready
              exact absurd ready (by rw [uncounted]; decide)
          · exact .inr (by rw [moves.count.2]; exact counted)
    | takes e left at_ found queue_eq fibers_eq drowsy =>
      have awake : ¬ s'.Drowsy w := by
        rw [State.Drowsy, phase_eq, State.pc, drowsy]
        decide
      refine moves.sound sound known (fun waits _ => ?_) fun sleeps => absurd sleeps awake
      obtain ⟨e', member, is_free⟩ := waits
      rw [queue_eq] at member
      rw [free_congr fibers_eq] at is_free
      have calls : s.callsTickle w = true := by
        have top : s.pc w = .top := at_
        rw [State.callsTickle, top]
        exact tickleMe_of_left found member is_free
      refine .inr (.inl ⟨w, ?_, ?_⟩)
      · rw [← s'_eq, if_pos calls, State.tickling_call]
        decide
      · rintro ⟨-, test⟩
        rw [State.Drowsy, test] at awake
        exact awake rfl
    | sleeps at_ none_ queue_eq fibers_eq sleeps =>
      refine moves.sound sound known (fun waits _ => ?_) fun _ => .inl (.inl sleeps)
      obtain ⟨e, member, is_free⟩ := waits
      rw [queue_eq] at member
      rw [free_congr fibers_eq] at is_free
      have skipped := skips_of_scan_none none_ e member
      rw [not_skipped is_free] at skipped
      cases skipped
  next => cases stepped

/-- The code of a fiber leaves the queue and the fibers alone. -/
theorem fiberStep_quiet {s s' : Scheduler} {j : Job} {choice : Choice} (at_ : (s.workers w).pc = .running j)
    (stepped : s.fiberStep w j choice = some s') (own : choice ≠ .swapOut) :
    s'.queue = s.queue ∧ s'.fibers = s.fibers ∧ Names s w s' ∧
      ((s'.workers w).pc = .running j ∧ j ≠ .idle ∨ ∀ phase, drowsyAt (s'.workers w).pc phase = false) := by
  have same : names (s.workers w).pc = names (.running j) := by rw [at_]
  cases choice with
  | swapOut => exact absurd rfl own
  | register =>
    cases j with
    | idle => cases stepped
    | _ =>
      cases stepped
      exact ⟨rfl, rfl, ⟨Nat.le_refl _, fun _ => .inl, fun _ => .inl⟩, .inl ⟨at_, nofun⟩⟩
  | _ =>
    simp only [fiberStep] at stepped
    split at stepped <;> cases stepped
    all_goals exact ⟨rfl, rfl, .to (.inr same.symm) rfl (.inl rfl), .inr fun _ => by rw [pc_setPc]; rfl⟩

theorem sound_fiber {choice : Choice} (sound : Sound s) (stepped : step s (.fiber w choice) = some s') :
    Sound s' := by
  simp only [step] at stepped
  split at stepped
  next free_ =>
    obtain ⟨scheduler, ran, rfl⟩ := lift_eq stepped
    simp only [Scheduler.step] at ran
    split at ran
    · cases ran
    split at ran
    next bound =>
      split at ran
      next j at_ =>
        have running : s.pc w = .running j := at_
        obtain ⟨out, own, not_alert⟩ :
            s.tickling w = .out ∧ choice ≠ .swapOut ∧ alertAt (.running j) (s.phase w) = false := by
          rcases free_ with acts | ⟨idles, head, rfl⟩
          · have bound' : w < s.threads := bound
            simp only [State.acts, if_pos bound', running, Bool.and_eq_true, beq_iff_eq,
              Bool.not_eq_true'] at acts
            refine ⟨acts.1, ?_, ?_⟩
            · rintro rfl
              simp [fiberStep, acts.2] at ran
            · cases j with
              | idle => cases acts.2
              | _ => rfl
          · simp only [State.idles, running, Bool.and_eq_true, beq_iff_eq] at idles
            refine ⟨idles.2, (fun swaps => by cases swaps), ?_⟩
            rw [head]
            cases j <;> rfl
        obtain ⟨queue_eq, fibers_eq, named, place⟩ := fiberStep_quiet at_ ran own
        have moved := (fiberStep_effect at_ ran).1
        have moves : Moves s w { s with scheduler := scheduler } :=
          ⟨moved, bound, out, fun _ _ => rfl, rfl, ⟨rfl, rfl⟩, ⟨rfl, rfl⟩⟩
        have awake : ¬ { s with scheduler := scheduler }.Drowsy w := by
          rw [State.Drowsy, State.pc]
          rcases place with ⟨still, busy⟩ | awake
          · dsimp only
            rw [still]
            cases j with
            | idle => exact absurd rfl busy
            | _ => exact Bool.false_ne_true
          · rw [awake]
            decide
        refine moves.sound sound (sound.known.moved named moved fun e member => .inl (queue_eq ▸ member))
          (sound.watchful.keep ?_ (moves.drowsy fun sleeps => absurd sleeps awake)
          (moves.roused fun alert => absurd alert (by rw [State.Alert, running, not_alert]; decide)))
          fun sleeps => absurd sleeps awake
        rintro ⟨e, member, is_free⟩
        dsimp only at member is_free
        rw [queue_eq] at member
        rw [free_congr fibers_eq] at is_free
        exact ⟨e, member, is_free⟩
      next => cases ran
    next => cases ran
  next => cases stepped

/-- An action of the scheduler that moves no worker. -/
theorem sound_quiet {scheduler : Scheduler} (sound : Sound s)
    (workers_eq : scheduler.workers = s.scheduler.workers)
    (threads_eq : scheduler.threads = s.scheduler.threads) (known : Known scheduler)
    (watchful : { s with scheduler := scheduler }.Watchful) :
    Sound { s with scheduler := scheduler } := by
  refine ⟨known, watchful, ?_, fun v bound sleeps => ?_⟩
  · have count_eq := sound.count_eq
    rwa [State.threads, ← threads_eq] at count_eq
  · rw [State.threads, threads_eq] at bound
    rw [State.Drowsy, State.pc, workers_eq] at sleeps
    rw [State.Uncounted, State.pc, workers_eq]
    exact sound.slept v bound sleeps

theorem roused_quiet {scheduler : Scheduler} (workers_eq : scheduler.workers = s.scheduler.workers)
    (threads_eq : scheduler.threads = s.scheduler.threads) :
    ({ s with scheduler := scheduler }.Roused ↔ s.Roused) ∧
      ((∃ v < { s with scheduler := scheduler }.threads, { s with scheduler := scheduler }.Drowsy v) ↔
        ∃ v < s.threads, s.Drowsy v) := by
  simp only [State.Roused, State.Armed, State.Calls, State.Alert, State.Drowsy, State.threads, State.pc,
    workers_eq, threads_eq, and_self]

theorem known_schedule {scheduler : Scheduler} (items : List (Option Work × Int)) (known : Known scheduler)
    (fits : items.all scheduler.knows = true) :
    Known (scheduler.schedule items) ∧ (scheduler.schedule items).workers = scheduler.workers ∧
      (scheduler.schedule items).threads = scheduler.threads := by
  induction items generalizing scheduler with
  | nil => exact ⟨known, rfl, rfl⟩
  | cons item items ih =>
    obtain ⟨work, thread⟩ := item
    rw [List.all_cons, Bool.and_eq_true] at fits
    cases work with
    | none => exact ih known fits.2
    | some work =>
      refine ih ⟨fun e member f is => ?_, known.named, known.kept⟩ fits.2
      rcases List.mem_append.mp member with before | new
      · exact known.queued e before f is
      · rw [List.mem_singleton] at new
        rw [new] at is
        cases is
        exact of_decide_eq_true fits.1

theorem roused_call (out : s.tickling x = .out) : s.Roused → (s.call x).Roused := by
  rintro (armed | ⟨y, calls⟩ | alert)
  · exact .inl armed
  · have other : y ≠ x := by
      rintro rfl
      exact calls.1 out
    exact .inr (.inl ⟨y, by rw [State.tickling_call_of_ne s other]; exact calls.1, calls.2⟩)
  · exact .inr (.inr alert)

/-- A thread that executes its own code, or what it was woken for. -/
theorem out_of_acts (free_ : s.acts x = true ∨ s.woken x = true) :
    s.tickling x = .out ∧ ¬ (x < s.threads ∧ s.pc x = .idleTest) := by
  rcases free_ with acts | woken
  · simp only [State.acts, Bool.and_eq_true, beq_iff_eq] at acts
    refine ⟨acts.1, fun ⟨bound, test⟩ => ?_⟩
    have code := acts.2
    rw [if_pos bound, test] at code
    cases code
  · simp only [State.woken, State.idles, Bool.and_eq_true, beq_iff_eq] at woken
    refine ⟨woken.1.2, fun ⟨_, test⟩ => ?_⟩
    rw [woken.1.1.2] at test
    cases test

theorem roused_of_woken (woken : s.woken w = true) : s.Roused := by
  simp only [State.woken, State.idles, Bool.and_eq_true, beq_iff_eq, decide_eq_true_eq] at woken
  obtain ⟨⟨⟨bound, running⟩, -⟩, phase⟩ := woken
  refine .inr (.inr ⟨w, bound, ?_⟩)
  rw [State.Alert, running]
  exact phase

theorem sound_schedule {items : List (Option Work × Int)} (sound : Sound s)
    (allowed : admitted s (.schedule x items)) (stepped : step s (.schedule x items) = some s') :
    Sound s' := by
  have condition := allowed s' stepped
  simp only [step] at stepped
  split at stepped
  next free_ =>
    obtain ⟨out, elsewhere⟩ := out_of_acts free_
    obtain ⟨t, lifted, s'_eq⟩ := Option.map_eq_some_iff.mp stepped
    obtain ⟨scheduler, ran, rfl⟩ := lift_eq lifted
    simp only [Scheduler.step] at ran
    split at ran
    · cases ran
    split at ran
    next fits =>
      cases ran
      obtain ⟨known, workers_eq, threads_eq⟩ := known_schedule items sound.known fits
      obtain ⟨roused, drowsy⟩ := roused_quiet (s := s) workers_eq threads_eq
      have kept : s.Roused → s'.Roused := by
        intro before
        rw [← s'_eq]
        split
        · exact roused_call out (roused.mpr before)
        · exact roused.mpr before
      have watchful : s'.Watchful := by
        intro waits sleeps
        rcases condition waits with woken | empty | before
        · exact kept (roused_of_woken woken)
        · -- the first tasks of an empty queue
          have called : s'.Calls x := by
            cases items with
            | nil =>
              rw [← s'_eq] at waits
              obtain ⟨e, member, -⟩ := waits
              simp [Scheduler.schedule, empty] at member
            | cons item items =>
              rw [← s'_eq, if_pos (by simp [empty])]
              refine ⟨by rw [State.tickling_call]; decide, ?_⟩
              simpa only [State.call, State.threads, State.pc, workers_eq, threads_eq] using elsewhere
          exact .inr (.inl ⟨x, called⟩)
        · refine kept (sound.watchful before (drowsy.mp ?_))
          rw [← s'_eq] at sleeps
          split at sleeps <;> exact sleeps
      have plain : Known s'.scheduler ∧ s'.idleThreadCount = s.idleThreadCount ∧ s'.counted = s.counted ∧
          s'.phase = s.phase ∧ s'.scheduler = s.scheduler.schedule items := by
        rw [← s'_eq]
        split <;> exact ⟨known, rfl, rfl, rfl, rfl⟩
      obtain ⟨known', count_eq, counted_eq, phase_eq, scheduler_eq⟩ := plain
      refine ⟨known', watchful, ?_, fun v bound sleeps => ?_⟩
      · rw [count_eq, counted_eq, State.threads, scheduler_eq, threads_eq]
        exact sound.count_eq
      · rw [State.threads, scheduler_eq, threads_eq] at bound
        rw [State.Drowsy, State.pc, scheduler_eq, workers_eq, phase_eq] at sleeps
        rw [State.Uncounted, State.pc, scheduler_eq, workers_eq, counted_eq]
        exact sound.slept v bound sleeps
    next => cases ran
  next => cases stepped

/-- Nobody sleeps uncounted where `idle_thread_count_` is zero. -/
theorem Sound.none_drowsy (sound : Sound s) (zero : s.idleThreadCount = 0)
    (all_counted : ∀ w < s.threads, ¬ s.Uncounted w) : ¬ ∃ w < s.threads, s.Drowsy w := by
  rintro ⟨w, bound, sleeps⟩
  have none_ := sound.count_eq.symm.trans zero
  rw [List.length_eq_zero_iff, List.filterMap_eq_nil_iff] at none_
  rcases sound.slept w bound sleeps with uncounted | counted
  · exact all_counted w bound uncounted
  · have out := none_ w (List.mem_range.mpr bound)
    rw [if_pos counted] at out
    cases out

theorem sound_ask (sound : Sound s) (allowed : admitted s (.ask x)) (stepped : step s (.ask x) = some s') :
    Sound s' := by
  simp only [step] at stepped
  split at stepped
  next asks =>
    cases stepped
    refine ⟨sound.known, fun waits sleeps => ?_, sound.count_eq, sound.slept⟩
    have others : ∀ y, y ≠ x → s.Calls y → State.Calls { s with
        tickling := Function.update s.tickling x (if 0 < s.idleThreadCount then .writes else .out) } y :=
      fun y other calls => ⟨by dsimp only; rw [Function.update_of_ne other]; exact calls.1, calls.2⟩
    by_cases positive : 0 < s.idleThreadCount
    · -- the byte will be written
      rcases sound.watchful waits sleeps with armed | ⟨y, calls⟩ | alert
      · exact .inl armed
      · refine .inr (.inl ⟨y, ?_⟩)
        by_cases same : y = x
        · subst same
          refine ⟨?_, calls.2⟩
          dsimp only
          rw [Function.update_self, if_pos positive]
          decide
        · exact others y same calls
      · exact .inr (.inr alert)
    · rcases allowed with more | ⟨bound, test⟩ | all_counted
      · exact absurd more positive
      · rcases sound.watchful waits sleeps with armed | ⟨y, calls⟩ | alert
        · exact .inl armed
        · have other : y ≠ x := by
            rintro rfl
            exact calls.2 ⟨bound, test⟩
          exact .inr (.inl ⟨y, others y other calls⟩)
        · exact .inr (.inr alert)
      · exact absurd sleeps (sound.none_drowsy (by omega) all_counted)
  next => cases stepped

theorem length_counted {n : Nat} {c c' : Nat → Bool} (bound : w < n) (same : ∀ v, v ≠ w → c' v = c v) :
    ((List.range n).filterMap fun v => if c' v then some v else none).length + (if c w then 1 else 0) =
      ((List.range n).filterMap fun v => if c v then some v else none).length + (if c' w then 1 else 0) := by
  have others : ∀ v, v ≠ w → (fun v => if c' v then some v else none) v =
      (fun v => if c v then some v else none) v := by
    intro v other
    simp only [same v other]
  have changed := (Family.filterMap_change bound others).length_eq
  simp only [List.length_append] at changed
  cases old : c w <;> cases new : c' w <;> simpa [old, new] using changed

theorem sound_increment (sound : Sound s) (stepped : step s (.increment w) = some s') : Sound s' := by
  simp only [step] at stepped
  split at stepped
  next here =>
    cases stepped
    obtain ⟨bound, -, at_, uncounted⟩ := here
    refine ⟨sound.known, sound.watchful, ?_, fun v inside sleeps => ?_⟩
    · have others : ∀ v, v ≠ w → Function.update s.counted w true v = s.counted v :=
        fun v other => Function.update_of_ne other _ _
      have changed := length_counted bound others
      rw [uncounted, Function.update_self, if_neg Bool.false_ne_true, if_pos rfl] at changed
      have count_eq := sound.count_eq
      dsimp only
      rw [count_eq]
      exact changed.symm
    · by_cases same : v = w
      · subst same
        exact .inr (Function.update_self ..)
      · dsimp only [State.Uncounted]
        rw [Function.update_of_ne same]
        exact sound.slept v inside sleeps
  next => cases stepped

theorem sound_decrement (sound : Sound s) (stepped : step s (.decrement w) = some s') : Sound s' := by
  simp only [step] at stepped
  split at stepped
  next here =>
    cases stepped
    obtain ⟨bound, at_, counted⟩ := here
    refine ⟨sound.known, sound.watchful, ?_, fun v inside sleeps => ?_⟩
    · have others : ∀ v, v ≠ w → Function.update s.counted w false v = s.counted v :=
        fun v other => Function.update_of_ne other _ _
      have changed := length_counted bound others
      rw [counted, Function.update_self, if_neg Bool.false_ne_true, if_pos rfl] at changed
      have count_eq := sound.count_eq
      dsimp only [State.threads] at changed count_eq ⊢
      omega
    · by_cases same : v = w
      · subst same
        have at_' : s.pc v = .readTerm .idle := at_
        have awake : s.Drowsy v := sleeps
        rw [State.Drowsy, at_'] at awake
        cases awake
      · dsimp only [State.Uncounted]
        rw [Function.update_of_ne same]
        exact sound.slept v inside sleeps
  next => cases stepped

/-- A worker goes on in `Idle`. -/
theorem sound_goto {phase : Phase} {pipe : Nat} {edge : Bool} (sound : Sound s) (idles : s.idles w = true)
    (roused : s.Roused → { s.goto w phase with pipe := pipe, edge := edge }.Roused)
    (sleeps : drowsyAt (.running .idle) phase = true → drowsyAt (.running .idle) (s.phase w) = true) :
    Sound { s.goto w phase with pipe := pipe, edge := edge } := by
  simp only [State.idles, Bool.and_eq_true, beq_iff_eq, decide_eq_true_eq] at idles
  have drowsy : ∀ v, State.Drowsy { s.goto w phase with pipe := pipe, edge := edge } v → s.Drowsy v := by
    intro v slept
    by_cases same : v = w
    · subst same
      have slept' : drowsyAt (s.pc v) ((s.goto v phase).phase v) = true := slept
      rw [State.phase_goto, idles.1.2] at slept'
      rw [State.Drowsy, idles.1.2]
      exact sleeps slept'
    · have slept' : drowsyAt (s.pc v) ((s.goto w phase).phase v) = true := slept
      rwa [State.phase_goto_of_ne s phase same] at slept'
  exact ⟨sound.known, sound.watchful.keep id (fun ⟨v, bound, slept⟩ => ⟨v, bound, drowsy v slept⟩) roused,
    sound.count_eq, fun v bound slept => sound.slept v bound (drowsy v slept)⟩

/-- Behind `epoll_wait` a worker is awake. -/
theorem roused_of_phase {t : State} (idles : s.idles w = true)
    (scheduler_eq : t.scheduler = s.scheduler) (phase : t.phase w = .drains ∨ t.phase w = .acts) :
    t.Roused := by
  simp only [State.idles, Bool.and_eq_true, beq_iff_eq, decide_eq_true_eq] at idles
  have running : t.pc w = .running .idle := by
    rw [State.pc, scheduler_eq]
    exact idles.1.2
  refine .inr (.inr ⟨w, by rw [State.threads, scheduler_eq]; exact idles.1.1, ?_⟩)
  rw [State.Alert, running]
  rcases phase with drains | acts
  · rw [drains]
    rfl
  · rw [acts]
    rfl

/-- Bytes come into the pipe or leave it. -/
theorem sound_pipe {pipe : Nat} {edge : Bool} (sound : Sound s)
    (roused : { s with pipe := pipe, edge := edge }.Roused) : Sound { s with pipe := pipe, edge := edge } :=
  ⟨sound.known, fun _ _ => roused, sound.count_eq, sound.slept⟩

theorem sound_wait (sound : Sound s) (stepped : step s (.wait w) = some s') : Sound s' := by
  simp only [step] at stepped
  split at stepped
  next here =>
    cases stepped
    obtain ⟨idles, head⟩ := here
    refine sound_goto sound idles (fun roused => ?_)
      fun _ => by rw [head]; rfl
    rcases roused with armed | calls | ⟨v, bound, alert⟩
    · exact .inl armed
    · exact .inr (.inl calls)
    · refine .inr (.inr ⟨v, bound, ?_⟩)
      by_cases same : v = w
      · subst same
        simp only [State.idles, Bool.and_eq_true, beq_iff_eq] at idles
        rw [State.Alert, idles.1.2, head] at alert
        cases alert
      · have kept := State.phase_goto_of_ne s .waits same
        show alertAt (s.pc v) ((s.goto w .waits).phase v) = true
        rw [kept]
        exact alert
  next => cases stepped

theorem sound_wake {reported : Bool} (sound : Sound s) (stepped : step s (.wake w reported) = some s') :
    Sound s' := by
  simp only [step] at stepped
  split at stepped
  next here =>
    split at stepped
    · split at stepped
      · cases stepped
        exact sound_goto sound here.1
          (fun _ => roused_of_phase here.1 rfl (.inl (State.phase_goto ..))) nofun
      · cases stepped
    · cases stepped
      exact sound_goto sound here.1
        (fun _ => roused_of_phase here.1 rfl (.inr (State.phase_goto ..))) nofun
  next => cases stepped

theorem sound_drain (sound : Sound s) (stepped : step s (.drain w) = some s') : Sound s' := by
  simp only [step] at stepped
  split at stepped
  next here =>
    split at stepped
    · cases stepped
      exact sound_pipe sound (roused_of_phase here.1 rfl (.inl here.2))
    · cases stepped
      exact sound_goto sound here.1
        (fun _ => roused_of_phase here.1 rfl (.inr (State.phase_goto ..))) nofun
  next => cases stepped

theorem sound_giveWay (sound : Sound s) (stepped : step s (.giveWay w) = some s') : Sound s' := by
  simp only [step] at stepped
  split at stepped
  next here =>
    cases stepped
    obtain ⟨idles, acts⟩ := here
    simp only [State.idles, Bool.and_eq_true, beq_iff_eq, decide_eq_true_eq] at idles
    obtain ⟨⟨bound, running⟩, -⟩ := idles
    have at_ : (s.scheduler.workers w).pc = .running .idle := running
    have named : Names s.scheduler w (s.scheduler.setPc w (.swapOut .idle)) := .to (.inl rfl) rfl (.inl rfl)
    have moved : Moved s.scheduler w (s.scheduler.setPc w (.swapOut .idle)) :=
      ⟨rfl, fun v other => workers_setPc_of_ne _ _ _ _ other, by rw [pc_setPc]; nofun⟩
    have known : Known (s.scheduler.setPc w (.swapOut .idle)) :=
      sound.known.moved named moved fun e member => .inl member
    have pc_eq : ∀ v, v ≠ w →
        State.pc { s.goto w .head with scheduler := s.scheduler.setPc w (.swapOut .idle) } v = s.pc v :=
      fun v other => congrArg Worker.pc (moved.others v other)
    have mine : State.pc { s.goto w .head with scheduler := s.scheduler.setPc w (.swapOut .idle) } w =
        .swapOut .idle := pc_setPc ..
    refine ⟨known, fun _ _ => .inr (.inr ⟨w, bound, ?_⟩),
      sound.count_eq, fun v inside sleeps => ?_⟩
    · rw [State.Alert, mine]
      rfl
    · by_cases same : v = w
      · subst same
        rw [State.Drowsy, mine] at sleeps
        cases sleeps
      · rw [State.Drowsy, pc_eq v same] at sleeps
        dsimp only at sleeps
        rw [State.phase_goto_of_ne s .head same] at sleeps
        rw [State.Uncounted, pc_eq v same]
        exact sound.slept v inside sleeps
  next => cases stepped

theorem sound_makeFiber (sound : Sound s) (stepped : step s .makeFiber = some s') : Sound s' := by
  obtain ⟨scheduler, ran, rfl⟩ := lift_eq stepped
  simp only [Scheduler.step] at ran
  split at ran
  · cases ran
  cases ran
  have known : Known ({ s.scheduler with fiberCount := s.scheduler.fiberCount + 1 }.setFiber
      s.scheduler.fiberCount .new) :=
    ⟨fun e member f is => Nat.lt_succ_of_lt (sound.known.queued e member f is),
      fun v f is => Nat.lt_succ_of_lt (sound.known.named v f is),
      fun v f is => Nat.lt_succ_of_lt (sound.known.kept v f is)⟩
  obtain ⟨roused, drowsy⟩ := roused_quiet (s := s) rfl rfl
  refine sound_quiet sound rfl rfl known (sound.watchful.keep ?_ drowsy.mp roused.mpr)
  rintro ⟨⟨id, work, thread⟩, member, is_free⟩
  refine ⟨⟨id, work, thread⟩, member, ?_⟩
  cases work with
  | cb g => exact is_free
  | fiber g =>
    have other : g ≠ s.scheduler.fiberCount := Nat.ne_of_lt (sound.known.queued _ member g rfl)
    simpa [free, entryState, stateOf, setFiber, Function.update_of_ne other] using is_free

theorem sound_flag {scheduler : Scheduler} (sound : Sound s)
    (same : (scheduler.workers, scheduler.threads, scheduler.queue, scheduler.fibers, scheduler.fiberCount) =
      (s.scheduler.workers, s.scheduler.threads, s.scheduler.queue, s.scheduler.fibers,
        s.scheduler.fiberCount)) : Sound { s with scheduler := scheduler } := by
  simp only [Prod.mk.injEq] at same
  obtain ⟨workers_eq, threads_eq, queue_eq, fibers_eq, count_eq⟩ := same
  obtain ⟨roused, drowsy⟩ := roused_quiet (s := s) workers_eq threads_eq
  have known : Known scheduler := by
    refine ⟨?_, ?_, ?_⟩
    · rw [queue_eq, count_eq]
      exact sound.known.queued
    · rw [workers_eq, count_eq]
      exact sound.known.named
    · rw [workers_eq, count_eq]
      exact sound.known.kept
  refine sound_quiet sound workers_eq threads_eq known (sound.watchful.keep ?_ drowsy.mp roused.mpr)
  rintro ⟨e, member, is_free⟩
  exact ⟨e, queue_eq ▸ member, by rwa [free_congr fibers_eq] at is_free⟩

end Sound

/-- Every admitted step keeps the invariant. -/
theorem sound_step {s s' : State} {a : Action} (sound : Sound s) (allowed : admitted s a)
    (stepped : step s a = some s') : Sound s' := by
  cases a with
  | worker w => exact sound_worker sound stepped
  | fiber w choice => exact sound_fiber sound stepped
  | makeFiber => exact sound_makeFiber sound stepped
  | schedule x items => exact sound_schedule sound allowed stepped
  | setAutoStop =>
    obtain ⟨scheduler, ran, rfl⟩ := lift_eq stepped
    simp only [Scheduler.step] at ran
    split at ran <;> cases ran
    exact sound_flag sound rfl
  | setStopping =>
    obtain ⟨scheduler, ran, rfl⟩ := lift_eq stepped
    simp only [Scheduler.step] at ran
    split at ran <;> cases ran
    exact sound_flag sound rfl
  | tickle x =>
    simp only [step] at stepped
    split at stepped
    next acts =>
      cases stepped
      exact ⟨sound.known, sound.watchful.keep id id (roused_call (out_of_acts (.inl acts)).1),
        sound.count_eq, sound.slept⟩
    next => cases stepped
  | ask x => exact sound_ask sound allowed stepped
  | write x =>
    simp only [step] at stepped
    split at stepped
    · cases stepped
      exact ⟨sound.known, fun _ _ => .inl ⟨rfl, Nat.succ_pos _⟩, sound.count_eq, sound.slept⟩
    · cases stepped
  | increment w => exact sound_increment sound stepped
  | decrement w => exact sound_decrement sound stepped
  | wait w => exact sound_wait sound stepped
  | wake w reported => exact sound_wake sound stepped
  | drain w => exact sound_drain sound stepped
  | giveWay w => exact sound_giveWay sound stepped

theorem sound_start (threads : Nat) : Sound (start threads) := by
  refine ⟨⟨nofun, nofun, nofun⟩, ?_, ?_, nofun⟩
  · rintro ⟨e, member, -⟩
    cases member
  · simp [start]

/-- **No wake-up is lost** outside of the two gaps that `admitted` names: along every interleaving
of any number of workers and other threads, while a worker sleeps and a task that any worker may
take is in the queue, the pipe will be reported, a thread is about to write to it, or a worker
looks at the queue before it runs a task or sleeps. When all is still, the `epoll_wait` of any
sleeping worker returns. -/
theorem no_wakeup_lost {threads : Nat} {actions : List Action} {s : State}
    (steps : Run.Steps step admitted (start threads) actions s) :
    s.Watchful ∧
    ∀ w, s.idles w = true → s.phase w = .waits → s.Waiting → (∀ x, s.tickling x = .out) →
      (∀ v < s.threads, ¬ s.Alert v) → (step s (.wake w true)).isSome := by
  have sound : Sound s :=
    steps.invariant (fun _ _ _ sound allowed stepped => sound_step sound allowed stepped)
      (sound_start threads)
  refine ⟨sound.watchful, fun w idles waits task nobody asleep => ?_⟩
  have place := idles
  simp only [State.idles, Bool.and_eq_true, beq_iff_eq, decide_eq_true_eq] at place
  obtain ⟨⟨bound, running⟩, -⟩ := place
  have sleeps : s.Drowsy w := by
    rw [State.Drowsy, running, waits]
    rfl
  rcases sound.watchful task ⟨w, bound, sleeps⟩ with armed | ⟨x, calls⟩ | ⟨v, inside, alert⟩
  · have reported : s.edge = true ∧ 0 < s.pipe := armed
    simp only [step, if_pos (And.intro idles waits), if_true, if_pos reported, Option.isSome_some]
  · exact absurd (nobody x) calls.1
  · exact absurd alert (asleep v inside)

/-- Worker `w` finds nothing and goes to sleep. -/
def fallsAsleep (w : Nat) : List Action :=
  [.worker w, .worker w, .increment w, .worker w, .worker w, .worker w, .wait w]

/-- A task comes while the only worker sleeps. -/
theorem no_wakeup_lost_asleep :
    ∃ s, Run.run step (start 1) (fallsAsleep 0 ++ [.schedule 1 [(some (.cb 7), -1)], .ask 1, .write 1]) =
        some s ∧
      s.Waiting ∧ s.Watchful := by
  obtain ⟨s, steps, waits⟩ := Run.Steps.of_tested step admitted (fun t => t.Waiting) (start 1)
    (fallsAsleep 0 ++ [.schedule 1 [(some (.cb 7), -1)], .ask 1, .write 1])
    (by decide +kernel) (by decide +kernel)
  exact ⟨s, steps.run, waits, (no_wakeup_lost steps).1⟩

/-- A task comes when the only worker has found nothing and has not counted itself. `Tickle` sees no
idle thread, and the worker goes to sleep beside the task. -/
theorem lost_before_count :
    ∃ s, Run.run step (start 1) ([.worker 0, .schedule 1 [(some (.cb 7), -1)], .ask 1, .worker 0,
        .increment 0, .worker 0, .worker 0, .worker 0, .wait 0]) = some s ∧
      s.Waiting ∧ s.phase 0 = .waits ∧ s.pipe = 0 ∧ s.tickling 0 = .out ∧ s.tickling 1 = .out := by
  have ends : (Run.run step (start 1) ([.worker 0, .schedule 1 [(some (.cb 7), -1)], .ask 1, .worker 0,
      .increment 0, .worker 0, .worker 0, .worker 0, .wait 0])).any (fun s => decide (s.Waiting ∧
        s.phase 0 = .waits ∧ s.pipe = 0 ∧ s.tickling 0 = .out ∧ s.tickling 1 = .out)) = true := by
    decide +kernel
  obtain ⟨s, ran, lost⟩ := (Option.any_eq_true _ _).mp ends
  exact ⟨s, ran, of_decide_eq_true lost⟩

/-- Worker 0 is busy and worker 1 sleeps. A task for worker 0 wakes worker 1 in vain, and the next
task, which worker 1 could take, wakes nobody: the queue was not empty. -/
theorem lost_behind_pinned :
    ∃ s, Run.run step (start 2) ([.schedule 2 [(some (.cb 7), -1)], .ask 2] ++
        List.replicate 5 (.worker 0) ++ fallsAsleep 1 ++
        [.schedule 2 [(some (.cb 8), 0)], .ask 2, .write 2, .wake 1 true, .drain 1, .drain 1, .giveWay 1,
          .worker 1, .decrement 1] ++ List.replicate 4 (.worker 1) ++ [.ask 1] ++ (fallsAsleep 1).drop 1 ++
        [.schedule 2 [(some (.cb 9), -1)]]) = some s ∧
      s.Waiting ∧ s.phase 1 = .waits ∧ s.pipe = 0 ∧ s.tickling 0 = .out ∧ s.tickling 1 = .out ∧
      s.tickling 2 = .out := by
  have ends : (Run.run step (start 2) ([.schedule 2 [(some (.cb 7), -1)], .ask 2] ++
      List.replicate 5 (.worker 0) ++ fallsAsleep 1 ++
      [.schedule 2 [(some (.cb 8), 0)], .ask 2, .write 2, .wake 1 true, .drain 1, .drain 1, .giveWay 1,
        .worker 1, .decrement 1] ++ List.replicate 4 (.worker 1) ++ [.ask 1] ++ (fallsAsleep 1).drop 1 ++
      [.schedule 2 [(some (.cb 9), -1)]])).any (fun s => decide (s.Waiting ∧ s.phase 1 = .waits ∧
        s.pipe = 0 ∧ s.tickling 0 = .out ∧ s.tickling 1 = .out ∧ s.tickling 2 = .out)) = true := by
    decide +kernel
  obtain ⟨s, ran, lost⟩ := (Option.any_eq_true _ _).mp ends
  exact ⟨s, ran, of_decide_eq_true lost⟩

end ServerFrame.Tickle
