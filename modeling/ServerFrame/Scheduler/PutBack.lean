import ServerFrame.Scheduler.Queue

/-!
# Fibers that are to be put back

From its call of `YieldToReady` to the `Schedule` of its worker a fiber is on its way back to the
queue. The worker sees this only in `state_`, behind the switch, where another thread may have
written it. What a step of a worker does to these fibers, to those that have been taken and not yet
resumed, and to the queue is said here once.
-/
namespace ServerFrame.Scheduler

/-- The fiber of a pass that is not one of the idle fiber. -/
def Job.user : Job → Option Nat
  | .fiber f _ => some f
  | .cb f _ => some f
  | .idle => none

/-- `f` has called `YieldToReady`, or has been found in `kReady`, and is not put back yet. -/
def Pc.returns (state : Nat → FiberState) (f : Nat) : Pc → Bool
  | .yieldAssert j st => st == .ready && j.user == some f
  | .yieldWrite j st => st == .ready && j.user == some f
  | .swapOut j => state f == .ready && j.user == some f
  | .decrement j => state f == .ready && j.user == some f
  | .readReady j => state f == .ready && j.user == some f
  | .reschedule j => j.user == some f
  | _ => false

/-- `f` has been taken and is not resumed yet. -/
def Pc.carries (f : Nat) : Pc → Bool
  | .testTerm e => e.work == .fiber f
  | .testExcept _ g => g == f
  | .swapAssert j => j.user == some f
  | .swapSet j => j.user == some f
  | .swapLoad j => j.user == some f
  | _ => false

/-- Worker `w` is to put `f` back. -/
def returns (s : Scheduler) (w f : Nat) : Bool := (s.workers w).pc.returns s.stateOf f

/-- The fiber of a yield or of the part of a pass behind it. -/
def Pc.user : Pc → Option Nat
  | .yieldAssert j _ => j.user
  | .yieldWrite j _ => j.user
  | .swapOut j => j.user
  | .decrement j => j.user
  | .readReady j => j.user
  | .reschedule j => j.user
  | _ => none

/-- Worker `w` is to put a fiber back. -/
def putsBack (s : Scheduler) (w : Nat) : Bool := (s.workers w).pc.user.any (s.returns w)

/-- Worker `w` is to resume `f`. -/
def carries (s : Scheduler) (w f : Nat) : Bool := (s.workers w).pc.carries f

/-- The fiber in which worker `w` runs a callback: the one it has kept, or a new one. -/
def callbackFiber (s : Scheduler) (w : Nat) : Nat := (s.workers w).cbFiber.getD s.fiberCount

/-- Worker `w` has a callback to run. -/
def Pc.callback : Pc → Option Entry
  | .testTerm e =>
    match e.work with
    | .cb _ => some e
    | .fiber _ => none
  | _ => none

/-- A place between two passes, or behind the test for `kReady`. -/
def Pc.off : Pc → Bool
  | .top | .drop _ _ | .idleTest | .readTerm _ | .readExcept _ | .setHold _ | .reset _ | .exited => true
  | _ => false

/-- What a step of worker `w` may do. -/
structure Moves (s : Scheduler) (w : Nat) (s' : Scheduler) : Prop where
  threads_eq : s'.threads = s.threads
  flags : s'.autoStop = s.autoStop ∧ s'.stopping = s.stopping
  others : ∀ v, v ≠ w → s'.workers v = s.workers v
  /-- A fiber comes into `kReady` only on its way back. -/
  ready : ∀ f, s'.stateOf f = .ready → s.stateOf f = .ready ∨ s.returns w f = true
  returns : ∀ f, s'.returns w f = true → s.returns w f = true
  carries : ∀ f, s'.carries w f = true → s.carries w f = true ∨
    (∃ e ∈ s.queue, e.work = .fiber f ∧ skips s.fibers w e = false) ∨
    ∃ e, (s.workers w).pc.callback = some e ∧ s.callbackFiber w = f
  tests : ∀ e, (s'.workers w).pc = .testTerm e →
    (s.workers w).pc = .testTerm e ∨ skips s.fibers w e = false
  queue : ∀ e ∈ s'.queue, e ∈ s.queue ∨
    ∃ f, e.work = .fiber f ∧ e.thread = -1 ∧ s.returns w f = true
  runs : ∀ j, (s'.workers w).pc = .running j → (s.workers w).pc = .swapLoad j
  reads : ∀ j, (s'.workers w).pc = .readReady j ∨ (s'.workers w).pc = .reschedule j →
    (s.workers w).pc = .readReady j ∨ (s.workers w).pc = .reschedule j ∨ j.isIdle = false

section Steps

variable {s s' : Scheduler} {w : Nat}

theorem stateOf_setFiberOf (s : Scheduler) (w : Nat) (j : Job) (x : Fiber) (f : Nat) :
    (s.setFiberOf w j x).stateOf f = if j.user = some f then x.state else s.stateOf f := by
  have written (g : Nat) : (s.setFiber g x).stateOf f = if g = f then x.state else s.stateOf f := by
    by_cases same : g = f
    · simp [stateOf, setFiber, same]
    · simp [stateOf, setFiber, same, Function.update_of_ne (Ne.symm same)]
  cases j with
  | fiber g entry => simpa [Job.user, setFiberOf] using written g
  | cb g entry => simpa [Job.user, setFiberOf] using written g
  | idle => rfl

theorem stateOf_fiberOf {j : Job} {f : Nat} (mine : j.user = some f) :
    (s.fiberOf w j).state = s.stateOf f := by
  cases j with
  | fiber g entry | cb g entry =>
    obtain rfl := Option.some.inj mine
    rfl
  | idle => cases mine

/-- A place `pc` to which worker `w` may go without taking an entry. -/
structure Follows (s : Scheduler) (w : Nat) (state : Nat → FiberState) (pc : Pc) : Prop where
  returns : ∀ f, pc.returns state f = true → s.returns w f = true
  carries : ∀ f, pc.carries f = true → s.carries w f = true
  tests : ∀ e, pc = .testTerm e → (s.workers w).pc = .testTerm e
  runs : ∀ j, pc = .running j → (s.workers w).pc = .swapLoad j
  reads : ∀ j, pc = .readReady j ∨ pc = .reschedule j →
    (s.workers w).pc = .readReady j ∨ (s.workers w).pc = .reschedule j ∨ j.isIdle = false

theorem Follows.moves {pc : Pc} (follows : Follows s w s'.stateOf pc) (at_ : (s'.workers w).pc = pc)
    (threads_eq : s'.threads = s.threads)
    (flags : s'.autoStop = s.autoStop ∧ s'.stopping = s.stopping)
    (others : ∀ v, v ≠ w → s'.workers v = s.workers v) (queue : s'.queue = s.queue)
    (ready : ∀ f, s'.stateOf f = .ready → s.stateOf f = .ready ∨ s.returns w f = true) :
    Moves s w s' := by
  subst at_
  exact ⟨threads_eq, flags, others, ready, follows.returns, fun f carries => .inl (follows.carries f carries),
    fun e tests => .inl (follows.tests e tests), fun e member => .inl (queue ▸ member),
    follows.runs, follows.reads⟩

/-- The worker only goes from one place to another. -/
theorem Follows.goto {pc : Pc} (follows : Follows s w s.stateOf pc) : Moves s w (s.setPc w pc) :=
  Follows.moves follows (pc_setPc ..) rfl ⟨rfl, rfl⟩
    (fun _ other => workers_setPc_of_ne _ _ _ _ other) rfl fun _ ready => .inl ready

/-- It also writes to its fiber. -/
theorem Follows.writing {j : Job} {x : Fiber} {pc : Pc}
    (follows : Follows s w (s.setFiberOf w j x).stateOf pc)
    (ready : x.state = .ready → ∀ f, j.user = some f → s.stateOf f = .ready ∨ s.returns w f = true) :
    Moves s w ((s.setFiberOf w j x).setPc w pc) := by
  refine Follows.moves follows (pc_setPc ..) ?_ ?_ (fun v other => ?_) ?_ fun f is_ready => ?_
  · cases j <;> rfl
  · cases j <;> exact ⟨rfl, rfl⟩
  · rw [workers_setPc_of_ne _ _ _ _ other, workers_setFiberOf_of_ne _ _ _ _ _ other]
  · cases j <;> rfl
  · change (s.setFiberOf w j x).stateOf f = .ready at is_ready
    rw [stateOf_setFiberOf] at is_ready
    split at is_ready
    next mine => exact ready is_ready f mine
    next => exact .inl is_ready

/-- It stays where it is and the program ends. -/
theorem moves_failing {fault : Fault} (waits : ∀ j, (s.workers w).pc ≠ .running j) :
    Moves s w (s.fail fault) :=
  Follows.moves ⟨fun _ returns => returns, fun _ carries => carries, fun _ tests => tests,
      fun j runs => absurd runs (waits j), fun _ reads => reads.imp_right .inl⟩
    rfl rfl ⟨rfl, rfl⟩ (fun _ _ => rfl) rfl fun _ ready => .inl ready

/-- A place where no fiber is on its way. -/
theorem follows_off {state : Nat → FiberState} {pc : Pc} (off : pc.off = true) :
    Follows s w state pc := by
  cases pc with
  | top | drop | idleTest | readTerm | readExcept | setHold | reset | exited =>
    constructor <;> simp [Pc.returns, Pc.carries]
  | _ => cases off

theorem dequeue_moves (s : Scheduler) (w : Nat) : Moves s w (s.dequeue w) := by
  rw [dequeue]
  split
  next => exact (follows_off rfl).goto
  next e left found =>
    obtain ⟨front, back, split, rfl, -, fits⟩ := scan_some found
    have member : e ∈ s.queue := by simp [split]
    refine ⟨rfl, ⟨rfl, rfl⟩, fun v other => workers_setPc_of_ne _ _ _ _ other,
      fun _ ready => .inl ready, fun f is => ?_, fun f is => .inr (.inl ⟨e, member, ?_, fits⟩),
      fun e' is => .inr ?_, fun x inside => .inl ?_, fun j is => ?_, fun j is => ?_⟩
    · simp [returns, Pc.returns] at is
    · simpa [carries, Pc.carries] using is
    · rw [pc_setPc] at is
      exact Pc.testTerm.inj is ▸ fits
    · rw [split]
      exact (List.Sublist.refl front).append (List.sublist_cons_self e back) |>.subset inside
    · rw [pc_setPc] at is
      cases is
    · simp only [pc_setPc, reduceCtorEq, or_self] at is

theorem prepare_moves {e : Entry} (at_ : (s.workers w).pc = .testTerm e)
    (callback : (s.workers w).pc.callback = some e) : Moves s w (s.prepare w e.id) := by
  -- the worker is to resume the fiber of its callback
  have begins {s' : Scheduler} {f : Nat} (at_' : (s'.workers w).pc = .swapAssert (.cb f e.id))
      (mine : s.callbackFiber w = f) (threads_eq : s'.threads = s.threads)
      (flags : s'.autoStop = s.autoStop ∧ s'.stopping = s.stopping)
      (others : ∀ v, v ≠ w → s'.workers v = s.workers v) (queue : s'.queue = s.queue)
      (fibers : s'.fibers = Function.update s.fibers f .new) : Moves s w s' := by
    refine ⟨threads_eq, flags, others, fun g is => .inl ?_, fun g is => ?_,
      fun g is => .inr (.inr ⟨e, callback, ?_⟩), fun e' is => ?_, fun x inside => .inl (queue ▸ inside),
      fun j is => ?_, fun j is => ?_⟩
    · by_cases same : g = f
      · simp [stateOf, fibers, same, Fiber.new] at is
      · simpa [stateOf, fibers, Function.update_of_ne same] using is
    · simp [Scheduler.returns, at_', Pc.returns] at is
    · simp only [carries, at_', Pc.carries, Job.user, beq_iff_eq, Option.some.injEq] at is
      exact mine.trans is
    · rw [at_'] at is
      cases is
    · rw [at_'] at is
      cases is
    · simp only [at_', reduceCtorEq, or_self] at is
  rw [prepare]
  split
  next f kept =>
    split
    · exact begins (pc_setPc ..) (by simp [callbackFiber, kept]) rfl ⟨rfl, rfl⟩
        (fun v other => workers_setPc_of_ne _ _ _ _ other) rfl rfl
    · exact moves_failing (by simp [at_])
  next kept =>
    refine begins (pc_setPc ..) (by simp [callbackFiber, kept]) rfl ⟨rfl, rfl⟩ (fun v other => ?_)
      rfl rfl
    rw [workers_setPc_of_ne _ _ _ _ other, workers_setCbFiber_of_ne _ _ _ _ other]
    rfl

/-- The fiber stays as it is while the worker takes itself off the count. -/
theorem release_moves {j : Job} {entry : Nat} (at_ : (s.workers w).pc = .decrement j)
    (busy : j.isIdle = false) : Moves s w ((s.release entry).setPc w (.readReady j)) := by
  refine Follows.moves ⟨fun f is => ?_, by simp [Pc.carries], by simp, by simp, fun k is => ?_⟩
    (pc_setPc ..) rfl ⟨rfl, rfl⟩ (fun _ other => workers_setPc_of_ne _ _ _ _ other) rfl
    fun _ ready => .inl ready
  · rw [Scheduler.returns, at_]
    exact is
  · rcases is with is | is
    · exact .inr (.inr (Pc.readReady.inj is ▸ busy))
    · cases is

/-- Only what is on its way back is put back. -/
theorem reschedule_moves {j : Job} {f : Nat} (at_ : (s.workers w).pc = .reschedule j)
    (user : j.user = some f) :
    Moves s w ((s.scheduleNoLock (some (.fiber f)) (-1)).setPc w .top) := by
  refine ⟨rfl, ⟨rfl, rfl⟩, fun v other => workers_setPc_of_ne _ _ _ _ other,
    fun _ ready => .inl ready, fun f is => ?_, fun f is => ?_, fun e is => ?_, fun e inside => ?_,
    fun j is => ?_, fun j is => ?_⟩
  · simp [Scheduler.returns, Pc.returns] at is
  · simp [Scheduler.carries, Pc.carries] at is
  · rw [pc_setPc] at is
    cases is
  · rcases List.mem_append.mp inside with inside | last
    · exact .inl inside
    · obtain rfl := List.mem_singleton.mp last
      exact .inr ⟨f, rfl, rfl, by simp [Scheduler.returns, at_, Pc.returns, user]⟩
  · rw [pc_setPc] at is
    cases is
  · simp only [pc_setPc, reduceCtorEq, or_self] at is

theorem afterTerminated_off (j : Job) : (afterTerminated j).off = true := by
  cases j <;> rfl

/-- What every step of a worker does. -/
theorem workerStep_moves (stepped : s.workerStep w = some s') : Moves s w s' := by
  unfold workerStep at stepped
  split at stepped
  next =>
    cases stepped
    exact dequeue_moves s w
  next e at_ =>
    split at stepped
    next f is =>
      split at stepped
      · cases stepped
        exact (follows_off rfl).goto
      · cases stepped
        exact Follows.goto (by constructor <;> simp [returns, carries, at_, Pc.returns, Pc.carries, is])
    next is =>
      cases stepped
      exact prepare_moves at_ (by simp [at_, Pc.callback, is])
  next e f at_ =>
    split at stepped
    · cases stepped
      exact (follows_off rfl).goto
    · cases stepped
      exact Follows.goto (by constructor <;> simp [returns, carries, at_, Pc.returns, Pc.carries, Job.user])
  next =>
    cases stepped
    exact Follows.moves (follows_off rfl) (pc_setPc ..) rfl ⟨rfl, rfl⟩
      (fun _ other => workers_setPc_of_ne _ _ _ _ other) rfl fun _ ready => .inl ready
  next at_ =>
    split at stepped
    · cases stepped
      exact (follows_off rfl).goto
    · cases stepped
      exact Follows.goto (by constructor <;> simp [returns, carries, at_, Pc.returns, Pc.carries, Job.user])
  next j at_ =>
    split at stepped
    · cases stepped
      exact moves_failing (by simp [at_])
    · cases stepped
      exact Follows.goto (by constructor <;> simp [returns, carries, at_, Pc.returns, Pc.carries])
  next j at_ =>
    cases stepped
    exact Follows.writing (by constructor <;> simp [returns, carries, at_, Pc.returns, Pc.carries])
      fun ready => by cases ready
  next j at_ =>
    split at stepped
    · cases stepped
      refine Follows.writing (by constructor <;> simp [returns, carries, at_, Pc.returns, Pc.carries]) ?_
      exact fun ready f mine => .inl (stateOf_fiberOf mine ▸ ready)
    · cases stepped
      exact moves_failing (by simp [at_])
  next => cases stepped
  next j st at_ =>
    split at stepped
    · cases stepped
      exact Follows.goto (by constructor <;> simp [returns, carries, at_, Pc.returns, Pc.carries])
    · cases stepped
      exact moves_failing (by simp [at_])
  next j st at_ =>
    cases stepped
    -- what is written is what the yield was called for
    have called {f : Nat} (ready : st = .ready) (mine : j.user = some f) : s.returns w f = true := by
      simp [returns, at_, Pc.returns, ready, mine]
    refine Follows.writing ?_ fun ready f mine => .inr (called ready mine)
    refine ⟨fun f is => ?_, by simp [Pc.carries], by simp, by simp, by simp⟩
    simp only [Pc.returns, Bool.and_eq_true, beq_iff_eq, stateOf_setFiberOf] at is
    obtain ⟨ready, mine⟩ := is
    rw [if_pos mine] at ready
    exact called ready mine
  next j at_ =>
    cases stepped
    have same (f : Nat) : (s.setFiberOf w j { s.fiberOf w j with saved := true }).stateOf f =
        s.stateOf f := by
      rw [stateOf_setFiberOf]
      split
      next mine => exact stateOf_fiberOf mine
      next => rfl
    refine Follows.writing ?_ fun ready f mine => .inl (stateOf_fiberOf mine ▸ ready)
    cases j with
    | idle => exact follows_off rfl
    | fiber f entry | cb f entry =>
      constructor <;> simp [returns, carries, at_, Pc.returns, Pc.carries, Job.isIdle, same]
  next j at_ =>
    split at stepped
    next =>
      cases stepped
      exact release_moves at_ rfl
    next =>
      cases stepped
      exact release_moves at_ rfl
    next => cases stepped
  next j at_ =>
    split at stepped
    next f entry =>
      split at stepped
      next ready =>
        cases stepped
        have mine (g : Nat) (same : f = g) : s.stateOf g = .ready := same ▸ ready
        exact Follows.goto (by
          constructor <;> simp +contextual [returns, carries, at_, Pc.returns, Pc.carries, Job.user, Job.isIdle, mine])
      next =>
        cases stepped
        exact (follows_off rfl).goto
    next f entry =>
      split at stepped
      next ready =>
        cases stepped
        have mine (g : Nat) (same : f = g) : s.stateOf g = .ready := same ▸ ready
        refine Follows.moves ?_ (pc_setPc ..) rfl ⟨rfl, rfl⟩ (fun v other => ?_) rfl
          fun _ ready => .inl ready
        · constructor <;> simp +contextual [returns, carries, at_, Pc.returns, Pc.carries, Job.user, Job.isIdle, mine]
        · rw [workers_setPc_of_ne _ _ _ _ other, workers_setCbFiber_of_ne _ _ _ _ other]
      next =>
        cases stepped
        exact (follows_off rfl).goto
    next => cases stepped
  next j at_ =>
    split at stepped
    next =>
      cases stepped
      exact reschedule_moves at_ rfl
    next =>
      cases stepped
      exact reschedule_moves at_ rfl
    next => cases stepped
  next j at_ =>
    split at stepped
    · cases stepped
      exact (follows_off (afterTerminated_off j)).goto
    · split at stepped
      · cases stepped
        exact (follows_off rfl).goto
      · cases stepped
        exact (follows_off rfl).goto
  next j at_ =>
    split at stepped
    · cases stepped
      exact (follows_off (afterTerminated_off j)).goto
    · split at stepped
      · cases stepped
        exact (follows_off rfl).goto
      · cases stepped
        exact (follows_off rfl).goto
  next j at_ =>
    dsimp only at stepped
    split at stepped
    next f entry =>
      cases stepped
      refine Follows.moves (follows_off rfl) (pc_setPc ..) rfl ⟨rfl, rfl⟩ (fun v other => ?_) rfl
        fun g is => ?_
      · rw [workers_setPc_of_ne _ _ _ _ other, workers_setCbFiber_of_ne _ _ _ _ other,
          workers_setFiberOf_of_ne _ _ _ _ _ other]
      · change (s.setFiberOf w (.cb f entry) _).stateOf g = .ready at is
        rw [stateOf_setFiberOf] at is
        split at is
        next => cases is
        next => exact .inl is
    next =>
      cases stepped
      exact (follows_off rfl).writing fun ready => by cases ready
  next j at_ =>
    split at stepped
    · cases stepped
      exact (follows_off rfl).writing fun ready => by cases ready
    · cases stepped
      exact moves_failing (by simp [at_])
  next => cases stepped

theorem putsBack_of_returns {f : Nat} (back : s.returns w f = true) : s.putsBack w = true := by
  have user : (s.workers w).pc.user = some f := by
    unfold returns at back
    cases at_ : (s.workers w).pc <;> simp [at_, Pc.returns] at back <;> simp [Pc.user, back]
  simp [putsBack, user, back]

/-- A fiber that is on its way back behind a step was on its way before. -/
theorem Moves.returned (moves : Moves s w s') {v f : Nat} (back : s'.returns v f = true) :
    s.returns v f = true ∨ s.returns w f = true := by
  by_cases same : v = w
  · exact .inr (moves.returns f (same ▸ back))
  · rw [Scheduler.returns, moves.others v same] at back
    cases here : s.returns v f with
    | true => exact .inl rfl
    | false =>
      -- then another worker has found `kReady` or written it
      have turned : s'.stateOf f = .ready ∧ s.stateOf f ≠ .ready := by
        rw [Scheduler.returns] at here
        cases at_ : (s.workers v).pc <;> simp_all [Pc.returns]
      exact .inr ((moves.ready f turned.1).resolve_left turned.2)

/-- What the code of a fiber does on worker `w`. -/
structure Acts (s : Scheduler) (w : Nat) (j : Job) (choice : Choice) (s' : Scheduler) : Prop where
  threads_eq : s'.threads = s.threads
  flags : s'.autoStop = s.autoStop ∧ s'.stopping = s.stopping
  others : ∀ v, v ≠ w → s'.workers v = s.workers v
  fibers : s'.fibers = s.fibers
  queue : s'.queue = s.queue
  returns : ∀ f, s'.returns w f = true → choice = .yieldToReady ∧ j.user = some f
  carries : ∀ f, s'.carries w f = false
  tests : ∀ e, (s'.workers w).pc ≠ .testTerm e
  runs : ∀ k, (s'.workers w).pc = .running k → k = j ∧ choice = .register
  reads : ∀ k, (s'.workers w).pc ≠ .readReady k ∧ (s'.workers w).pc ≠ .reschedule k

theorem fiberStep_acts {j : Job} {choice : Choice} (at_ : (s.workers w).pc = .running j)
    (stepped : s.fiberStep w j choice = some s') : Acts s w j choice s' := by
  cases choice with
  | register =>
    cases j <;> cases stepped <;>
      exact ⟨rfl, ⟨rfl, rfl⟩, fun _ _ => rfl, rfl, rfl, by simp [returns, at_, Pc.returns],
        by simp [carries, at_, Pc.carries], by simp [at_], by simp [at_], by simp [at_]⟩
  | yieldToReady | yieldToHold | finish | throw =>
    obtain ⟨-, same⟩ := Option.ite_none_left_eq_some.mp stepped
    cases same
    exact ⟨rfl, ⟨rfl, rfl⟩, fun v other => workers_setPc_of_ne _ _ _ _ other, rfl, rfl,
      by simp [returns, Pc.returns], by simp [carries, Pc.carries], by simp, by simp, by simp⟩
  | swapOut =>
    obtain ⟨idle, same⟩ := Option.ite_none_right_eq_some.mp stepped
    cases same
    cases j with
    | idle =>
      exact ⟨rfl, ⟨rfl, rfl⟩, fun v other => workers_setPc_of_ne _ _ _ _ other, rfl, rfl,
        by simp [returns, Pc.returns, Job.user], by simp [carries, Pc.carries], by simp, by simp, by simp⟩
    | fiber | cb => simp [Job.isIdle] at idle

theorem Acts.returned {j : Job} {choice : Choice} (acts : Acts s w j choice s') {v f : Nat}
    (back : s'.returns v f = true) :
    s.returns v f = true ∨ choice = .yieldToReady ∧ j.user = some f := by
  by_cases same : v = w
  · exact .inr (acts.returns f (same ▸ back))
  · have states : s'.stateOf = s.stateOf := by
      funext g
      rw [stateOf, stateOf, acts.fibers]
    rw [Scheduler.returns, acts.others v same, states] at back
    exact .inl back

theorem Pc.returns_mono {pc : Pc} {state state' : Nat → FiberState} {f : Nat}
    (ready : state f = .ready → state' f = .ready) (back : pc.returns state f = true) :
    pc.returns state' f = true := by
  cases pc <;> simp_all [Pc.returns]

/-- A fiber that is made now is not in `kReady`. -/
theorem ready_of_makeFiber {f : Nat}
    (ready : ({ s with fiberCount := s.fiberCount + 1 }.setFiber s.fiberCount .new).stateOf f = .ready) :
    s.stateOf f = .ready := by
  by_cases new : f = s.fiberCount
  · simp [stateOf, setFiber, new, Fiber.new] at ready
  · simpa [stateOf, setFiber, Function.update_of_ne new] using ready

end Steps
end ServerFrame.Scheduler
