import ServerFrame.Scheduler.Queue

/-!
# Workers that fall asleep and workers that look

A step of a worker takes it through a task, towards its sleep in `epoll_wait`, or towards the
next look at the queue. `Turn` says once what the steps do in this respect: who looks, what
becomes free for any worker to take, and what is left in the queue.
-/
namespace ServerFrame.Tickle

open Scheduler

/-- Where a worker stands in `Idle`. -/
inductive Phase where
  /-- At the head of the loop. -/
  | head
  /-- In `epoll_wait`. -/
  | waits
  /-- Behind it, with the record of the pipe. -/
  | drains
  /-- Behind it, with the timers and the other records. -/
  | acts
  deriving DecidableEq, Repr

/-! ## Who sleeps and who will look -/

/-- Any worker may take the entry. -/
def free (s : Scheduler) (e : Entry) : Bool := e.thread == -1 && s.entryState e != some .exec

/-- The worker has found nothing and goes to sleep, or sleeps. -/
def drowsyAt (pc : Pc) (phase : Phase) : Bool :=
  match pc with
  | .idleTest => true
  | .swapAssert .idle => true
  | .swapSet .idle => true
  | .swapLoad .idle => true
  | .running .idle => phase == .head || phase == .waits
  | _ => false

/-- The worker looks at the queue before it runs a task or sleeps. -/
def alertAt (pc : Pc) (phase : Phase) : Bool :=
  match pc with
  | .top => true
  | .drop _ _ => true
  | .swapOut _ => true
  | .decrement _ => true
  | .readReady _ => true
  | .reschedule _ => true
  | .readTerm _ => true
  | .readExcept _ => true
  | .setHold _ => true
  | .reset _ => true
  | .running .idle => phase == .drains || phase == .acts
  | _ => false

theorem not_drowsy_of_alert {pc : Pc} {phase : Phase} (alert : alertAt pc phase = true) :
    drowsyAt pc phase = false := by
  cases pc with
  | running j =>
    cases j with
    | idle => cases phase <;> first | rfl | cases alert
    | _ => rfl
  | swapAssert j => cases alert
  | swapSet j => cases alert
  | swapLoad j => cases alert
  | idleTest => cases alert
  | _ => rfl

/-! ## Only fibers that have been made -/

/-- The fiber that a position is about. -/
def names (pc : Pc) : Option Nat :=
  match pc with
  | .testTerm ⟨_, .fiber f, _⟩ => some f
  | .testExcept _ f => some f
  | .swapAssert j => fiberIn j
  | .swapSet j => fiberIn j
  | .swapLoad j => fiberIn j
  | .running j => fiberIn j
  | .yieldAssert j _ => fiberIn j
  | .yieldWrite j _ => fiberIn j
  | .swapOut j => fiberIn j
  | .decrement j => fiberIn j
  | .readReady j => fiberIn j
  | .reschedule j => fiberIn j
  | .readTerm j => fiberIn j
  | .readExcept j => fiberIn j
  | .setHold j => fiberIn j
  | .reset j => fiberIn j
  | _ => none
where
  fiberIn (j : Job) : Option Nat :=
    match j with
    | .fiber f _ => some f
    | .cb f _ => some f
    | .idle => none

structure Known (s : Scheduler) : Prop where
  queued : ∀ e ∈ s.queue, ∀ f, e.work = .fiber f → f < s.fiberCount
  named : ∀ w f, names (s.workers w).pc = some f → f < s.fiberCount
  kept : ∀ w f, (s.workers w).cbFiber = some f → f < s.fiberCount

/-- What a step of worker `w` does to the numbers of fibers it knows. -/
structure Names (s : Scheduler) (w : Nat) (s' : Scheduler) : Prop where
  count_le : s.fiberCount ≤ s'.fiberCount
  named : ∀ f, names (s'.workers w).pc = some f → names (s.workers w).pc = some f ∨
    (s.workers w).cbFiber = some f ∨ (∃ e ∈ s.queue, e.work = .fiber f) ∨ f < s'.fiberCount ∧ s.fiberCount ≤ f
  kept : ∀ f, (s'.workers w).cbFiber = some f → (s.workers w).cbFiber = some f ∨
    f < s'.fiberCount ∧ s.fiberCount ≤ f

section Known

variable {s s' : Scheduler} {w : Nat}

/-- The worker only goes from one place to another. -/
theorem Names.to {t : Scheduler} {pc : Pc} (same : names pc = none ∨ names pc = names (s.workers w).pc)
    (count_eq : t.fiberCount = s.fiberCount)
    (kept : (t.workers w).cbFiber = (s.workers w).cbFiber ∨ (t.workers w).cbFiber = none) :
    Names s w (t.setPc w pc) := by
  refine ⟨Nat.le_of_eq count_eq.symm, fun f is => ?_, fun f is => ?_⟩
  · rw [pc_setPc] at is
    rcases same with none_ | same
    · rw [none_] at is
      cases is
    · exact .inl (same ▸ is)
  · rw [cbFiber_setPc] at is
    rcases kept with same | none_
    · exact .inl (same ▸ is)
    · rw [none_] at is
      cases is

theorem Names.fail (s : Scheduler) (w : Nat) (fault : Scheduler.Fault) : Names s w (s.fail fault) :=
  ⟨Nat.le_refl _, fun _ => .inl, fun _ => .inl⟩

@[simp] theorem fiberCount_setFiberOf (j : Job) (fiber : Fiber) :
    (s.setFiberOf w j fiber).fiberCount = s.fiberCount := by
  cases j <;> rfl

@[simp] theorem cbFiber_setFiberOf (v : Nat) (j : Job) (fiber : Fiber) :
    ((s.setFiberOf w j fiber).workers v).cbFiber = (s.workers v).cbFiber := by
  cases j with
  | fiber f entry => rfl
  | cb f entry => rfl
  | idle =>
    by_cases same : v = w
    · subst same
      simp [setFiberOf]
    · simp [setFiberOf, Function.update_of_ne same]

theorem names_dequeue : Names s w (s.dequeue w) := by
  rw [dequeue]
  split
  next => exact .to (.inl rfl) rfl (.inl rfl)
  next e left found =>
    obtain ⟨front, back, queue_eq, -⟩ := scan_some found
    refine ⟨Nat.le_refl _, fun f is => ?_, fun f is => .inl (by simpa using is)⟩
    rw [pc_setPc] at is
    obtain ⟨id, work, thread⟩ := e
    cases work with
    | fiber g =>
      cases is
      exact .inr (.inr (.inl ⟨⟨id, .fiber f, thread⟩, by rw [queue_eq]; simp, rfl⟩))
    | cb g => cases is

theorem names_prepare {entry : Nat} : Names s w (s.prepare w entry) := by
  rw [prepare]
  split
  next f keeps =>
    split
    · refine ⟨Nat.le_refl _, fun g is => ?_, fun g is => .inl (by simpa using is)⟩
      rw [pc_setPc] at is
      cases is
      exact .inr (.inl keeps)
    · exact .fail s w _
  next =>
    refine ⟨Nat.le_succ _, fun g is => ?_, fun g is => ?_⟩
    · rw [pc_setPc] at is
      cases is
      exact .inr (.inr (.inr ⟨Nat.lt_succ_self _, Nat.le_refl _⟩))
    · rw [cbFiber_setPc, cbFiber_setCbFiber] at is
      cases is
      exact .inr ⟨Nat.lt_succ_self _, Nat.le_refl _⟩

theorem names_afterTerminated (j : Job) :
    names (afterTerminated j) = none ∨ names (afterTerminated j) = names (.readTerm j) := by
  cases j with
  | fiber f entry => exact .inl rfl
  | cb f entry => exact .inr rfl
  | idle => exact .inl rfl

theorem names_workerStep (stepped : s.workerStep w = some s') : Names s w s' := by
  unfold workerStep at stepped
  split at stepped
  next =>
    cases stepped
    exact names_dequeue
  next e at_ =>
    split at stepped
    next f is_fiber =>
      obtain ⟨id, work, thread⟩ := e
      cases is_fiber
      split at stepped
      · cases stepped
        exact .to (.inl rfl) rfl (.inl rfl)
      · cases stepped
        exact .to (.inr (by rw [at_]; rfl)) rfl (.inl rfl)
    next =>
      cases stepped
      exact names_prepare
  next at_ =>
    split at stepped
    · cases stepped
      exact .to (.inl rfl) rfl (.inl rfl)
    · cases stepped
      exact .to (.inr (by rw [at_]; rfl)) rfl (.inl rfl)
  next =>
    cases stepped
    exact .to (.inl rfl) rfl (.inl rfl)
  next =>
    split at stepped
    · cases stepped
      exact .to (.inl rfl) rfl (.inl rfl)
    · cases stepped
      exact .to (.inl rfl) rfl (.inl rfl)
  next at_ =>
    split at stepped
    · cases stepped
      exact .fail s w _
    · cases stepped
      exact .to (.inr (by rw [at_]; rfl)) rfl (.inl rfl)
  next at_ =>
    cases stepped
    exact .to (.inr (by rw [at_]; rfl)) (by simp) (.inl (by simp))
  next at_ =>
    split at stepped
    · cases stepped
      exact .to (.inr (by rw [at_]; rfl)) (by simp) (.inl (by simp))
    · cases stepped
      exact .fail s w _
  next => cases stepped
  next at_ =>
    split at stepped
    · cases stepped
      exact .to (.inr (by rw [at_]; rfl)) rfl (.inl rfl)
    · cases stepped
      exact .fail s w _
  next at_ =>
    cases stepped
    exact .to (.inr (by rw [at_]; rfl)) (by simp) (.inl (by simp))
  next j at_ =>
    cases stepped
    refine .to (.inr ?_) (by simp) (.inl (by simp))
    rw [at_]
    cases j <;> rfl
  next at_ =>
    split at stepped
    · cases stepped
      exact .to (.inr (by rw [at_]; rfl)) rfl (.inl rfl)
    · cases stepped
      exact .to (.inr (by rw [at_]; rfl)) rfl (.inl rfl)
    · cases stepped
  next at_ =>
    split at stepped
    · split at stepped
      · cases stepped
        exact .to (.inr (by rw [at_]; rfl)) rfl (.inl rfl)
      · cases stepped
        exact .to (.inr (by rw [at_]; rfl)) rfl (.inl rfl)
    · split at stepped
      · cases stepped
        exact .to (.inr (by rw [at_]; rfl)) rfl (.inr (by simp))
      · cases stepped
        exact .to (.inr (by rw [at_]; rfl)) rfl (.inl rfl)
    · cases stepped
  next at_ =>
    split at stepped
    · cases stepped
      exact .to (.inl rfl) rfl (.inl rfl)
    · cases stepped
      exact .to (.inl rfl) rfl (.inl rfl)
    · cases stepped
  next j at_ =>
    have same : names (.readTerm j) = names (s.workers w).pc := by rw [at_]
    split at stepped
    · cases stepped
      exact .to ((names_afterTerminated j).imp id fun eq => eq.trans same) rfl (.inl rfl)
    · split at stepped
      · cases stepped
        exact .to (.inr same) rfl (.inl rfl)
      · cases stepped
        exact .to (.inr same) rfl (.inl rfl)
  next j at_ =>
    have same : names (.readTerm j) = names (s.workers w).pc := by rw [at_]; rfl
    split at stepped
    · cases stepped
      exact .to ((names_afterTerminated j).imp id fun eq => eq.trans same) rfl (.inl rfl)
    · split at stepped
      · cases stepped
        exact .to (.inr same) rfl (.inl rfl)
      · cases stepped
        exact .to (.inr same) rfl (.inl rfl)
  next j at_ =>
    dsimp only at stepped
    split at stepped
    · cases stepped
      exact .to (.inl rfl) (by exact fiberCount_setFiberOf _ _) (.inr (by simp))
    · cases stepped
      exact .to (.inl rfl) (by simp) (.inl (by simp))
  next =>
    split at stepped
    · cases stepped
      exact .to (.inl rfl) (by simp) (.inl (by simp))
    · cases stepped
      exact .fail s w _
  next => cases stepped

theorem Known.lt (known : Known s) (named : Names s w s') {f : Nat}
    (is : names (s'.workers w).pc = some f) : f < s'.fiberCount := by
  have count_le := named.count_le
  rcases named.named f is with before | kept | ⟨e, member, work⟩ | ⟨new, -⟩
  · exact Nat.lt_of_lt_of_le (known.named w f before) count_le
  · exact Nat.lt_of_lt_of_le (known.kept w f kept) count_le
  · exact Nat.lt_of_lt_of_le (known.queued e member f work) count_le
  · exact new

/-- A step of worker `w` that puts at most the fiber it was about into the queue. -/
theorem Known.moved (known : Known s) (named : Names s w s') (moved : Moved s w s')
    (queued : ∀ e ∈ s'.queue, e ∈ s.queue ∨ ∀ f, e.work = .fiber f → names (s.workers w).pc = some f) :
    Known s' := by
  have count_le := named.count_le
  refine ⟨fun e member f work => ?_, fun v f is => ?_, fun v f is => ?_⟩
  · refine Nat.lt_of_lt_of_le ?_ count_le
    rcases queued e member with before | mine
    · exact known.queued e before f work
    · exact known.named w f (mine f work)
  · by_cases same : v = w
    · subst same
      exact known.lt named is
    · rw [moved.others v same] at is
      exact Nat.lt_of_lt_of_le (known.named v f is) count_le
  · by_cases same : v = w
    · subst same
      rcases named.kept f is with before | ⟨new, -⟩
      · exact Nat.lt_of_lt_of_le (known.kept v f before) count_le
      · exact new
    · rw [moved.others v same] at is
      exact Nat.lt_of_lt_of_le (known.kept v f is) count_le

end Known

/-! ## What a step of a worker does to its sleep -/

/-- A worker that stands at `phase` of `Idle` takes a step of its own. -/
inductive Turn (s : Scheduler) (w : Nat) (phase : Phase) (s' : Scheduler) : Prop
  /-- It will look at the queue. -/
  | looks (alert : alertAt (s'.workers w).pc phase = true) (queue_eq : s'.queue = s.queue)
  /-- It puts a fiber back. -/
  | pushes (f : Nat) (j : Job) (at_ : (s.workers w).pc = .reschedule j)
      (is : names (s.workers w).pc = some f) (alert : alertAt (s'.workers w).pc phase = true)
      (queue_eq : s'.queue = s.queue ++ [⟨s.issued, .fiber f, -1⟩])
  /-- It goes on with its task or into its sleep. -/
  | goesOn (before : alertAt (s.workers w).pc phase = false) (queue_eq : s'.queue = s.queue)
      (frees : ∀ e ∈ s.queue, free s' e = true → free s e = true)
      (drowsy : drowsyAt (s'.workers w).pc phase = true → drowsyAt (s.workers w).pc phase = true ∧
        ((s'.workers w).pc = .swapAssert .idle ∨ (s.workers w).pc ≠ .idleTest))
  /-- It takes an entry. -/
  | takes (e : Entry) (left : List Entry) (at_ : (s.workers w).pc = .top)
      (found : scan s.fibers w s.queue = some (e, left)) (queue_eq : s'.queue = left)
      (fibers_eq : s'.fibers = s.fibers) (drowsy : drowsyAt (s'.workers w).pc phase = false)
  /-- It finds none. -/
  | sleeps (at_ : (s.workers w).pc = .top) (none_ : scan s.fibers w s.queue = none)
      (queue_eq : s'.queue = s.queue) (fibers_eq : s'.fibers = s.fibers)
      (sleeps : (s'.workers w).pc = .idleTest)

section Turn

variable {s s' : Scheduler} {w : Nat} {phase : Phase}

/-- What the step leaves in the queue. -/
theorem Turn.queued (turn : Turn s w phase s') :
    ∀ e ∈ s'.queue, e ∈ s.queue ∨ ∀ f, e.work = .fiber f → names (s.workers w).pc = some f := by
  intro e member
  cases turn with
  | looks alert queue_eq => exact .inl (queue_eq ▸ member)
  | pushes f j at_ is alert queue_eq =>
    rw [queue_eq] at member
    rcases List.mem_append.mp member with before | new
    · exact .inl before
    · rw [List.mem_singleton] at new
      rw [new]
      exact .inr fun g work => by cases work; exact is
  | goesOn before queue_eq => exact .inl (queue_eq ▸ member)
  | takes taken left at_ found queue_eq =>
    obtain ⟨front, back, before_eq, left_eq, -⟩ := scan_some found
    rw [queue_eq, left_eq] at member
    rw [before_eq]
    simp only [List.mem_append, List.mem_cons] at member ⊢
    exact .inl (member.imp id .inr)
  | sleeps at_ none_ queue_eq => exact .inl (queue_eq ▸ member)

theorem free_congr {e : Entry} (fibers_eq : s'.fibers = s.fibers) : free s' e = free s e := by
  simp only [free, entryState, stateOf, fibers_eq]

@[simp] theorem free_setPc {e : Entry} {pc : Pc} : free (s.setPc w pc) e = free s e := rfl

/-- Writing a fiber frees no entry if the fiber is executing from now on, or was not before. -/
theorem free_of_setFiberOf {j : Job} {fiber : Fiber} {e : Entry}
    (kept : fiber.state = .exec ∨ fiber.state = (s.fiberOf w j).state ∨ (s.fiberOf w j).state ≠ .exec)
    (is_free : free (s.setFiberOf w j fiber) e = true) : free s e = true := by
  have user : ∀ f, (s.fiberOf w j) = s.fibers f → free (s.setFiber f fiber) e = true → free s e = true := by
    intro f fiber_eq is_free
    rw [fiber_eq] at kept
    simp only [free, entryState, stateOf, setFiber, Bool.and_eq_true, bne_iff_ne, ne_eq] at is_free ⊢
    obtain ⟨id, work, thread⟩ := e
    cases work with
    | cb g => exact is_free
    | fiber g =>
      refine ⟨is_free.1, ?_⟩
      have state := is_free.2
      by_cases same : g = f
      · subst same
        simp only [Function.update_self, Option.some.injEq] at state ⊢
        rcases kept with exec | same | not_exec
        · exact absurd exec state
        · rwa [same] at state
        · exact not_exec
      · simpa only [Function.update_of_ne same] using state
  cases j with
  | fiber f entry => exact user f rfl is_free
  | cb f entry => exact user f rfl is_free
  | idle => exact is_free

theorem Turn.looks_to {t : Scheduler} {pc : Pc} (alert : alertAt pc phase = true)
    (queue_eq : t.queue = s.queue) : Turn s w phase (t.setPc w pc) :=
  .looks (by rw [pc_setPc]; exact alert) queue_eq

theorem turn_dequeue (at_ : (s.workers w).pc = .top) : Turn s w phase (s.dequeue w) := by
  rw [dequeue]
  split
  next none_ => exact .sleeps at_ none_ rfl rfl (pc_setPc ..)
  next e left found => exact .takes e left at_ found rfl rfl (by rw [pc_setPc]; rfl)

theorem turn_fail {fault : Scheduler.Fault} (before : alertAt (s.workers w).pc phase = false)
    (looked : (s.workers w).pc ≠ .idleTest) : Turn s w phase (s.fail fault) :=
  .goesOn before rfl (fun _ _ => id) fun drowsy => ⟨drowsy, .inr looked⟩

/-- The worker goes on and leaves the fibers alone. -/
theorem turn_to {pc : Pc} (before : alertAt (s.workers w).pc phase = false)
    (drowsy : drowsyAt pc phase = true → drowsyAt (s.workers w).pc phase = true ∧
      (pc = .swapAssert .idle ∨ (s.workers w).pc ≠ .idleTest)) :
    Turn s w phase (s.setPc w pc) :=
  .goesOn before rfl (fun _ _ => id) (by rw [pc_setPc]; exact drowsy)

theorem queue_setFiberOf (j : Job) (fiber : Fiber) : (s.setFiberOf w j fiber).queue = s.queue := by
  cases j <;> rfl

/-- The worker goes on and writes to its fiber. -/
theorem turn_writing {j : Job} {fiber : Fiber} {pc : Pc} (before : alertAt (s.workers w).pc phase = false)
    (kept : fiber.state = .exec ∨ fiber.state = (s.fiberOf w j).state ∨ (s.fiberOf w j).state ≠ .exec)
    (drowsy : drowsyAt pc phase = true → drowsyAt (s.workers w).pc phase = true ∧
      (pc = .swapAssert .idle ∨ (s.workers w).pc ≠ .idleTest)) :
    Turn s w phase ((s.setFiberOf w j fiber).setPc w pc) :=
  .goesOn before (queue_setFiberOf j fiber) (fun _ _ => free_of_setFiberOf kept)
    (by rw [pc_setPc]; exact drowsy)

theorem ne_exec_of_resettable {state : FiberState} (resettable : state.resettable = true) :
    state ≠ .exec := by
  rintro rfl
  cases resettable

theorem turn_prepare {e : Entry} (known : Known s) (at_ : (s.workers w).pc = .testTerm e) :
    Turn s w phase (s.prepare w e.id) := by
  have before : alertAt (s.workers w).pc phase = false := by rw [at_]; rfl
  rw [prepare]
  split
  next f keeps =>
    split
    next resettable =>
      exact turn_writing (j := .cb f e.id) before (.inr (.inr (ne_exec_of_resettable resettable)))
        fun drowsy => by cases drowsy
    next => exact turn_fail before (fun idle => by cases at_.symm.trans idle)
  next =>
    refine .goesOn before rfl (fun e' member is_free => ?_) fun drowsy => ?_
    · -- nothing in the queue is about the new fiber
      obtain ⟨id, work, thread⟩ := e'
      cases work with
      | cb g => exact is_free
      | fiber g =>
        have other : g ≠ s.fiberCount := Nat.ne_of_lt (known.queued _ member g rfl)
        simpa [free, entryState, stateOf, setFiber, setCbFiber, Function.update_of_ne other] using is_free
    · rw [pc_setPc] at drowsy
      cases drowsy

theorem alert_afterTerminated (j : Job) : alertAt (afterTerminated j) phase = true := by
  cases j <;> rfl

theorem turn_workerStep (known : Known s) (stepped : s.workerStep w = some s') :
    Turn s w phase s' := by
  unfold workerStep at stepped
  split at stepped
  next at_ =>
    cases stepped
    exact turn_dequeue at_
  next e at_ =>
    have before : alertAt (s.workers w).pc phase = false := by rw [at_]; rfl
    split at stepped
    · split at stepped
      · cases stepped
        exact .looks_to rfl rfl
      · cases stepped
        exact turn_to before fun drowsy => by cases drowsy
    · cases stepped
      exact turn_prepare known at_
  next at_ =>
    have before : alertAt (s.workers w).pc phase = false := by rw [at_]; rfl
    split at stepped
    · cases stepped
      exact .looks_to rfl rfl
    · cases stepped
      exact turn_to before fun drowsy => by cases drowsy
  next =>
    cases stepped
    exact .looks_to rfl rfl
  next at_ =>
    have before : alertAt (s.workers w).pc phase = false := by rw [at_]; rfl
    split at stepped
    · cases stepped
      exact turn_to before fun drowsy => by cases drowsy
    · cases stepped
      exact turn_to before fun _ => ⟨by rw [at_]; rfl, .inl rfl⟩
  next j at_ =>
    have before : alertAt (s.workers w).pc phase = false := by rw [at_]; rfl
    split at stepped
    · cases stepped
      exact turn_fail before (by rw [at_]; nofun)
    · cases stepped
      refine turn_to before fun drowsy => ⟨?_, .inr (by rw [at_]; nofun)⟩
      rw [at_]
      cases j <;> first | rfl | cases drowsy
  next j at_ =>
    have before : alertAt (s.workers w).pc phase = false := by rw [at_]; rfl
    cases stepped
    refine turn_writing before (.inl rfl) fun drowsy => ⟨?_, .inr (by rw [at_]; nofun)⟩
    rw [at_]
    cases j <;> first | rfl | cases drowsy
  next j at_ =>
    have before : alertAt (s.workers w).pc phase = false := by rw [at_]; rfl
    split at stepped
    · cases stepped
      by_cases woken : alertAt (.running j) phase = true
      · exact .looks_to woken (queue_setFiberOf j _)
      · refine turn_writing before (.inr (.inl rfl)) fun drowsy => ⟨?_, .inr (by rw [at_]; nofun)⟩
        rw [at_]
        cases j <;> first | rfl | cases drowsy
    · cases stepped
      exact turn_fail before (by rw [at_]; nofun)
  next => cases stepped
  next j st at_ =>
    have before : alertAt (s.workers w).pc phase = false := by rw [at_]; rfl
    split at stepped
    · cases stepped
      exact turn_to before fun drowsy => by cases drowsy
    · cases stepped
      exact turn_fail before (by rw [at_]; nofun)
  next j st at_ =>
    cases stepped
    exact .looks_to rfl (queue_setFiberOf j _)
  next j _ =>
    cases stepped
    refine .looks_to ?_ (queue_setFiberOf j _)
    cases j <;> rfl
  next =>
    split at stepped
    · cases stepped
      exact .looks_to rfl rfl
    · cases stepped
      exact .looks_to rfl rfl
    · cases stepped
  next =>
    split at stepped
    · split at stepped
      · cases stepped
        exact .looks_to rfl rfl
      · cases stepped
        exact .looks_to rfl rfl
    · split at stepped
      · cases stepped
        exact .looks_to rfl rfl
      · cases stepped
        exact .looks_to rfl rfl
    · cases stepped
  next j at_ =>
    split at stepped
    next f entry =>
      cases stepped
      exact .pushes f _ at_ (by rw [at_]; rfl) (by rw [pc_setPc]; rfl) rfl
    next f entry =>
      cases stepped
      exact .pushes f _ at_ (by rw [at_]; rfl) (by rw [pc_setPc]; rfl) rfl
    next => cases stepped
  next j _ =>
    split at stepped
    · cases stepped
      exact .looks_to (alert_afterTerminated j) rfl
    · split at stepped
      · cases stepped
        exact .looks_to rfl rfl
      · cases stepped
        exact .looks_to rfl rfl
  next j _ =>
    split at stepped
    · cases stepped
      exact .looks_to (alert_afterTerminated j) rfl
    · split at stepped
      · cases stepped
        exact .looks_to rfl rfl
      · cases stepped
        exact .looks_to rfl rfl
  next j _ =>
    dsimp only at stepped
    split at stepped
    · cases stepped
      exact .looks_to rfl (queue_setFiberOf _ _)
    · cases stepped
      exact .looks_to rfl (queue_setFiberOf _ _)
  next j at_ =>
    split at stepped
    · cases stepped
      exact .looks_to rfl (queue_setFiberOf j _)
    · cases stepped
      refine .looks ?_ rfl
      have same : ((s.fail .resetAssert).workers w).pc = .reset j := at_
      rw [same]
      rfl
  next => cases stepped

end Turn

/-! ## The locked block -/

/-- `tickle_me` behind the locked block: an entry was for another thread, or there are entries
behind the one that was taken. -/
def tickleMe (fibers : Nat → Fiber) (w : Nat) : List Entry → Bool
  | [] => false
  | e :: rest =>
    if e.thread != -1 && e.thread != w then true
    else if skips fibers w e then tickleMe fibers w rest
    else !rest.isEmpty

section Scan

variable {fibers : Nat → Fiber} {w : Nat}

theorem skips_of_scan_none {queue : List Entry} (none_ : scan fibers w queue = none) :
    ∀ e ∈ queue, skips fibers w e = true := by
  induction queue with
  | nil => nofun
  | cons first rest ih =>
    rw [scan] at none_
    split at none_
    next skipped =>
      split at none_
      next inner =>
        intro e member
        rcases List.mem_cons.mp member with rfl | member
        · exact skipped
        · exact ih inner e member
      next => cases none_
    next => cases none_

/-- Nobody skips an entry that any worker may take. -/
theorem not_skipped {s : Scheduler} {e : Entry} (is_free : free s e = true) :
    skips s.fibers w e = false := by
  obtain ⟨id, work, thread⟩ := e
  simp only [free, Bool.and_eq_true, beq_iff_eq, bne_iff_ne, ne_eq] at is_free
  obtain ⟨thread_eq, state⟩ := is_free
  cases work with
  | cb g => simp [skips, thread_eq]
  | fiber g =>
    simp only [entryState, stateOf, Option.some.injEq] at state
    simp [skips, thread_eq, state]

/-- A worker that takes an entry and leaves one that any worker may take calls `Tickle`. -/
theorem tickleMe_of_left {s : Scheduler} {queue left : List Entry} {e e' : Entry}
    (found : scan s.fibers w queue = some (e, left)) (member : e' ∈ left) (is_free : free s e' = true) :
    tickleMe s.fibers w queue = true := by
  induction queue generalizing left with
  | nil => cases found
  | cons first rest ih =>
    rw [scan] at found
    rw [tickleMe]
    split
    next => rfl
    next =>
      split at found
      next skipped =>
        rw [if_pos skipped]
        split at found
        next => cases found
        next found' left' inner =>
          cases found
          rcases List.mem_cons.mp member with rfl | member
          · rw [not_skipped is_free] at skipped
            cases skipped
          · exact ih inner member
      next taken =>
        cases found
        rw [if_neg taken]
        cases rest with
        | nil => cases member
        | cons => rfl

end Scan

end ServerFrame.Tickle
