import Mathlib.Algebra.Ring.Nat
import Mathlib.Data.List.Basic
import Mathlib.Logic.Function.Basic

/-!
# Workers and fibers of `Scheduler`

Any number of threads run `Scheduler::Run` on one task queue. What a thread does is cut
into the steps that other threads can see: the locked block that takes a task from
`fibers_` is one step, and every read or write of a fiber's `state_`, every
`swapcontext` and every change of `active_thread_count_` is one step of its own. A
fiber's code runs on the thread that swapped it in, so the position of a thread covers
the steps of its fiber's yield as well. `Tickle` only wakes threads up and is left out,
and with it the count of idle threads that only `Tickle` reads.
-/
namespace ServerFrame

/-- `Fiber::State`. -/
inductive FiberState where
  | init
  | hold
  | exec
  | term
  | ready
  | except
  deriving DecidableEq, Repr

def FiberState.terminated : FiberState → Bool
  | .term => true
  | .except => true
  | _ => false

/-- The assertion of `Reset`. -/
def FiberState.resettable : FiberState → Bool
  | .term => true
  | .except => true
  | .init => true
  | _ => false

/-- What `Schedule` takes: a fiber or a callback. -/
inductive Work where
  | fiber (id : Nat)
  | cb (id : Nat)
  deriving DecidableEq, Repr

namespace Scheduler

/-- `saved` tells whether `context_` holds a context that can be resumed: a new or
reset fiber has the one of `makecontext`, a fiber that was swapped out has its own, and
resuming the fiber uses it up. -/
structure Fiber where
  state : FiberState
  saved : Bool
  deriving DecidableEq, Repr

/-- A fiber from its constructor or from `Reset`. -/
def Fiber.new : Fiber := ⟨.init, true⟩

/-- A `FiberAndThread` in `fibers_`. `id` is not in the source: it numbers the accepted
entries in the order they were scheduled. -/
structure Entry where
  id : Nat
  work : Work
  thread : Int
  deriving DecidableEq, Repr

/-- The fiber a thread swaps in: the one of an entry, the one that runs the callback of
an entry, or its idle fiber when there is nothing to do. -/
inductive Job where
  | fiber (f : Nat) (entry : Nat)
  | cb (f : Nat) (entry : Nat)
  | idle
  deriving DecidableEq, Repr

def Job.isIdle : Job → Bool
  | .idle => true
  | _ => false

/-- Where a thread stands. -/
inductive Pc where
  /-- Before the locked block at the head of the loop. -/
  | top
  /-- `ft.fiber_->GetState() != kTerm`, or the branch for a callback. -/
  | testTerm (e : Entry)
  /-- `ft.fiber_->GetState() != kExcept`. -/
  | testExcept (e : Entry) (fiber : Nat)
  /-- `is_active`: the entry was taken and its fiber had ended in state `st`. -/
  | drop (entry : Nat) (st : FiberState)
  /-- `idle_fiber->GetState() == kTerm`. -/
  | idleTest
  /-- The assertion of `SwapIn`. -/
  | swapAssert (j : Job)
  /-- `state_ = kExec` in `SwapIn`. -/
  | swapSet (j : Job)
  /-- `swapcontext` in `SwapIn`. -/
  | swapLoad (j : Job)
  /-- The fiber executes its own code. -/
  | running (j : Job)
  /-- The assertion of `YieldToReady` and `YieldToHold`. -/
  | yieldAssert (j : Job) (st : FiberState)
  /-- `cur->state_ = ` in a yield or at the end of `MainFunc`. -/
  | yieldWrite (j : Job) (st : FiberState)
  /-- `swapcontext` in `SwapOut`. -/
  | swapOut (j : Job)
  /-- `--active_thread_count_` after `SwapIn` returned. -/
  | decrement (j : Job)
  /-- `GetState() == kReady`. -/
  | readReady (j : Job)
  /-- `Schedule` of the fiber that yielded. -/
  | reschedule (j : Job)
  | readTerm (j : Job)
  | readExcept (j : Job)
  /-- `state_ = kHold` by the thread. -/
  | setHold (j : Job)
  /-- `cb_fiber->Reset(nullptr)`. -/
  | reset (j : Job)
  /-- `Run` has returned. -/
  | exited
  deriving DecidableEq, Repr

/-- A thread in `Run` with its local variables `cb_fiber` and `idle_fiber`. -/
structure Worker where
  pc : Pc
  cbFiber : Option Nat
  idle : Fiber
  deriving DecidableEq, Repr

/-- A failed assertion, or a fiber that is resumed without a saved context. -/
inductive Fault where
  | swapInAssert
  | yieldAssert
  | resetAssert
  | resumedUnsaved
  deriving DecidableEq, Repr

/-- An entry taken by a worker, with the state its fiber had. -/
structure Dequeue where
  entry : Entry
  worker : Nat
  state : Option FiberState
  deriving DecidableEq, Repr

end Scheduler

open Scheduler in
/-- Thread `w` has the id `w`, and fibers below `fiberCount` have been made. The last
five fields are not in the source: they record how many entries were accepted, what was
taken by whom, which entries were run to their end or dropped, and which fibers have
registered themselves for a wake-up. -/
structure Scheduler where
  threads : Nat
  workers : Nat → Worker
  fibers : Nat → Fiber
  fiberCount : Nat
  queue : List Entry
  activeThreadCount : Nat
  autoStop : Bool
  stopping : Bool
  fault : Option Scheduler.Fault
  issued : Nat
  taken : List Dequeue
  finished : List Nat
  dropped : List (Nat × FiberState)
  registered : Nat → Bool

namespace Scheduler

/-- After `Start`, with `threads` workers. -/
def start (threads : Nat) : Scheduler where
  threads := threads
  workers := fun _ => ⟨.top, none, .new⟩
  fibers := fun _ => .new
  fiberCount := 0
  queue := []
  activeThreadCount := 0
  autoStop := false
  stopping := false
  fault := none
  issued := 0
  taken := []
  finished := []
  dropped := []
  registered := fun _ => false

def stateOf (s : Scheduler) (f : Nat) : FiberState := (s.fibers f).state

/-- `Stopping()`, evaluated under the lock. -/
def isStopping (s : Scheduler) : Bool :=
  s.autoStop && s.stopping && s.queue.isEmpty && s.activeThreadCount == 0

def setPc (s : Scheduler) (w : Nat) (pc : Pc) : Scheduler :=
  { s with workers := Function.update s.workers w { s.workers w with pc := pc } }

def setCbFiber (s : Scheduler) (w : Nat) (f : Option Nat) : Scheduler :=
  { s with workers := Function.update s.workers w { s.workers w with cbFiber := f } }

def setFiber (s : Scheduler) (f : Nat) (fiber : Fiber) : Scheduler :=
  { s with fibers := Function.update s.fibers f fiber }

/-- The fiber of a job of thread `w`. -/
def fiberOf (s : Scheduler) (w : Nat) : Job → Fiber
  | .fiber f _ => s.fibers f
  | .cb f _ => s.fibers f
  | .idle => (s.workers w).idle

def setFiberOf (s : Scheduler) (w : Nat) (j : Job) (fiber : Fiber) : Scheduler :=
  match j with
  | .fiber f _ => s.setFiber f fiber
  | .cb f _ => s.setFiber f fiber
  | .idle => { s with workers := Function.update s.workers w { s.workers w with idle := fiber } }

def fail (s : Scheduler) (fault : Fault) : Scheduler := { s with fault := some fault }

section Setters

variable (s : Scheduler) (w v f : Nat)

@[simp] theorem pc_setPc (pc : Pc) : ((s.setPc w pc).workers w).pc = pc := by
  simp [setPc]

@[simp] theorem cbFiber_setPc (pc : Pc) :
    ((s.setPc w pc).workers v).cbFiber = (s.workers v).cbFiber := by
  by_cases same : v = w
  · subst same
    simp [setPc]
  · simp [setPc, Function.update_of_ne same]

@[simp] theorem pc_setCbFiber (g : Option Nat) :
    ((s.setCbFiber w g).workers v).pc = (s.workers v).pc := by
  by_cases same : v = w
  · subst same
    simp [setCbFiber]
  · simp [setCbFiber, Function.update_of_ne same]

@[simp] theorem cbFiber_setCbFiber (g : Option Nat) :
    ((s.setCbFiber w g).workers w).cbFiber = g := by
  simp [setCbFiber]

theorem workers_setPc_of_ne (pc : Pc) (other : v ≠ w) :
    (s.setPc w pc).workers v = s.workers v :=
  Function.update_of_ne other _ _

theorem workers_setCbFiber_of_ne (g : Option Nat) (other : v ≠ w) :
    (s.setCbFiber w g).workers v = s.workers v :=
  Function.update_of_ne other _ _

@[simp] theorem workers_setFiber (fiber : Fiber) : (s.setFiber f fiber).workers = s.workers := rfl

@[simp] theorem pc_setFiberOf (j : Job) (fiber : Fiber) :
    ((s.setFiberOf w j fiber).workers v).pc = (s.workers v).pc := by
  cases j with
  | fiber f _ => rfl
  | cb f _ => rfl
  | idle =>
    by_cases same : v = w
    · subst same
      simp [setFiberOf]
    · simp [setFiberOf, Function.update_of_ne same]

theorem workers_setFiberOf_of_ne (j : Job) (fiber : Fiber) (other : v ≠ w) :
    (s.setFiberOf w j fiber).workers v = s.workers v := by
  cases j with
  | fiber f _ => rfl
  | cb f _ => rfl
  | idle => exact Function.update_of_ne other _ _

@[simp] theorem fibers_setPc (pc : Pc) : (s.setPc w pc).fibers = s.fibers := rfl

@[simp] theorem fibers_setCbFiber (g : Option Nat) : (s.setCbFiber w g).fibers = s.fibers := rfl

end Setters

/-- `ScheduleNoLock` on one item; a null fiber or callback is not accepted. -/
def scheduleNoLock (s : Scheduler) (work : Option Work) (thread : Int) : Scheduler :=
  match work with
  | none => s
  | some work => { s with queue := s.queue ++ [⟨s.issued, work, thread⟩], issued := s.issued + 1 }

/-- The locked loop of `Schedule` over a range. A single call is a range of one. -/
def schedule (s : Scheduler) : List (Option Work × Int) → Scheduler
  | [] => s
  | (work, thread) :: items => (s.scheduleNoLock work thread).schedule items

/-- The scan skips the entry: it is for another thread, or its fiber is executing. -/
def skips (fibers : Nat → Fiber) (w : Nat) (e : Entry) : Bool :=
  (e.thread != -1 && e.thread != w) ||
    match e.work with
    | .fiber f => (fibers f).state == .exec
    | .cb _ => false

/-- The loop over `fibers_` in the locked block: the entry taken, and those left. -/
def scan (fibers : Nat → Fiber) (w : Nat) : List Entry → Option (Entry × List Entry)
  | [] => none
  | e :: rest =>
    -- a skipped entry keeps its place
    if skips fibers w e then
      match scan fibers w rest with
      | none => none
      | some (found, left) => some (found, e :: left)
    else some (e, rest)

/-- The state of an entry's fiber. -/
def entryState (s : Scheduler) (e : Entry) : Option FiberState :=
  match e.work with
  | .fiber f => some (s.stateOf f)
  | .cb _ => none

/-- The locked block. -/
def dequeue (s : Scheduler) (w : Nat) : Scheduler :=
  match scan s.fibers w s.queue with
  -- nothing to take: `ft` stays empty and the pass is one of the idle fiber
  | none => s.setPc w .idleTest
  | some (e, left) =>
    { s with
      queue := left
      activeThreadCount := s.activeThreadCount + 1
      taken := s.taken ++ [Dequeue.mk e w (s.entryState e)] }.setPc w (.testTerm e)

/-- The branch for a callback: the worker's fiber is reused, or a new one is made. -/
def prepare (s : Scheduler) (w : Nat) (entry : Nat) : Scheduler :=
  match (s.workers w).cbFiber with
  -- `cb_fiber->Reset(ft.cb_)`
  | some f =>
    if (s.stateOf f).resettable then (s.setFiber f .new).setPc w (.swapAssert (.cb f entry))
    else s.fail .resetAssert
  -- `cb_fiber.reset(new Fiber(ft.cb_))`
  | none =>
    let f := s.fiberCount
    (({ s with fiberCount := s.fiberCount + 1 }.setFiber f .new).setCbFiber w (some f)).setPc w
      (.swapAssert (.cb f entry))

/-- The end of a pass whose fiber has terminated. -/
def afterTerminated (j : Job) : Pc :=
  match j with
  | .cb _ _ => .reset j
  | _ => .top

/-- `--active_thread_count_` after the pass for `entry`. -/
def release (s : Scheduler) (entry : Nat) : Scheduler :=
  { s with activeThreadCount := s.activeThreadCount - 1, finished := s.finished ++ [entry] }

/-- The next step of thread `w`, when its fiber's own code is not running. -/
def workerStep (s : Scheduler) (w : Nat) : Option Scheduler :=
  match (s.workers w).pc with
  | .top => some (s.dequeue w)
  -- the two reads of the state in the condition of the first branch
  | .testTerm e =>
    match e.work with
    | .fiber f =>
      if s.stateOf f = .term then some (s.setPc w (.drop e.id .term))
      else some (s.setPc w (.testExcept e f))
    | .cb _ => some (s.prepare w e.id)
  | .testExcept e f =>
    if s.stateOf f = .except then some (s.setPc w (.drop e.id .except))
    else some (s.setPc w (.swapAssert (.fiber f e.id)))
  -- the third branch with `is_active`: a fiber that is over is forgotten
  | .drop entry st =>
    some ({ s with
      activeThreadCount := s.activeThreadCount - 1
      dropped := s.dropped ++ [(entry, st)] }.setPc w .top)
  | .idleTest =>
    if (s.workers w).idle.state = .term then some (s.setPc w .exited)
    else some (s.setPc w (.swapAssert .idle))
  -- `SwapIn`: the assertion, the write of `kExec`, the `swapcontext`
  | .swapAssert j =>
    if (s.fiberOf w j).state = .exec then some (s.fail .swapInAssert)
    else some (s.setPc w (.swapSet j))
  | .swapSet j =>
    some ((s.setFiberOf w j { s.fiberOf w j with state := .exec }).setPc w (.swapLoad j))
  | .swapLoad j =>
    if (s.fiberOf w j).saved then
      some ((s.setFiberOf w j { s.fiberOf w j with saved := false }).setPc w (.running j))
    else some (s.fail .resumedUnsaved)
  -- the code of the fiber itself is in `fiberStep`
  | .running _ => none
  -- `YieldToReady` and `YieldToHold`: the assertion, the new state, the `swapcontext` back
  | .yieldAssert j st =>
    if (s.fiberOf w j).state = .exec then some (s.setPc w (.yieldWrite j st))
    else some (s.fail .yieldAssert)
  | .yieldWrite j st =>
    some ((s.setFiberOf w j { s.fiberOf w j with state := st }).setPc w (.swapOut j))
  | .swapOut j =>
    -- `SwapIn` returns; a pass with the idle fiber is not counted as active
    let next := if j.isIdle then .readTerm j else .decrement j
    some ((s.setFiberOf w j { s.fiberOf w j with saved := true }).setPc w next)
  | .decrement j =>
    match j with
    -- behind `SwapIn`, before the state is looked at
    | .fiber _ entry => some ((s.release entry).setPc w (.readReady j))
    | .cb _ entry => some ((s.release entry).setPc w (.readReady j))
    | .idle => none
  | .readReady j =>
    match j with
    | .fiber _ _ =>
      if (s.fiberOf w j).state = .ready then some (s.setPc w (.reschedule j))
      else some (s.setPc w (.readTerm j))
    | .cb _ _ =>
      if (s.fiberOf w j).state = .ready then
        some ((s.setCbFiber w none).setPc w (.reschedule j))
      else some (s.setPc w (.readExcept j))
    | .idle => none
  | .reschedule j =>
    match j with
    | .fiber f _ => some ((s.scheduleNoLock (some (.fiber f)) (-1)).setPc w .top)
    | .cb f _ => some ((s.scheduleNoLock (some (.fiber f)) (-1)).setPc w .top)
    | .idle => none
  | .readTerm j =>
    -- a pass for a callback tests `kExcept` first
    if (s.fiberOf w j).state = .term then some (s.setPc w (afterTerminated j))
    else
      match j with
      | .cb _ _ => some (s.setPc w (.setHold j))
      | _ => some (s.setPc w (.readExcept j))
  | .readExcept j =>
    if (s.fiberOf w j).state = .except then some (s.setPc w (afterTerminated j))
    else
      match j with
      | .cb _ _ => some (s.setPc w (.readTerm j))
      | _ => some (s.setPc w (.setHold j))
  -- neither ready nor over: `state_` is written by the worker once more
  | .setHold j =>
    let held := s.setFiberOf w j { s.fiberOf w j with state := .hold }
    match j with
    | .cb _ _ => some ((held.setCbFiber w none).setPc w .top)
    | _ => some (held.setPc w .top)
  -- `cb_fiber->Reset(nullptr)`
  | .reset j =>
    if (s.fiberOf w j).state.resettable then some ((s.setFiberOf w j .new).setPc w .top)
    else some (s.fail .resetAssert)
  | .exited => none

/-- What the code of a running fiber does next, as far as the scheduler sees it. -/
inductive Choice where
  /-- It hands itself to an event or a timer that may schedule it. -/
  | register
  | yieldToReady
  | yieldToHold
  /-- It returns from its callback, or throws out of it. -/
  | finish
  | throw
  /-- `SwapOut` without a yield, by which `IOManager::Idle` gives way. -/
  | swapOut
  deriving DecidableEq, Repr

/-- A step of the code of a fiber on thread `w`. An idle fiber runs `Idle`: it ends when
`Stopping()` is true and gives way otherwise, and never registers itself. -/
def fiberStep (s : Scheduler) (w : Nat) (j : Job) : Choice → Option Scheduler
  -- an event or a timer holds the fiber from now on
  | .register =>
    match j with
    | .fiber f _ => some { s with registered := Function.update s.registered f true }
    | .cb f _ => some { s with registered := Function.update s.registered f true }
    | .idle => none
  | .yieldToReady => if j.isIdle then none else some (s.setPc w (.yieldAssert j .ready))
  | .yieldToHold =>
    if j.isIdle && s.isStopping then none else some (s.setPc w (.yieldAssert j .hold))
  | .finish =>
    if j.isIdle && !s.isStopping then none else some (s.setPc w (.yieldWrite j .term))
  | .throw => if j.isIdle then none else some (s.setPc w (.yieldWrite j .except))
  | .swapOut =>
    if j.isIdle && !s.isStopping then some (s.setPc w (.swapOut j)) else none

/-- What any thread may do: a worker or a running fiber takes a step, someone makes a
fiber or schedules tasks, or `Stop` sets one of its flags. -/
inductive Action where
  | worker (w : Nat)
  | fiber (w : Nat) (choice : Choice)
  | makeFiber
  | schedule (items : List (Option Work × Int))
  | setAutoStop
  | setStopping
  deriving DecidableEq, Repr

/-- Only a fiber that was made can be handed to `Schedule`. -/
def knows (s : Scheduler) : Option Work × Int → Bool
  | (some (.fiber f), _) => f < s.fiberCount
  | _ => true

/-- A fault ends the program. -/
def step (s : Scheduler) (action : Action) : Option Scheduler :=
  if s.fault.isSome then none
  else
    match action with
    -- a fault is an assertion that fails or a jump into a stale context
    | .worker w => if w < s.threads then s.workerStep w else none
    | .fiber w choice =>
      if w < s.threads then
        match (s.workers w).pc with
        | .running j => s.fiberStep w j choice
        | _ => none
      else none
    | .makeFiber =>
      some ({ s with fiberCount := s.fiberCount + 1 }.setFiber s.fiberCount .new)
    | .schedule items => if items.all s.knows then some (s.schedule items) else none
    | .setAutoStop => some { s with autoStop := true }
    | .setStopping => some { s with stopping := true }

end Scheduler

end ServerFrame
