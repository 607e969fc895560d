import ServerFrame.Hook.Flags
import ServerFrame.IOManager.Events
import ServerFrame.Lib.Run

/-!
# A hooked call and what happens around it

One call of `DoIo` or of `connect_with_timeout` on one descriptor number, cut into the
steps that others can see, together with the timers the call arms and their callbacks,
the event it registers, and other fibers that close the number and open it again. The
kernel says which open file the number stands for, if any; the files are numbered.

`byClose` and `reached` are not in the source: that the call was woken by a `close`, and
what its system call found at the number from then on.
-/
namespace ServerFrame.Hook

inductive Errno where
  | badf
  | timedOut
  | again
  | intr
  | other (errno : Nat)
  deriving DecidableEq, Repr

/-- What a system call answers. `EINPROGRESS` of `connect` counts as `EAGAIN`. -/
inductive Answer where
  | value (n : Int)
  | error (errno : Errno)
  deriving DecidableEq, Repr

inductive Kind where
  | doIo (event : IOManager.Event)
  | connect (timeoutMs : UInt64)
  deriving DecidableEq, Repr

/-- Where the call stands. -/
inductive Pc where
  | enter
  /-- The original function is called and its answer returned. -/
  | direct
  /-- At `retry`. -/
  | io
  /-- `EAGAIN`, before the timer is armed. -/
  | arm
  /-- Before `AddEvent`. -/
  | add
  /-- `AddEvent` failed, before the timer is cancelled. -/
  | failed
  /-- Registered, before `YieldToHold`. -/
  | yield
  | parked
  /-- Behind `YieldToHold`, before the timer is cancelled. -/
  | resumed
  /-- Before the test of `tinfo->cancelled`. -/
  | check
  /-- `connect_with_timeout` before `getsockopt`. -/
  | sockopt
  | returned (answer : Answer)
  deriving DecidableEq, Repr

/-- A timer of the call. Its callback first tests and sets `cancelled`, then calls
`CancelEvent`. -/
inductive TimerState where
  | pending
  /-- Collected, before the test. -/
  | fired
  /-- Behind the test, before `CancelEvent`. -/
  | canceling
  | done
  | cancelled
  deriving DecidableEq, Repr

/-- Where another fiber stands in `close` or in `socket` and `accept`. -/
inductive Other where
  | idle
  /-- `close` with a context, before `CancelAll`. -/
  | closing
  /-- `close` before `Del`. -/
  | canceled
  /-- `close` before `close_f`. -/
  | deleted
  /-- `socket` or `accept` before `Get(fd, true)`. -/
  | opened
  deriving DecidableEq, Repr

/-- `timeout` is `to`, `cancelled` that of `tinfo`, `timers` those armed by the call,
the last one for its present turn. `registered` tells whether the call's fiber is in the
event table and `scheduled` whether it is queued; `datas` is the entry of `FdManager`. -/
structure World where
  kind : Kind
  pc : Pc
  timeout : UInt64
  cancelled : Bool
  timers : List TimerState
  registered : Bool
  scheduled : Bool
  file : Option Nat
  files : Nat
  datas : Option FdContext
  others : Nat → Other
  byClose : Bool
  reached : List (Option Nat)

/-- A call that begins, on an open file. -/
def World.new (kind : Kind) (datas : Option FdContext) : World where
  kind := kind
  pc := .enter
  timeout := -1
  cancelled := false
  timers := []
  registered := false
  scheduled := false
  file := some 0
  files := 1
  datas := datas
  others := fun _ => .idle
  byClose := false
  reached := []

def FdContext.getTimeout (ctx : FdContext) : IOManager.Event → UInt64
  | .read => ctx.recvTimeout
  | .write => ctx.sendTimeout

/-- The tests at the start of the call. -/
def enter (w : World) : World :=
  match w.kind, w.datas with
  -- without a context the original function is called
  | .doIo _, none => { w with pc := .direct }
  | .connect _, none => { w with pc := .returned (.error .badf) }
  -- `IsClose`, then `IsSocket` and `IsUserNonblock`
  | kind, some ctx =>
    if ctx.isClosed then { w with pc := .returned (.error .badf) }
    else if !ctx.isSocket || ctx.isUserNonblock then { w with pc := .direct }
    else
      match kind with
      | .doIo event => { w with pc := .io, timeout := ctx.getTimeout event }
      | .connect timeoutMs => { w with pc := .io, timeout := timeoutMs }

/-- What the system call answers: a number without a file is a bad descriptor. -/
def World.answer (w : World) (answer : Answer) : Answer :=
  match w.file with
  | some _ => answer
  | none => .error .badf

/-- What the call does with the answer. -/
def afterIo (kind : Kind) : Answer → Pc
  | .error .again => .arm
  -- only `DoIo` calls again on `EINTR`
  | .error .intr =>
    match kind with
    | .doIo _ => .io
    | .connect _ => .returned (.error .intr)
  | answer => .returned answer

/-- `timer->Cancel()` on the timer of this turn: nothing when it has been collected. -/
def World.cancelTimer (w : World) : World :=
  match w.timers.getLast? with
  | some .pending => { w with timers := w.timers.set (w.timers.length - 1) .cancelled }
  | _ => w

/-- `TriggerEvent`: the event is removed and its fiber queued. -/
def World.trigger (w : World) : World := { w with registered := false, scheduled := true }

inductive Label where
  | enter
  | direct (answer : Answer)
  | io (answer : Answer)
  | arm
  | add (ok : Bool)
  | cancelFailed
  | yield
  | resume
  | cancelTimer
  | check
  | sockopt (answer : Answer)
  /-- Timer `j` is collected by `ListExpiredCb`. -/
  | expire (j : Nat)
  /-- The callback of timer `j` tests and sets `cancelled`. -/
  | test (j : Nat)
  /-- The callback of timer `j` calls `CancelEvent`. -/
  | cancelEvent (j : Nat) (ok : Bool)
  /-- The descriptor is ready. -/
  | ready
  | closeGet (t : Nat)
  | cancelAll (t : Nat) (ok : Bool)
  | del (t : Nat)
  | closeFd (t : Nat)
  | openFd (t : Nat)
  | manage (t : Nat)
  deriving DecidableEq

def World.gotoOther (w : World) (t : Nat) (other : Other) : World :=
  { w with others := Function.update w.others t other }

/-- The steps of the call. -/
def stepCall (w : World) : Label → Option World
  | .enter => if w.pc = .enter then some (enter w) else none
  | .direct answer =>
    if w.pc = .direct then some { w with pc := .returned (w.answer answer) } else none
  | .io answer =>
    if w.pc = .io then
      some { w with
        pc := afterIo w.kind (w.answer answer)
        reached := if w.byClose then w.reached ++ [w.file] else w.reached }
    else none
  -- `AddConditionTimer`, unless the time-out is `(uint64_t)-1`
  | .arm =>
    if w.pc = .arm then
      if w.timeout = -1 then some { w with pc := .add }
      else some { w with pc := .add, timers := w.timers ++ [.pending] }
    else none
  -- `AddEvent` fails as well when the number is closed by now
  | .add ok =>
    if w.pc = .add then
      if ok && w.file.isSome then some { w with pc := .yield, registered := true }
      else some { w with pc := .failed }
    else none
  -- `DoIo` gives up with the `errno` of the failed call; a connect goes on
  | .cancelFailed =>
    if w.pc = .failed then
      match w.kind with
      | .doIo _ => some { w.cancelTimer with pc := .returned (.error (.other 0)) }
      | .connect _ => some { w.cancelTimer with pc := .sockopt }
    else none
  | .yield => if w.pc = .yield then some { w with pc := .parked } else none
  -- the scheduler runs the fiber that was queued by `TriggerEvent`
  | .resume =>
    if w.pc = .parked ∧ w.scheduled = true then some { w with pc := .resumed, scheduled := false }
    else none
  | .cancelTimer => if w.pc = .resumed then some { w.cancelTimer with pc := .check } else none
  -- `tinfo->cancelled`; without a time-out `DoIo` goes to `retry` and looks at nothing else
  | .check =>
    if w.pc = .check then
      if w.cancelled then some { w with pc := .returned (.error .timedOut) }
      else
        match w.kind with
        | .doIo _ => some { w with pc := .io }
        | .connect _ => some { w with pc := .sockopt }
    else none
  | .sockopt answer =>
    if w.pc = .sockopt then some { w with pc := .returned (w.answer answer) } else none
  | _ => none

def Pc.isReturned : Pc → Bool
  | .returned _ => true
  | _ => false

/-- The steps of the timers, of the kernel and of other fibers. -/
def stepAround (w : World) : Label → Option World
  | .expire j =>
    if w.timers[j]? = some .pending then some { w with timers := w.timers.set j .fired } else none
  | .test j =>
    if w.timers[j]? = some .fired then
      -- `tinfo` is gone when the call has returned
      if w.pc.isReturned || w.cancelled then some { w with timers := w.timers.set j .done }
      else some { w with cancelled := true, timers := w.timers.set j .canceling }
    else none
  -- `CancelEvent` finds the event only when it is registered already
  | .cancelEvent j ok =>
    if w.timers[j]? = some .canceling then
      if w.registered && ok then some { w.trigger with timers := w.timers.set j .done }
      else some { w with timers := w.timers.set j .done }
    else none
  | .ready => if w.registered then some w.trigger else none
  | .closeGet t =>
    if w.others t = .idle then
      if w.datas.isSome then some (w.gotoOther t .closing) else some (w.gotoOther t .deleted)
    else none
  -- `close`: the waiting call is woken while the file is still open
  | .cancelAll t ok =>
    if w.others t = .closing then
      if w.registered && ok then some ({ w.trigger with byClose := true }.gotoOther t .canceled)
      else some (w.gotoOther t .canceled)
    else none
  | .del t =>
    if w.others t = .canceled then some ({ w with datas := none }.gotoOther t .deleted) else none
  | .closeFd t =>
    if w.others t = .deleted then some ({ w with file := none }.gotoOther t .idle) else none
  -- the kernel gives the lowest free number out again
  | .openFd t =>
    if w.others t = .idle ∧ w.file = none then
      some ({ w with file := some w.files, files := w.files + 1 }.gotoOther t .opened)
    else none
  | .manage t =>
    if w.others t = .opened then
      match w.datas with
      | some _ => some (w.gotoOther t .idle)
      | none => some ({ w with datas := some (FdContext.init 0 ⟨true, 0⟩).2 }.gotoOther t .idle)
    else none
  | _ => none

def step (w : World) (label : Label) : Option World :=
  (stepCall w label).orElse fun _ => stepAround w label

end ServerFrame.Hook
