import ServerFrame.Lib.EState
import ServerFrame.Scheduler.Model

/-!
# Event table of `IOManager`

`ygw::scheduler::IOManager` keeps one `FdContext` for each descriptor and registers
its events with epoll. The kernel's side is part of the state: `interest fd` is what
epoll watches on `fd`. Every call of `epoll_ctl` is free to fail, which is the
argument `ok` of the operations; it fails as well when the descriptor is registered
already (`ADD`) or not at all (`MOD`, `DEL`). The pipe that `Tickle` writes to is
registered apart from the table and never reaches it, so it is left out. Sizes and
counters are unbounded here: a table of 2^31 contexts does not fit in memory.
-/
namespace ServerFrame

namespace IOManager

/-- The events one can register: `kRead` is `EPOLLIN`, `kWrite` is `EPOLLOUT`. -/
inductive Event where
  | read
  | write
  deriving DecidableEq, Repr

/-- A bit set of events, as in `events_` and in the `events` of an epoll record. -/
structure Events where
  read : Bool
  write : Bool
  deriving DecidableEq, Repr

namespace Events

def none : Events := ⟨false, false⟩

def has (events : Events) : Event → Bool
  | .read => events.read
  | .write => events.write

/-- `events | event`. -/
def add (events : Events) : Event → Events
  | .read => { events with read := true }
  | .write => { events with write := true }

/-- `events & ~event`. -/
def remove (events : Events) : Event → Events
  | .read => { events with read := false }
  | .write => { events with write := false }

def union (a b : Events) : Events := ⟨a.read || b.read, a.write || b.write⟩

def inter (a b : Events) : Events := ⟨a.read && b.read, a.write && b.write⟩

/-- `a & ~b`. -/
def diff (a b : Events) : Events := ⟨a.read && !b.read, a.write && !b.write⟩

/-- The number of bits set. -/
def count (events : Events) : Nat := events.read.toNat + events.write.toNat

end Events

/-- A piece of work and the scheduler it is meant for. -/
structure Task where
  scheduler : Option Nat
  work : Work
  deriving DecidableEq, Repr

/-- `ticket` is not in the source: it tells which `AddEvent` filled the context. -/
structure EventContext where
  scheduler : Option Nat
  fiber : Option Nat
  cb : Option Nat
  ticket : Nat
  deriving DecidableEq, Repr

def EventContext.new : EventContext := ⟨none, none, none, 0⟩

structure FdContext where
  read : EventContext
  write : EventContext
  fd : Nat
  events : Events
  deriving DecidableEq, Repr

namespace FdContext

def new (fd : Nat) : FdContext := ⟨.new, .new, fd, .none⟩

def getContext (ctx : FdContext) : Event → EventContext
  | .read => ctx.read
  | .write => ctx.write

/-- Assignment through the reference that `GetContext` returns. -/
def setContext (ctx : FdContext) (event : Event) (event_ctx : EventContext) : FdContext :=
  match event with
  | .read => { ctx with read := event_ctx }
  | .write => { ctx with write := event_ctx }

/-- `ResetContext(GetContext(event))`. -/
def resetContext (ctx : FdContext) (event : Event) : FdContext :=
  ctx.setContext event { ctx.getContext event with scheduler := none, fiber := none, cb := none }

end FdContext

/-- The assertions of `iomanager.cc`, and the ways to leave defined behaviour. -/
inductive Fault where
  /-- `!(fd_ctx->events_ & event)` in `AddEvent`. -/
  | alreadyRegistered
  /-- `!event_ctx.scheduler && !event_ctx.fiber && !event_ctx.cb` in `AddEvent`. -/
  | contextInUse
  /-- `event_ctx.fiber->GetState() == kExec` in `AddEvent`. -/
  | notExec
  /-- `events_ & event` in `TriggerEvent`. -/
  | notRegistered
  /-- `fd_ctx->events_ == 0` in `CancelAll`. -/
  | eventsLeft
  | nullScheduler
  /-- An index outside of `fd_contexts_`. -/
  | badIndex
  /-- `pending_event_count_` is decremented at zero. -/
  | underflow
  deriving DecidableEq, Repr

inductive CtlOp where
  | add
  | mod
  | del
  deriving DecidableEq, Repr

end IOManager

open IOManager in
/-- `issued`, `deleted` and `handed` are not in the source. They record the work that
successful `AddEvent`s registered, the tickets that `DelEvent` dropped, and what went
to `Schedule`. -/
structure IOManager where
  fdContexts : List FdContext
  pendingEventCount : Nat
  interest : Nat → Option Events
  issued : List Task
  deleted : List Nat
  handed : List (Nat × Task)

namespace IOManager

abbrev IOManagerM := EStateM Fault IOManager

/-- `resize` and the loop that fills the new places. -/
def contextResize (size : Nat) (m : IOManager) : IOManager :=
  { m with
    fdContexts := m.fdContexts.take size ++
      (List.range (size - m.fdContexts.length)).map fun i => FdContext.new (m.fdContexts.length + i) }

def new : IOManager := contextResize 32 ⟨[], 0, fun _ => none, [], [], []⟩

/-- `epoll_ctl(epfd_, op, fd, {EPOLLET | events})`; the result tells whether it returns 0. -/
def epollCtl (ok : Bool) (op : CtlOp) (fd : Nat) (events : Events) : IOManagerM Bool := do
  let m ← get
  match ok, op, m.interest fd with
  | true, .add, none
  | true, .mod, some _ =>
    set { m with interest := Function.update m.interest fd (some events) }
    return true
  | true, .del, some _ =>
    set { m with interest := Function.update m.interest fd none }
    return true
  | _, _, _ => return false

/-- `fd_contexts_[fd]`. -/
def fdContext (fd : Int) : IOManagerM FdContext := do
  let m ← get
  if fd < 0 then throw .badIndex
  else
    match m.fdContexts[fd.toNat]? with
    | none => throw .badIndex
    | some ctx => return ctx

/-- Stores through an `FdContext*`. -/
def setFdContext (i : Nat) (ctx : FdContext) : IOManagerM Unit :=
  modify fun m => { m with fdContexts := m.fdContexts.set i ctx }

/-- `--pending_event_count_`. -/
def decrement : IOManagerM Unit := do
  let m ← get
  if m.pendingEventCount = 0 then throw .underflow
  else set { m with pendingEventCount := m.pendingEventCount - 1 }

/-- `Schedule(&ctx.cb)` or `Schedule(&ctx.fiber)`: the pointer's content is swapped into
the queue entry, and an entry with nothing in it is not queued. -/
def schedule (scheduler : Nat) (event_ctx : EventContext) : IOManagerM EventContext := do
  match event_ctx.cb, event_ctx.fiber with
  | some cb, _ =>
    modify fun m => { m with handed := m.handed ++ [(event_ctx.ticket, ⟨some scheduler, .cb cb⟩)] }
    return { event_ctx with cb := none }
  | none, some fiber =>
    modify fun m => { m with handed := m.handed ++ [(event_ctx.ticket, ⟨some scheduler, .fiber fiber⟩)] }
    return { event_ctx with fiber := none }
  | none, none => return event_ctx

def triggerEvent (i : Nat) (event : Event) : IOManagerM Unit := do
  let ctx ← fdContext i
  if ¬ ctx.events.has event then throw .notRegistered
  else
    match (ctx.getContext event).scheduler with
    | none => throw .nullScheduler
    | some scheduler =>
      let event_ctx ← schedule scheduler (ctx.getContext event)
      setFdContext i ({ ctx with events := ctx.events.remove event }.setContext event
        { event_ctx with scheduler := none })

/-- The fiber and the scheduler a member function is called on: `Fiber::GetThis()`
with its state, and `Scheduler::GetThis()`. -/
structure Caller where
  scheduler : Option Nat
  fiber : Nat
  state : FiberState
  deriving DecidableEq, Repr

/-- The block at the start of `AddEvent`, which enlarges the table for a new `fd`. -/
def findContext (fd : Int) : IOManagerM FdContext := do
  let m ← get
  if (m.fdContexts.length : Int) > fd then fdContext fd
  else
    modify (contextResize (fd * 3 / 2).toNat)
    fdContext fd

def addEvent (ok : Bool) (caller : Caller) (fd : Int) (event : Event) (cb : Option Nat) :
    IOManagerM Int := do
  let ctx ← findContext fd
  if ctx.events.has event then throw .alreadyRegistered
  else
    let op := if ctx.events = .none then CtlOp.add else .mod
    if ¬ (← epollCtl ok op fd.toNat (ctx.events.add event)) then return -1
    else
      modify fun m => { m with pendingEventCount := m.pendingEventCount + 1 }
      let event_ctx := ctx.getContext event
      if event_ctx.scheduler.isSome ∨ event_ctx.fiber.isSome ∨ event_ctx.cb.isSome then
        throw .contextInUse
      else
        let work := match cb with
          | some cb => Work.cb cb
          | none => .fiber caller.fiber
        let m ← get
        set { m with issued := m.issued ++ [Task.mk caller.scheduler work] }
        match cb with
        | some cb =>
          setFdContext fd.toNat ({ ctx with events := ctx.events.add event }.setContext event
            ⟨caller.scheduler, event_ctx.fiber, some cb, m.issued.length⟩)
          return 0
        | none =>
          if caller.state ≠ .exec then throw .notExec
          else
            setFdContext fd.toNat ({ ctx with events := ctx.events.add event }.setContext event
              ⟨caller.scheduler, some caller.fiber, event_ctx.cb, m.issued.length⟩)
            return 0

def delEvent (ok : Bool) (fd : Int) (event : Event) : IOManagerM Bool := do
  let m ← get
  if (m.fdContexts.length : Int) ≤ fd then return false
  else
    let ctx ← fdContext fd
    if ¬ ctx.events.has event then return false
    else
      let new_events := ctx.events.remove event
      let op := if new_events = .none then CtlOp.del else .mod
      if ¬ (← epollCtl ok op fd.toNat new_events) then return false
      else
        decrement
        setFdContext fd.toNat ({ ctx with events := new_events }.resetContext event)
        modify fun m => { m with deleted := m.deleted ++ [(ctx.getContext event).ticket] }
        return true

def cancelEvent (ok : Bool) (fd : Int) (event : Event) : IOManagerM Bool := do
  let m ← get
  if (m.fdContexts.length : Int) ≤ fd then return false
  else
    let ctx ← fdContext fd
    if ¬ ctx.events.has event then return false
    else
      let new_events := ctx.events.remove event
      let op := if new_events = .none then CtlOp.del else .mod
      if ¬ (← epollCtl ok op fd.toNat new_events) then return false
      else
        triggerEvent fd.toNat event
        decrement
        return true

/-- The two statements that follow a test for a bit. -/
def triggerIf (bit : Bool) (i : Nat) (event : Event) : IOManagerM Unit := do
  if bit then
    triggerEvent i event
    decrement
  else return

def cancelAll (ok : Bool) (fd : Int) : IOManagerM Bool := do
  let m ← get
  if (m.fdContexts.length : Int) ≤ fd then return false
  else
    let ctx ← fdContext fd
    if ctx.events = .none then return false
    else
      if ¬ (← epollCtl ok .del fd.toNat .none) then return false
      else
        -- `events_` is read again for each test
        triggerIf (← fdContext fd).events.read fd.toNat .read
        triggerIf (← fdContext fd).events.write fd.toNat .write
        if (← fdContext fd).events ≠ .none then throw .eventsLeft
        else return true

/-- What `epoll_wait` reports of one descriptor; `data.ptr` is the context of `fd`. -/
structure Record where
  fd : Nat
  events : Events
  err : Bool
  hup : Bool
  deriving DecidableEq, Repr

/-- `real_events`, with an error or a hangup standing for every registered event. -/
def Record.realEvents (record : Record) (registered : Events) : Events :=
  if record.err || record.hup then record.events.union registered else record.events

/-- One round of the loop over the records in `Idle`. -/
def dispatchRecord (ok : Bool) (record : Record) : IOManagerM Unit := do
  let ctx ← fdContext record.fd
  let real_events := record.realEvents ctx.events
  if ctx.events.inter real_events = .none then return
  else
    let left_events := ctx.events.diff real_events
    let op := if left_events = .none then CtlOp.del else .mod
    if ¬ (← epollCtl ok op ctx.fd left_events) then return
    else
      triggerIf real_events.read record.fd .read
      triggerIf real_events.write record.fd .write

/-- The loop over the records in `Idle`, each with what `epoll_ctl` says to it. -/
def dispatch : List (Record × Bool) → IOManagerM Unit
  | [] => return
  | (record, ok) :: records => do
    dispatchRecord ok record
    dispatch records

end IOManager

end ServerFrame
