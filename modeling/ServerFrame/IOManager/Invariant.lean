import Mathlib.Data.List.Perm.Basic
import ServerFrame.Lib.Run
import ServerFrame.IOManager.Events

/-!
# Invariant of the event table

An operation first changes the kernel's side with one `epoll_ctl` and then the
contexts, bit by bit. `Core` is what each change of a context keeps; `Inv` adds that
the kernel watches exactly the registered events, which is broken by the `epoll_ctl`
and holds again when the last bit is done.
-/
namespace ServerFrame.IOManager

open EState

private theorem getElem?_of_prefix {α : Type} {l l' : List α} (older : l <+: l') {i : Nat} {a : α}
    (at_ : l[i]? = some a) : l'[i]? = some a := by
  obtain ⟨rest, rfl⟩ := older
  obtain ⟨bound, -⟩ := List.getElem?_eq_some_iff.mp at_
  rw [List.getElem?_append_left bound, at_]

/-! ## One context -/

namespace Events

/-- What epoll watches when exactly `events` are registered. -/
def registered (events : Events) : Option Events :=
  if events = none then Option.none else some events

def Subset (a b : Events) : Prop := ∀ event, a.has event = true → b.has event = true

instance (a b : Events) : Decidable (Subset a b) :=
  decidable_of_iff ((a.read = true → b.read = true) ∧ (a.write = true → b.write = true)) <| by
    constructor
    · rintro ⟨read, write⟩ (_ | _)
      · exact read
      · exact write
    · intro subset
      exact ⟨subset .read, subset .write⟩

theorem ne_none_of_has {events : Events} {event : Event} (has : events.has event = true) :
    events ≠ none := by
  rintro rfl
  cases event <;> simp [none, Events.has] at has

theorem registered_eq_some {events : Events} (some_ : events ≠ none) :
    registered events = some events := by
  rw [registered, if_neg some_]

theorem add_ne_none (events : Events) (event : Event) : events.add event ≠ none := by
  cases event <;> simp [add, none]

theorem count_remove {events : Events} {event : Event} (has : events.has event = true) :
    (events.remove event).count + 1 = events.count := by
  obtain ⟨read, write⟩ := events
  cases event
  · obtain rfl : read = true := has
    cases write <;> rfl
  · obtain rfl : write = true := has
    rfl

theorem count_add {events : Events} {event : Event} (has : events.has event = false) :
    (events.add event).count = events.count + 1 := by
  obtain ⟨read, write⟩ := events
  cases event
  · obtain rfl : read = false := has
    cases write <;> rfl
  · obtain rfl : write = false := has
    rfl

/-- Removing the bits of a subset one after the other. -/
theorem diff_eq_remove (events real : Events) :
    events.diff real =
      (if real.write then (if real.read then events.remove .read else events).remove .write
        else (if real.read then events.remove .read else events)) := by
  obtain ⟨read, write⟩ := events
  obtain ⟨real_read, real_write⟩ := real
  cases real_read <;> cases real_write <;> simp [diff, remove]

end Events

/-- The fiber of a piece of work, as `EventContext` stores it. -/
def fiberOf : Work → Option Nat
  | .fiber id => some id
  | .cb _ => none

def cbOf : Work → Option Nat
  | .fiber _ => none
  | .cb id => some id

/-- The context holds the task: its scheduler and exactly one of fiber and callback. -/
structure Task.Fills (task : Task) (event_ctx : EventContext) : Prop where
  scheduler_some : task.scheduler.isSome = true
  scheduler_eq : event_ctx.scheduler = task.scheduler
  fiber_eq : event_ctx.fiber = fiberOf task.work
  cb_eq : event_ctx.cb = cbOf task.work

structure EventContext.Empty (event_ctx : EventContext) : Prop where
  scheduler_eq : event_ctx.scheduler = none
  fiber_eq : event_ctx.fiber = none
  cb_eq : event_ctx.cb = none

namespace FdContext

/-- A registered event has the task of its ticket in its context; any other is empty. -/
def Wf (issued : List Task) (ctx : FdContext) : Prop :=
  ∀ event, if ctx.events.has event then
      ∃ task, issued[(ctx.getContext event).ticket]? = some task ∧ task.Fills (ctx.getContext event)
    else (ctx.getContext event).Empty

/-- The tickets of the registered events. -/
def tickets (ctx : FdContext) : List Nat :=
  (if ctx.events.read then [ctx.read.ticket] else []) ++
    (if ctx.events.write then [ctx.write.ticket] else [])

/-- The context without `event`. -/
def close (ctx : FdContext) (event : Event) : FdContext :=
  { ctx with events := ctx.events.remove event }.resetContext event

/-- The context with `event` registered for `task`. -/
def fill (ctx : FdContext) (event : Event) (task : Task) (ticket : Nat) : FdContext :=
  { ctx with events := ctx.events.add event }.setContext event
    ⟨task.scheduler, fiberOf task.work, cbOf task.work, ticket⟩

@[simp] theorem events_close (ctx : FdContext) (event : Event) :
    (ctx.close event).events = ctx.events.remove event := by
  cases event <;> rfl

@[simp] theorem fd_close (ctx : FdContext) (event : Event) : (ctx.close event).fd = ctx.fd := by
  cases event <;> rfl

@[simp] theorem events_fill (ctx : FdContext) (event : Event) (task : Task) (ticket : Nat) :
    (ctx.fill event task ticket).events = ctx.events.add event := by
  cases event <;> rfl

@[simp] theorem fd_fill (ctx : FdContext) (event : Event) (task : Task) (ticket : Nat) :
    (ctx.fill event task ticket).fd = ctx.fd := by
  cases event <;> rfl

theorem wf_new (issued : List Task) (fd : Nat) : (new fd).Wf issued := by
  intro event
  cases event <;> exact ⟨rfl, rfl, rfl⟩

theorem Wf.of_has {issued : List Task} {ctx : FdContext} (wf : ctx.Wf issued) {event : Event}
    (has : ctx.events.has event = true) :
    ∃ task, issued[(ctx.getContext event).ticket]? = some task ∧
      task.Fills (ctx.getContext event) := by
  have entry := wf event
  rwa [if_pos has] at entry

theorem Wf.of_not_has {issued : List Task} {ctx : FdContext} (wf : ctx.Wf issued) {event : Event}
    (absent : ctx.events.has event = false) : (ctx.getContext event).Empty := by
  have entry := wf event
  rwa [absent, if_neg Bool.false_ne_true] at entry

theorem Wf.mono {issued later : List Task} {ctx : FdContext} (wf : ctx.Wf issued)
    (older : issued <+: later) : ctx.Wf later := by
  intro event
  have entry := wf event
  split
  next has =>
    rw [if_pos has] at entry
    obtain ⟨task, at_, fills⟩ := entry
    exact ⟨task, getElem?_of_prefix older at_, fills⟩
  next absent => rwa [if_neg absent] at entry

theorem Wf.close {issued : List Task} {ctx : FdContext} (wf : ctx.Wf issued) (event : Event) :
    (ctx.close event).Wf issued := by
  have read := wf .read
  have write := wf .write
  intro other
  cases event <;> cases other
  · exact ⟨rfl, rfl, rfl⟩
  · exact write
  · exact read
  · exact ⟨rfl, rfl, rfl⟩

theorem Wf.fill {issued : List Task} {ctx : FdContext} (wf : ctx.Wf issued) (event : Event)
    {task : Task} {ticket : Nat} (at_ : issued[ticket]? = some task)
    (scheduler : task.scheduler.isSome = true) : (ctx.fill event task ticket).Wf issued := by
  have read := wf .read
  have write := wf .write
  intro other
  cases event <;> cases other
  · exact ⟨task, at_, scheduler, rfl, rfl, rfl⟩
  · exact write
  · exact read
  · exact ⟨task, at_, scheduler, rfl, rfl, rfl⟩

theorem tickets_close {ctx : FdContext} {event : Event} (has : ctx.events.has event = true) :
    ctx.tickets.Perm ((ctx.getContext event).ticket :: (ctx.close event).tickets) := by
  obtain ⟨read, write, fd, r, w⟩ := ctx
  cases event
  · obtain rfl : r = true := has
    exact List.Perm.refl _
  · obtain rfl : w = true := has
    cases r
    · exact List.Perm.refl _
    · exact List.Perm.swap _ _ _

theorem tickets_fill {ctx : FdContext} {event : Event} (task : Task) (ticket : Nat)
    (absent : ctx.events.has event = false) :
    (ctx.fill event task ticket).tickets.Perm (ticket :: ctx.tickets) := by
  obtain ⟨read, write, fd, r, w⟩ := ctx
  cases event
  · obtain rfl : r = false := absent
    exact List.Perm.refl _
  · obtain rfl : w = false := absent
    cases r
    · exact List.Perm.refl _
    · exact List.Perm.swap _ _ _

end FdContext

theorem FdContext.close_eq (ctx : FdContext) (event : Event) :
    ctx.close event = { ctx with events := ctx.events.remove event }.setContext event
      ⟨none, none, none, (ctx.getContext event).ticket⟩ := by
  cases event <;> rfl

/-! ## The table -/

/-- The context of `i`; a descriptor beyond the table has nothing registered. -/
def contextAt (m : IOManager) (i : Nat) : FdContext := m.fdContexts.getD i (.new i)

theorem contextAt_of_getElem? {m : IOManager} {i : Nat} {ctx : FdContext}
    (at_ : m.fdContexts[i]? = some ctx) : m.contextAt i = ctx := by
  rw [contextAt, List.getD_eq_getElem?_getD, at_, Option.getD_some]

theorem contextAt_beyond {m : IOManager} {i : Nat} (beyond : m.fdContexts.length ≤ i) :
    m.contextAt i = .new i := by
  rw [contextAt, List.getD_eq_getElem?_getD, List.getElem?_eq_none beyond, Option.getD_none]

/-- The number of bits set in the `events_` of all descriptors. -/
def registeredBits (m : IOManager) : Nat := (m.fdContexts.map fun ctx => ctx.events.count).sum

/-- The tickets of the events that are registered now. -/
def pendingTickets (m : IOManager) : List Nat := m.fdContexts.flatMap FdContext.tickets

/-- Every place a ticket can be in. -/
def ledger (m : IOManager) : List Nat := m.pendingTickets ++ m.deleted ++ m.handed.map Prod.fst

structure Core (m : IOManager) : Prop where
  room : 32 ≤ m.fdContexts.length
  fd_eq : ∀ (i : Nat) (ctx : FdContext), m.fdContexts[i]? = some ctx → ctx.fd = i
  wf : ∀ ctx ∈ m.fdContexts, ctx.Wf m.issued
  pending_eq : m.pendingEventCount = m.registeredBits
  ledger_perm : m.ledger.Perm (List.range m.issued.length)
  handed_eq : ∀ entry ∈ m.handed, m.issued[entry.1]? = some entry.2

structure Inv (m : IOManager) : Prop extends Core m where
  watched : ∀ i, m.interest i = (m.contextAt i).events.registered

/-- Replacing one context: the counter and the tickets have to follow it. The ranges
of tickets stand on both sides so that the new context may bring a new one. -/
theorem Core.replace {m m' : IOManager} {i : Nat} {ctx ctx' : FdContext} (core : Core m)
    (at_ : m.fdContexts[i]? = some ctx) (contexts_eq : m'.fdContexts = m.fdContexts.set i ctx')
    (fd_eq : ctx'.fd = ctx.fd) (older : m.issued <+: m'.issued) (wf : ctx'.Wf m'.issued)
    (count : m'.pendingEventCount + ctx.events.count = m.pendingEventCount + ctx'.events.count)
    (tickets : (ctx'.tickets ++ m'.deleted ++ m'.handed.map Prod.fst ++
        List.range m.issued.length).Perm
      (ctx.tickets ++ m.deleted ++ m.handed.map Prod.fst ++ List.range m'.issued.length))
    (handed_eq : ∀ entry ∈ m'.handed, m'.issued[entry.1]? = some entry.2) : Core m' := by
  obtain ⟨bound, found⟩ := List.getElem?_eq_some_iff.mp at_
  obtain ⟨front, back, chain, -, chain'⟩ : ∃ front back,
      m.fdContexts = front ++ m.fdContexts[i] :: back ∧ front.length = i ∧
        m.fdContexts.set i ctx' = front ++ ctx' :: back := List.exists_of_set bound
  rw [found] at chain
  rw [chain'] at contexts_eq
  refine ⟨?_, ?_, ?_, ?_, ?_, handed_eq⟩
  · rw [contexts_eq, ← chain', List.length_set]
    exact core.room
  · intro j other at_j
    rw [contexts_eq, ← chain', List.getElem?_set] at at_j
    split at at_j
    next same =>
      subst same
      rw [← Option.some.inj at_j, fd_eq]
      exact core.fd_eq i ctx at_
    next => exact core.fd_eq j other at_j
  · intro other member
    rw [contexts_eq] at member
    have old : ∀ c ∈ front ++ ctx :: back, c.Wf m'.issued := fun c mem =>
      (core.wf c (by rw [chain]; exact mem)).mono older
    simp only [List.mem_append, List.mem_cons] at member old
    rcases member with member | rfl | member
    · exact old other (.inl member)
    · exact wf
    · exact old other (.inr (.inr member))
  · have pending := core.pending_eq
    simp only [registeredBits, chain, contexts_eq, List.map_append, List.map_cons, List.sum_append,
      List.sum_cons] at pending ⊢
    omega
  · -- the tickets of the other contexts stand on both sides
    have perm := core.ledger_perm
    simp only [ledger, pendingTickets, chain, contexts_eq, List.flatMap_append, List.flatMap_cons,
      List.perm_iff_count, List.count_append] at perm tickets ⊢
    intro a
    have old := perm a
    have moved := tickets a
    omega

/-- A registered event is counted. -/
theorem Core.pending_pos {m : IOManager} {i : Nat} {ctx : FdContext} (core : Core m)
    (at_ : m.fdContexts[i]? = some ctx) {event : Event} (has : ctx.events.has event = true) :
    m.pendingEventCount ≠ 0 := by
  obtain ⟨front, back, chain⟩ := List.append_of_mem (List.mem_of_getElem? at_)
  have one := Events.count_remove has
  have pending := core.pending_eq
  simp only [registeredBits, chain, List.map_append, List.map_cons, List.sum_append,
    List.sum_cons] at pending
  omega

/-- Once the context of `i` has the events the kernel watches, all is as it should be. -/
theorem Inv.replace {m m' : IOManager} {i : Nat} {ctx ctx' : FdContext} (inv : Inv m)
    (at_ : m.fdContexts[i]? = some ctx) (contexts_eq : m'.fdContexts = m.fdContexts.set i ctx')
    (interest_eq : m'.interest = Function.update m.interest i ctx'.events.registered)
    (core : Core m') : Inv m' := by
  obtain ⟨bound, -⟩ := List.getElem?_eq_some_iff.mp at_
  refine ⟨core, fun j => ?_⟩
  rw [interest_eq]
  by_cases same : j = i
  · subst same
    have here : m'.fdContexts[j]? = some ctx' := by rw [contexts_eq, List.getElem?_set_self bound]
    rw [Function.update_self, contextAt_of_getElem? here]
  · rw [Function.update_of_ne same, inv.watched j, contextAt, contextAt, contexts_eq,
      List.getD_eq_getElem?_getD, List.getD_eq_getElem?_getD, List.getElem?_set_ne (Ne.symm same)]

/-! ## The steps of the operations -/

theorem fdContext_run {m : IOManager} {fd : Int} {ctx : FdContext} (nonneg : 0 ≤ fd)
    (at_ : m.fdContexts[fd.toNat]? = some ctx) : fdContext fd m = .ok ctx m := by
  simp only [fdContext, run_bind, run_get, if_neg (Int.not_lt.mpr nonneg), at_, run_pure]

theorem fdContext_natCast {m : IOManager} {i : Nat} {ctx : FdContext}
    (at_ : m.fdContexts[i]? = some ctx) : fdContext i m = .ok ctx m :=
  fdContext_run (Int.natCast_nonneg i) at_

theorem epollCtl_fails (op : CtlOp) (fd : Nat) (events : Events) (m : IOManager) :
    epollCtl false op fd events m = .ok false m := by
  cases op <;> simp [epollCtl, run_bind]

/-- `MOD` while something is left, `DEL` otherwise: the descriptor was registered before. -/
theorem epollCtl_narrow {m : IOManager} {fd : Nat} {old : Events} (left : Events)
    (watched : m.interest fd = some old) :
    epollCtl true (if left = .none then .del else .mod) fd left m =
      .ok true { m with interest := Function.update m.interest fd left.registered } := by
  by_cases last : left = .none
  · simp [epollCtl, run_bind, run_map, watched, last, Events.registered]
  · simp [epollCtl, run_bind, run_map, watched, last, Events.registered]

/-- `ADD` for the first event of a descriptor, `MOD` for the second. -/
theorem epollCtl_widen {m : IOManager} {fd : Nat} {old : Events} (event : Event)
    (watched : m.interest fd = old.registered) :
    epollCtl true (if old = .none then .add else .mod) fd (old.add event) m =
      .ok true { m with interest := Function.update m.interest fd (old.add event).registered } := by
  rw [Events.registered_eq_some (Events.add_ne_none old event)]
  by_cases first : old = .none
  · simp [epollCtl, run_bind, run_map, watched, first, Events.registered]
  · simp [epollCtl, run_bind, run_map, watched, first, Events.registered]

theorem decrement_run {m : IOManager} (some_ : m.pendingEventCount ≠ 0) :
    decrement m = .ok () { m with pendingEventCount := m.pendingEventCount - 1 } := by
  simp only [decrement, run_bind, run_get, if_neg some_, run_set]

/-- A registered event goes to its scheduler with the task it was registered for. -/
theorem triggerEvent_run {m : IOManager} {i : Nat} {ctx : FdContext} (wf : ctx.Wf m.issued)
    (at_ : m.fdContexts[i]? = some ctx) {event : Event} (has : ctx.events.has event = true) :
    ∃ task, m.issued[(ctx.getContext event).ticket]? = some task ∧
      triggerEvent i event m = .ok () { m with
        fdContexts := m.fdContexts.set i (ctx.close event)
        handed := m.handed ++ [((ctx.getContext event).ticket, task)] } := by
  obtain ⟨⟨scheduler, work⟩, issued, fills⟩ := wf.of_has has
  obtain ⟨s, rfl⟩ := Option.isSome_iff_exists.mp fills.scheduler_some
  refine ⟨_, issued, ?_⟩
  have scheduler_eq := fills.scheduler_eq
  have fiber_eq := fills.fiber_eq
  have cb_eq := fills.cb_eq
  simp only [triggerEvent, run_bind, fdContext_natCast at_, has, scheduler_eq]
  rw [FdContext.close_eq]
  cases work with
  | fiber id =>
    simp [fiberOf, cbOf] at fiber_eq cb_eq
    simp [schedule, run_bind, run_map, setFdContext, fiber_eq, cb_eq]
  | cb id =>
    simp [fiberOf, cbOf] at fiber_eq cb_eq
    simp [schedule, run_bind, run_map, setFdContext, fiber_eq, cb_eq]

/-- The assertion of `TriggerEvent`. -/
theorem triggerIf_absent {m : IOManager} {i : Nat} {ctx : FdContext}
    (at_ : m.fdContexts[i]? = some ctx) {event : Event} (absent : ctx.events.has event = false)
    {bit : Bool} (set_ : bit = true) : triggerIf bit i event m = .error .notRegistered m := by
  have asserted : triggerEvent i event m = .error .notRegistered m := by
    simp [triggerEvent, run_bind, fdContext_natCast at_, absent]
  rw [triggerIf, if_pos set_, run_bind_error asserted]

/-- `m'` differs from `m` in the context of `i` and in what was handed to `Schedule`. -/
structure Fired (m : IOManager) (i : Nat) (events : Events) (m' : IOManager) : Prop where
  core : Core m'
  interest_eq : m'.interest = m.interest
  contexts_eq : ∃ ctx', m'.fdContexts = m.fdContexts.set i ctx' ∧
    m'.fdContexts[i]? = some ctx' ∧ ctx'.events = events

theorem triggerIf_spec {m : IOManager} {i : Nat} {ctx : FdContext} (core : Core m)
    (at_ : m.fdContexts[i]? = some ctx) (event : Event) (bit : Bool)
    (registered : bit = true → ctx.events.has event = true) :
    ∃ m', triggerIf bit i event m = .ok () m' ∧
      Fired m i (if bit then ctx.events.remove event else ctx.events) m' := by
  obtain ⟨bound, found⟩ := List.getElem?_eq_some_iff.mp at_
  cases bit with
  | false =>
    refine ⟨m, rfl, core, rfl, ctx, ?_, at_, rfl⟩
    rw [← found, List.set_getElem_self]
  | true =>
    have has := registered rfl
    have wf := core.wf ctx (List.mem_of_getElem? at_)
    -- the event counts, so the counter can be decremented
    have some_ := core.pending_pos at_ has
    obtain ⟨task, issued, ran⟩ := triggerEvent_run wf at_ has
    have fired : triggerIf true i event m = .ok () { m with
        fdContexts := m.fdContexts.set i (ctx.close event)
        handed := m.handed ++ [((ctx.getContext event).ticket, task)]
        pendingEventCount := m.pendingEventCount - 1 } := by
      rw [triggerIf, if_pos rfl, run_bind_ok ran]
      exact decrement_run some_
    refine ⟨_, fired, ?_, rfl, ctx.close event, rfl, List.getElem?_set_self bound,
      FdContext.events_close ctx event⟩
    refine core.replace at_ rfl (FdContext.fd_close ctx event) (List.prefix_refl _) (wf.close event)
      ?_ ?_ ?_
    · have one := Events.count_remove has
      rw [FdContext.events_close]
      dsimp only
      omega
    · have moved := FdContext.tickets_close has
      simp only [List.perm_iff_count, List.count_append, List.count_cons, List.map_append,
        List.map_cons, List.map_nil, List.count_nil] at moved ⊢
      intro a
      have := moved a
      omega
    · intro entry member
      rcases List.mem_append.mp member with member | member
      · exact core.handed_eq entry member
      · rw [List.mem_singleton.mp member]
        exact issued

theorem Fired.trans {m mid m' : IOManager} {i : Nat} {events events' : Events}
    (first : Fired m i events mid) (second : Fired mid i events' m') : Fired m i events' m' := by
  obtain ⟨ctx, contexts_eq, -, -⟩ := first.contexts_eq
  obtain ⟨ctx', contexts_eq', at_, events_eq⟩ := second.contexts_eq
  refine ⟨second.core, second.interest_eq.trans first.interest_eq, ctx', ?_, at_, events_eq⟩
  rw [contexts_eq', contexts_eq, List.set_set]

/-- When the events that are left are the ones the kernel was told to watch. -/
theorem Fired.inv {m m' : IOManager} {i : Nat} {ctx : FdContext} {left : Events} (inv : Inv m)
    (at_ : m.fdContexts[i]? = some ctx)
    (fired : Fired { m with interest := Function.update m.interest i left.registered } i left m') :
    Inv m' := by
  obtain ⟨ctx', contexts_eq, -, events_eq⟩ := fired.contexts_eq
  refine inv.replace at_ contexts_eq ?_ fired.core
  rw [fired.interest_eq, events_eq]

/-- The kernel's side does not matter to `Core`. -/
theorem Core.watch {m : IOManager} (core : Core m) (interest : Nat → Option Events) :
    Core { m with interest := interest } :=
  ⟨core.room, core.fd_eq, core.wf, core.pending_eq, core.ledger_perm, core.handed_eq⟩

/-- The two tests of `CancelAll` and of the dispatch, on bits that are registered. -/
theorem triggerIf_both {m : IOManager} {i : Nat} {ctx : FdContext} (core : Core m)
    (at_ : m.fdContexts[i]? = some ctx) {real : Events} (subset : real.Subset ctx.events) :
    ∃ mid ctx_mid m', triggerIf real.read i .read m = .ok () mid ∧
      mid.fdContexts[i]? = some ctx_mid ∧ ctx_mid.events.write = ctx.events.write ∧
      triggerIf real.write i .write mid = .ok () m' ∧ Fired m i (ctx.events.diff real) m' := by
  obtain ⟨mid, ran, fired⟩ := triggerIf_spec core at_ .read real.read (subset .read)
  obtain ⟨ctx_mid, -, at_mid, events_mid⟩ := fired.contexts_eq
  have write_eq : ctx_mid.events.write = ctx.events.write := by
    rw [events_mid]
    split <;> rfl
  have registered : real.write = true → ctx_mid.events.has .write = true := by
    intro set_
    exact write_eq.trans (subset .write set_)
  obtain ⟨m', ran', fired'⟩ := triggerIf_spec fired.core at_mid .write real.write registered
  refine ⟨mid, ctx_mid, m', ran, at_mid, write_eq, ran', ?_⟩
  rw [Events.diff_eq_remove, ← events_mid]
  exact fired.trans fired'

/-! ## The operations -/

/-- All that the invariant speaks of is the same in both states. -/
structure Unchanged (m m' : IOManager) : Prop where
  pending_eq : m'.pendingEventCount = m.pendingEventCount
  contextAt_eq : ∀ i, m'.contextAt i = m.contextAt i
  interest_eq : m'.interest = m.interest
  issued_eq : m'.issued = m.issued
  deleted_eq : m'.deleted = m.deleted
  handed_eq : m'.handed = m.handed

theorem Unchanged.refl (m : IOManager) : Unchanged m m := ⟨rfl, fun _ => rfl, rfl, rfl, rfl, rfl⟩

/-- How an operation leaves the table; `ok` is what the kernel said to its `epoll_ctl`. -/
structure Kept (m : IOManager) (ok : Bool) (m' : IOManager) : Prop where
  inv : Inv m'
  length_le : m.fdContexts.length ≤ m'.fdContexts.length
  unchanged : ok = false → Unchanged m m'

theorem Kept.refl {m : IOManager} (inv : Inv m) (ok : Bool) : Kept m ok m :=
  ⟨inv, Nat.le_refl _, fun _ => .refl m⟩

theorem Fired.kept {m m' : IOManager} {i : Nat} {ctx : FdContext} {left : Events} (inv : Inv m)
    (at_ : m.fdContexts[i]? = some ctx)
    (fired : Fired { m with interest := Function.update m.interest i left.registered } i left m') :
    Kept m true m' := by
  obtain ⟨ctx', contexts_eq, -, -⟩ := fired.contexts_eq
  have length_eq : m'.fdContexts.length = m.fdContexts.length := by rw [contexts_eq, List.length_set]
  exact ⟨fired.inv inv at_, Nat.le_of_eq length_eq.symm, by simp⟩

theorem Inv.watched_some {m : IOManager} (inv : Inv m) {i : Nat} {ctx : FdContext}
    (at_ : m.fdContexts[i]? = some ctx) (some_ : ctx.events ≠ .none) :
    m.interest i = some ctx.events := by
  rw [inv.watched, contextAt_of_getElem? at_, Events.registered_eq_some some_]

/-- The size test of the operations finds the context or returns. -/
theorem context_cases (m : IOManager) {fd : Int} (nonneg : 0 ≤ fd) :
    (m.fdContexts.length : Int) ≤ fd ∨
      ¬ (m.fdContexts.length : Int) ≤ fd ∧ ∃ ctx, m.fdContexts[fd.toNat]? = some ctx := by
  by_cases beyond : (m.fdContexts.length : Int) ≤ fd
  · exact .inl beyond
  · have bound : fd.toNat < m.fdContexts.length := by omega
    exact .inr ⟨beyond, _, List.getElem?_eq_getElem bound⟩

theorem delEvent_spec {m : IOManager} (inv : Inv m) (ok : Bool) {fd : Int} (nonneg : 0 ≤ fd)
    (event : Event) :
    ∃ ret m', delEvent ok fd event m = .ok ret m' ∧ Kept m ok m' := by
  rcases context_cases m nonneg with beyond | ⟨inside, ctx, at_⟩
  · exact ⟨false, m, by simp [delEvent, run_bind, beyond], .refl inv ok⟩
  cases has : ctx.events.has event with
  | false =>
    exact ⟨false, m, by simp [delEvent, run_bind, inside, fdContext_run nonneg at_, has],
      .refl inv ok⟩
  | true =>
    cases ok with
    | false =>
      exact ⟨false, m, by simp [delEvent, run_bind, inside, fdContext_run nonneg at_, has,
        epollCtl_fails], .refl inv false⟩
    | true =>
      have watched := inv.watched_some at_ (Events.ne_none_of_has has)
      have some_ := inv.pending_pos at_ has
      have wf := inv.wf ctx (List.mem_of_getElem? at_)
      have ran : delEvent true fd event m = .ok true { m with
          fdContexts := m.fdContexts.set fd.toNat (ctx.close event)
          interest := Function.update m.interest fd.toNat (ctx.events.remove event).registered
          pendingEventCount := m.pendingEventCount - 1
          deleted := m.deleted ++ [(ctx.getContext event).ticket] } := by
        simp [delEvent, run_bind, run_map, inside, fdContext_run nonneg at_, has,
          epollCtl_narrow _ watched, decrement, some_, setFdContext, FdContext.close]
      refine ⟨true, _, ran, inv.replace at_ rfl (by rw [FdContext.events_close]) ?_,
        Nat.le_of_eq List.length_set.symm, by simp⟩
      refine inv.toCore.replace at_ rfl (FdContext.fd_close ctx event) (List.prefix_refl _)
        (wf.close event) ?_ ?_ inv.handed_eq
      · have one := Events.count_remove has
        rw [FdContext.events_close]
        dsimp only
        omega
      · have moved := FdContext.tickets_close has
        simp only [List.perm_iff_count, List.count_append, List.count_cons, List.count_nil] at moved ⊢
        intro a
        have := moved a
        omega

theorem cancelEvent_spec {m : IOManager} (inv : Inv m) (ok : Bool) {fd : Int} (nonneg : 0 ≤ fd)
    (event : Event) :
    ∃ ret m', cancelEvent ok fd event m = .ok ret m' ∧ Kept m ok m' := by
  rcases context_cases m nonneg with beyond | ⟨inside, ctx, at_⟩
  · exact ⟨false, m, by simp [cancelEvent, run_bind, beyond], .refl inv ok⟩
  cases has : ctx.events.has event with
  | false =>
    exact ⟨false, m, by simp [cancelEvent, run_bind, inside, fdContext_run nonneg at_, has],
      .refl inv ok⟩
  | true =>
    cases ok with
    | false =>
      exact ⟨false, m, by simp [cancelEvent, run_bind, inside, fdContext_run nonneg at_, has,
        epollCtl_fails], .refl inv false⟩
    | true =>
      have watched := inv.watched_some at_ (Events.ne_none_of_has has)
      obtain ⟨m', ran, fired⟩ := triggerIf_spec
        (inv.toCore.watch (Function.update m.interest fd.toNat (ctx.events.remove event).registered))
        at_ event true fun _ => has
      refine ⟨true, m', ?_, fired.kept inv at_⟩
      rw [triggerIf, if_pos rfl] at ran
      rw [cancelEvent, run_bind_ok (run_get m), if_neg inside, run_bind_ok (fdContext_run nonneg at_),
        if_neg (not_not_intro has), run_bind_ok (epollCtl_narrow _ watched),
        if_neg (not_not_intro rfl), run_bind_bind_ok ran, run_pure]

theorem cancelAll_spec {m : IOManager} (inv : Inv m) (ok : Bool) {fd : Int} (nonneg : 0 ≤ fd) :
    ∃ ret m', cancelAll ok fd m = .ok ret m' ∧ Kept m ok m' := by
  rcases context_cases m nonneg with beyond | ⟨inside, ctx, at_⟩
  · exact ⟨false, m, by simp [cancelAll, run_bind, beyond], .refl inv ok⟩
  by_cases nothing : ctx.events = .none
  · exact ⟨false, m, by simp [cancelAll, run_bind, inside, fdContext_run nonneg at_, nothing],
      .refl inv ok⟩
  cases ok with
  | false =>
    exact ⟨false, m, by simp [cancelAll, run_bind, inside, fdContext_run nonneg at_, nothing,
      epollCtl_fails], .refl inv false⟩
  | true =>
    have watched := inv.watched_some at_ nothing
    have deleted : epollCtl true .del fd.toNat .none m = .ok true
        { m with interest := Function.update m.interest fd.toNat Events.none.registered } := by
      have narrowed := epollCtl_narrow .none watched
      rwa [if_pos rfl] at narrowed
    have all : ctx.events.diff ctx.events = .none := by
      obtain ⟨_ | _, _ | _⟩ := ctx.events <;> rfl
    obtain ⟨mid, ctx_mid, m', ran, at_mid, write_eq, ran', fired⟩ := triggerIf_both
      (inv.toCore.watch (Function.update m.interest fd.toNat Events.none.registered)) at_
      (fun _ has => has : ctx.events.Subset ctx.events)
    rw [all] at fired
    have at_told : fdContext fd
        { m with interest := Function.update m.interest fd.toNat Events.none.registered } =
          .ok ctx _ := fdContext_run nonneg at_
    obtain ⟨ctx', -, at', events_eq⟩ := fired.contexts_eq
    refine ⟨true, m', ?_, fired.kept inv at_⟩
    rw [cancelAll, run_bind_ok (run_get m), if_neg inside, run_bind_ok (fdContext_run nonneg at_),
      if_neg nothing, run_bind_ok deleted, if_neg (not_not_intro rfl),
      run_bind_ok at_told, run_bind_ok ran, run_bind_ok (fdContext_run nonneg at_mid), write_eq, run_bind_ok ran',
      run_bind_ok (fdContext_run nonneg at'), if_neg (not_not_intro events_eq), run_pure]

/-- A record whose bits are all registered, or none of them. -/
def Record.Coherent (record : Record) (registered : Events) : Prop :=
  registered.inter (record.realEvents registered) = .none ∨
    (record.realEvents registered).Subset registered

instance (record : Record) (registered : Events) : Decidable (record.Coherent registered) :=
  inferInstanceAs (Decidable (_ ∨ _))

theorem dispatchRecord_spec {m : IOManager} (inv : Inv m) (ok : Bool) (record : Record)
    {ctx : FdContext} (at_ : m.fdContexts[record.fd]? = some ctx)
    (coherent : ok = true → record.Coherent ctx.events) :
    ∃ m', dispatchRecord ok record m = .ok () m' ∧ Kept m ok m' ∧ (ok = false → m' = m) ∧
      ∀ j, j ≠ record.fd → m'.contextAt j = m.contextAt j := by
  have fd_eq := inv.fd_eq record.fd ctx at_
  by_cases disjoint : ctx.events.inter (record.realEvents ctx.events) = .none
  · exact ⟨m, by simp [dispatchRecord, run_bind, fdContext_natCast at_, disjoint],
      .refl inv ok, fun _ => rfl, fun _ _ => rfl⟩
  cases ok with
  | false =>
    exact ⟨m, by simp [dispatchRecord, run_bind, fdContext_natCast at_, disjoint, epollCtl_fails],
      .refl inv false, fun _ => rfl, fun _ _ => rfl⟩
  | true =>
    have subset := (coherent rfl).resolve_left disjoint
    have nothing : ctx.events ≠ .none := by
      intro none_
      exact disjoint (by rw [none_]; rfl)
    have watched := inv.watched_some at_ nothing
    rw [← fd_eq] at watched
    obtain ⟨mid, ctx_mid, m', ran, at_mid, write_eq, ran', fired⟩ := triggerIf_both
      (inv.toCore.watch (Function.update m.interest record.fd
        (ctx.events.diff (record.realEvents ctx.events)).registered)) at_ subset
    refine ⟨m', ?_, fired.kept inv at_, by simp, ?_⟩
    · rw [dispatchRecord, run_bind_ok (fdContext_natCast at_)]
      dsimp only
      rw [if_neg disjoint, run_bind_ok (epollCtl_narrow _ watched), if_neg (not_not_intro rfl), fd_eq,
        run_bind_ok ran, ran']
    · intro j other
      obtain ⟨ctx', contexts_eq, -, -⟩ := fired.contexts_eq
      rw [contextAt, contextAt, contexts_eq, List.getD_eq_getElem?_getD, List.getD_eq_getElem?_getD,
        List.getElem?_set_ne (Ne.symm other)]

/-! ## Adding an event -/

theorem contextResize_contexts {m : IOManager} {size : Nat} (larger : m.fdContexts.length ≤ size) :
    (contextResize size m).fdContexts = m.fdContexts ++
      (List.range (size - m.fdContexts.length)).map fun i => .new (m.fdContexts.length + i) := by
  simp only [contextResize, List.take_of_length_le larger]

/-- Growing the table adds contexts with nothing registered. -/
theorem contextResize_unchanged {m : IOManager} {size : Nat}
    (larger : m.fdContexts.length ≤ size) : Unchanged m (contextResize size m) := by
  refine ⟨rfl, fun i => ?_, rfl, rfl, rfl, rfl⟩
  rw [contextAt, contextAt, contextResize_contexts larger, List.getD_eq_getElem?_getD,
    List.getD_eq_getElem?_getD]
  by_cases old : i < m.fdContexts.length
  · rw [List.getElem?_append_left old]
  · have beyond : m.fdContexts.length ≤ i := by omega
    rw [List.getElem?_append_right beyond, List.getElem?_eq_none beyond, List.getElem?_map]
    by_cases fresh : i - m.fdContexts.length < size - m.fdContexts.length
    · rw [List.getElem?_range fresh, Option.map_some, Nat.add_sub_cancel' beyond]
      rfl
    · rw [List.getElem?_eq_none (by rw [List.length_range]; omega)]
      rfl

theorem contextResize_inv {m : IOManager} {size : Nat} (inv : Inv m)
    (larger : m.fdContexts.length ≤ size) : Inv (contextResize size m) := by
  have contexts_eq := contextResize_contexts larger
  have same := contextResize_unchanged larger
  have empty : ∀ fresh ∈ (List.range (size - m.fdContexts.length)).map
      (fun i => FdContext.new (m.fdContexts.length + i)), ∃ fd, fresh = FdContext.new fd := by
    intro fresh member
    obtain ⟨i, -, rfl⟩ := List.mem_map.mp member
    exact ⟨_, rfl⟩
  refine ⟨⟨?_, ?_, ?_, ?_, ?_, inv.handed_eq⟩, ?_⟩
  · rw [contexts_eq, List.length_append]
    have := inv.room
    omega
  · intro i ctx at_
    have here := contextAt_of_getElem? at_
    rw [same.contextAt_eq] at here
    by_cases old : i < m.fdContexts.length
    · rw [contexts_eq, List.getElem?_append_left old] at at_
      exact inv.fd_eq i ctx at_
    · rw [contextAt_beyond (by omega)] at here
      rw [← here]
      rfl
  · intro ctx member
    rw [contexts_eq] at member
    rcases List.mem_append.mp member with old | fresh
    · exact inv.wf ctx old
    · obtain ⟨fd, rfl⟩ := empty ctx fresh
      exact FdContext.wf_new _ fd
  · have zero : (((List.range (size - m.fdContexts.length)).map
        fun i => FdContext.new (m.fdContexts.length + i)).map fun ctx => ctx.events.count).sum = 0 := by
      simp [FdContext.new, Events.count, Events.none, Function.comp_def]
    rw [registeredBits, contexts_eq, List.map_append, List.sum_append, zero]
    exact inv.pending_eq
  · have nothing : ((List.range (size - m.fdContexts.length)).map
        fun i => FdContext.new (m.fdContexts.length + i)).flatMap FdContext.tickets = [] := by
      rw [List.flatMap_eq_nil_iff]
      intro ctx fresh
      obtain ⟨fd, rfl⟩ := empty ctx fresh
      rfl
    rw [ledger, pendingTickets, contexts_eq, List.flatMap_append, nothing, List.append_nil]
    exact inv.ledger_perm
  · intro i
    rw [same.contextAt_eq]
    exact inv.watched i

/-- The table reaches `fd`, and nothing else changed. -/
theorem findContext_spec {m : IOManager} (inv : Inv m) {fd : Int} (nonneg : 0 ≤ fd) :
    ∃ g, findContext fd m = .ok (m.contextAt fd.toNat) g ∧ Inv g ∧ Unchanged m g ∧
      m.fdContexts.length ≤ g.fdContexts.length ∧
      g.fdContexts[fd.toNat]? = some (m.contextAt fd.toNat) := by
  by_cases inside : (m.fdContexts.length : Int) > fd
  · have bound : fd.toNat < m.fdContexts.length := by omega
    have at_ : m.fdContexts[fd.toNat]? = some (m.contextAt fd.toNat) := by
      rw [contextAt_of_getElem? (List.getElem?_eq_getElem bound), List.getElem?_eq_getElem bound]
    refine ⟨m, ?_, inv, .refl m, Nat.le_refl _, at_⟩
    rw [findContext, run_bind_ok (run_get m), if_pos inside, fdContext_run nonneg at_]
  · have room := inv.room
    have larger : m.fdContexts.length ≤ (fd * 3 / 2).toNat := by omega
    have same := contextResize_unchanged larger
    have bound : fd.toNat < (contextResize (fd * 3 / 2).toNat m).fdContexts.length := by
      rw [contextResize_contexts larger, List.length_append, List.length_map, List.length_range]
      omega
    have at_ : (contextResize (fd * 3 / 2).toNat m).fdContexts[fd.toNat]? =
        some (m.contextAt fd.toNat) := by
      rw [← same.contextAt_eq, contextAt_of_getElem? (List.getElem?_eq_getElem bound),
        List.getElem?_eq_getElem bound]
    refine ⟨_, ?_, contextResize_inv inv larger, same, by omega, at_⟩
    rw [findContext, run_bind_ok (run_get m), if_neg inside, run_bind_ok (run_modify ..),
      fdContext_run nonneg at_]

/-- The work that `AddEvent` registers. -/
def workOf (caller : Caller) : Option Nat → Work
  | some cb => .cb cb
  | none => .fiber caller.fiber

/-- The fiber that calls `AddEvent` without a callback is executing. -/
def Caller.Running (caller : Caller) (cb : Option Nat) : Prop := cb = none → caller.state = .exec

instance (caller : Caller) (cb : Option Nat) : Decidable (caller.Running cb) :=
  inferInstanceAs (Decidable (_ → _))

/-- `AddEvent` is called by a fiber of a scheduler, as `DoIo` does. -/
structure Caller.Proper (caller : Caller) (cb : Option Nat) : Prop where
  scheduler_some : caller.scheduler.isSome = true
  running : cb = none → caller.state = .exec

instance (caller : Caller) (cb : Option Nat) : Decidable (caller.Proper cb) :=
  decidable_of_iff (caller.scheduler.isSome = true ∧ (cb = none → caller.state = .exec))
    ⟨fun both => ⟨both.1, both.2⟩, fun proper => ⟨proper.scheduler_some, proper.running⟩⟩

/-- What `AddEvent` makes of the table, whether the caller has a scheduler or not. -/
theorem addEvent_run {g m : IOManager} (inv : Inv g) {caller : Caller} {fd : Int} {ctx : FdContext}
    (found : findContext fd m = .ok ctx g) (at_ : g.fdContexts[fd.toNat]? = some ctx) {event : Event}
    {cb : Option Nat} (running : caller.Running cb) (absent : ctx.events.has event = false) :
    addEvent true caller fd event cb m = .ok 0 { g with
      fdContexts := g.fdContexts.set fd.toNat
        (ctx.fill event ⟨caller.scheduler, workOf caller cb⟩ g.issued.length)
      interest := Function.update g.interest fd.toNat (ctx.events.add event).registered
      pendingEventCount := g.pendingEventCount + 1
      issued := g.issued ++ [⟨caller.scheduler, workOf caller cb⟩] } := by
  have not_has : ¬ ctx.events.has event = true := by rw [absent]; exact Bool.false_ne_true
  -- an event that is not registered has an empty context, so the assertion holds
  have empty := (inv.wf ctx (List.mem_of_getElem? at_)).of_not_has absent
  have watched : g.interest fd.toNat = ctx.events.registered := by
    rw [inv.watched, contextAt_of_getElem? at_]
  have unused : ¬ ((ctx.getContext event).scheduler.isSome = true ∨
      (ctx.getContext event).fiber.isSome = true ∨ (ctx.getContext event).cb.isSome = true) := by
    simp [empty.scheduler_eq, empty.fiber_eq, empty.cb_eq]
  rw [addEvent.eq_def, run_bind_ok found, if_neg not_has,
    run_bind_ok (epollCtl_widen event watched), if_neg (not_not_intro rfl),
    run_bind_ok (run_modify ..), if_neg unused, run_bind_ok (run_get _), run_bind_ok (run_set ..)]
  cases cb with
  | some cb => simp [setFdContext, run_map, empty.fiber_eq, FdContext.fill, workOf, fiberOf, cbOf]
  | none =>
    have executing := running rfl
    simp [setFdContext, run_map, executing, empty.cb_eq, FdContext.fill, workOf, fiberOf, cbOf]

theorem addEvent_spec {m : IOManager} (inv : Inv m) (ok : Bool) {caller : Caller} {fd : Int}
    (nonneg : 0 ≤ fd) {event : Event} {cb : Option Nat} (running : caller.Running cb)
    (scheduler : ok = true → caller.scheduler.isSome = true)
    (absent : (m.contextAt fd.toNat).events.has event = false) :
    ∃ ret m', addEvent ok caller fd event cb m = .ok ret m' ∧ Kept m ok m' ∧
      (ok = true → m'.issued = m.issued ++ [⟨caller.scheduler, workOf caller cb⟩]) := by
  obtain ⟨g, found, inv_g, same, longer, at_⟩ := findContext_spec inv nonneg
  generalize m.contextAt fd.toNat = ctx at found at_ absent
  have not_has : ¬ ctx.events.has event = true := by rw [absent]; exact Bool.false_ne_true
  cases ok with
  | false =>
    refine ⟨-1, g, ?_, ⟨inv_g, longer, fun _ => same⟩, by simp⟩
    rw [addEvent.eq_def, run_bind_ok found, if_neg not_has, run_bind_ok (epollCtl_fails ..),
      if_pos Bool.false_ne_true, run_pure]
  | true =>
    have wf := inv_g.wf ctx (List.mem_of_getElem? at_)
    have newest : (g.issued ++ [⟨caller.scheduler, workOf caller cb⟩])[g.issued.length]? =
        some ⟨caller.scheduler, workOf caller cb⟩ := by
      simp
    -- epoll, the counter and the context change together
    have core : Core { g with
        fdContexts := g.fdContexts.set fd.toNat
          (ctx.fill event ⟨caller.scheduler, workOf caller cb⟩ g.issued.length)
        interest := Function.update g.interest fd.toNat (ctx.events.add event).registered
        pendingEventCount := g.pendingEventCount + 1
        issued := g.issued ++ [⟨caller.scheduler, workOf caller cb⟩] } := by
      refine inv_g.toCore.replace at_ rfl (FdContext.fd_fill ..) (List.prefix_append ..)
        ((wf.mono (List.prefix_append ..)).fill event newest (scheduler rfl)) ?_ ?_ ?_
      · have one := Events.count_add absent
        rw [FdContext.events_fill]
        dsimp only
        omega
      · have moved := FdContext.tickets_fill ⟨caller.scheduler, workOf caller cb⟩ g.issued.length absent
        simp only [List.perm_iff_count, List.count_append, List.count_cons, List.count_nil,
          List.length_append, List.length_singleton, List.range_succ] at moved ⊢
        intro a
        have := moved a
        omega
      · exact fun entry member => getElem?_of_prefix (List.prefix_append ..) (inv_g.handed_eq entry member)
    exact ⟨0, _, addEvent_run inv_g found at_ running absent,
      ⟨inv_g.replace at_ rfl (by rw [FdContext.events_fill]) core,
        by rw [List.length_set]; exact longer, by simp⟩, fun _ => by rw [← same.issued_eq]⟩

/-- Without a scheduler the event is registered with an empty `scheduler`. -/
theorem addEvent_orphan {m : IOManager} (inv : Inv m) {caller : Caller} {fd : Int} (nonneg : 0 ≤ fd)
    {event : Event} {cb : Option Nat} (running : caller.Running cb) (orphan : caller.scheduler = none)
    (absent : (m.contextAt fd.toNat).events.has event = false) :
    ∃ m' ctx, addEvent true caller fd event cb m = .ok 0 m' ∧ ctx ∈ m'.fdContexts ∧
      ctx.events.has event = true ∧ (ctx.getContext event).scheduler = none := by
  obtain ⟨g, found, inv_g, -, -, at_⟩ := findContext_spec inv nonneg
  generalize m.contextAt fd.toNat = ctx at found at_ absent
  refine ⟨_, ctx.fill event ⟨caller.scheduler, workOf caller cb⟩ g.issued.length,
    addEvent_run inv_g found at_ running absent, ?_, ?_, ?_⟩
  · exact List.mem_set (List.getElem?_eq_some_iff.mp at_).1 _
  · rw [FdContext.events_fill]
    cases event <;> rfl
  · rw [orphan]
    cases event <;> rfl

/-- The assertion of `AddEvent`. -/
theorem addEvent_registered {m : IOManager} (inv : Inv m) (ok : Bool) {caller : Caller} {fd : Int}
    (nonneg : 0 ≤ fd) {event : Event} {cb : Option Nat}
    (registered : (m.contextAt fd.toNat).events.has event = true) :
    ∃ g, addEvent ok caller fd event cb m = .error .alreadyRegistered g := by
  obtain ⟨g, found, -⟩ := findContext_spec inv nonneg
  refine ⟨g, ?_⟩
  rw [addEvent.eq_def, run_bind_ok found, if_pos registered, run_throw]

theorem inv_new : Inv new := by
  have start : ∀ i, (⟨[], 0, fun _ => none, [], [], []⟩ : IOManager).contextAt i = .new i :=
    fun i => contextAt_beyond (Nat.zero_le i)
  have same := contextResize_unchanged (m := ⟨[], 0, fun _ => none, [], [], []⟩) (Nat.zero_le 32)
  have empty : ∀ ctx ∈ new.fdContexts, ∃ fd, ctx = FdContext.new fd := by
    intro ctx member
    obtain ⟨i, at_⟩ := List.getElem?_of_mem member
    refine ⟨i, ?_⟩
    rw [← contextAt_of_getElem? at_]
    exact (same.contextAt_eq i).trans (start i)
  refine ⟨⟨Nat.le_refl 32, ?_, ?_, by decide, by decide, by simp [new, contextResize]⟩, ?_⟩
  · intro i ctx at_
    rw [← contextAt_of_getElem? at_, show new.contextAt i = _ from (same.contextAt_eq i).trans (start i)]
    rfl
  · intro ctx member
    obtain ⟨fd, rfl⟩ := empty ctx member
    exact FdContext.wf_new _ fd
  · intro i
    rw [show new.contextAt i = _ from (same.contextAt_eq i).trans (start i)]
    rfl

end ServerFrame.IOManager
