import ServerFrame.IOManager.Invariant

/-!
# The event table over every sequence of operations

Operations run one at a time. `AddEvent` is called for an event that is not
registered, and epoll reports only what it watches. The scheduler of an event is that of
the thread that adds it, if it has one.
-/
namespace ServerFrame.IOManager

open EState

/-- The calls on the event table; `ok` is what the kernel says to the `epoll_ctl`. -/
inductive Op where
  | addEvent (ok : Bool) (caller : Caller) (fd : Int) (event : Event) (cb : Option Nat)
  | delEvent (ok : Bool) (fd : Int) (event : Event)
  | cancelEvent (ok : Bool) (fd : Int) (event : Event)
  | cancelAll (ok : Bool) (fd : Int)
  deriving DecidableEq, Repr

namespace Op

def ok : Op → Bool
  | addEvent ok _ _ _ _ => ok
  | delEvent ok _ _ => ok
  | cancelEvent ok _ _ => ok
  | cancelAll ok _ => ok

def fd : Op → Int
  | addEvent _ _ fd _ _ => fd
  | delEvent _ fd _ => fd
  | cancelEvent _ fd _ => fd
  | cancelAll _ fd => fd

/-- `AddEvent` is called by a fiber that runs, and for a new event. -/
def Fresh (m : IOManager) : Op → Prop
  | addEvent _ caller fd event cb =>
    caller.Running cb ∧ (m.contextAt fd.toNat).events.has event = false
  | _ => True

instance (m : IOManager) (op : Op) : Decidable (op.Fresh m) :=
  match op with
  | addEvent _ caller fd event cb => inferInstanceAs (Decidable
      (caller.Running cb ∧ (m.contextAt fd.toNat).events.has event = false))
  | delEvent .. => .isTrue trivial
  | cancelEvent .. => .isTrue trivial
  | cancelAll .. => .isTrue trivial

/-- An `AddEvent` that registers something is called on a thread with a scheduler. -/
def Scheduled : Op → Prop
  | addEvent ok caller _ _ _ => ok = true → caller.scheduler.isSome = true
  | _ => True

instance (op : Op) : Decidable op.Scheduled :=
  match op with
  | addEvent .. => inferInstanceAs (Decidable (_ → _))
  | delEvent .. => .isTrue trivial
  | cancelEvent .. => .isTrue trivial
  | cancelAll .. => .isTrue trivial

end Op

def perform : Op → IOManagerM Unit
  | .addEvent ok caller fd event cb => do let _ ← addEvent ok caller fd event cb
  | .delEvent ok fd event => do let _ ← delEvent ok fd event
  | .cancelEvent ok fd event => do let _ ← cancelEvent ok fd event
  | .cancelAll ok fd => do let _ ← cancelAll ok fd

theorem perform_spec {m : IOManager} (inv : Inv m) (op : Op) (nonneg : 0 ≤ op.fd)
    (fresh : op.Fresh m) (scheduled : op.Scheduled) :
    ∃ m', perform op m = .ok () m' ∧ Kept m op.ok m' := by
  cases op with
  | addEvent ok caller fd event cb =>
    have nonneg : 0 ≤ fd := nonneg
    obtain ⟨ret, m', ran, kept, -⟩ := addEvent_spec inv ok nonneg fresh.1 scheduled fresh.2
    exact ⟨m', by rw [perform, run_bind_ok ran, run_pure], kept⟩
  | delEvent ok fd event =>
    have nonneg : 0 ≤ fd := nonneg
    obtain ⟨ret, m', ran, kept⟩ := delEvent_spec inv ok nonneg event
    exact ⟨m', by rw [perform, run_bind_ok ran, run_pure], kept⟩
  | cancelEvent ok fd event =>
    have nonneg : 0 ≤ fd := nonneg
    obtain ⟨ret, m', ran, kept⟩ := cancelEvent_spec inv ok nonneg event
    exact ⟨m', by rw [perform, run_bind_ok ran, run_pure], kept⟩
  | cancelAll ok fd =>
    have nonneg : 0 ≤ fd := nonneg
    obtain ⟨ret, m', ran, kept⟩ := cancelAll_spec inv ok nonneg
    exact ⟨m', by rw [perform, run_bind_ok ran, run_pure], kept⟩

/-- epoll watches the descriptor of the record and all events it reports. -/
def Reported (m : IOManager) (record : Record) : Prop :=
  ∃ registered, m.interest record.fd = some registered ∧ record.events.Subset registered

instance (m : IOManager) (record : Record) : Decidable (Reported m record) :=
  match watched : m.interest record.fd with
  | none => .isFalse fun ⟨_, registered, _⟩ => by rw [watched] at registered; cases registered
  | some registered => decidable_of_iff (record.events.Subset registered) <| by
      simp [Reported, watched]

/-- A reported record has a context, and its bits are registered in it. -/
theorem Reported.coherent {m : IOManager} (inv : Inv m) {record : Record}
    (reported : Reported m record) :
    ∃ ctx, m.fdContexts[record.fd]? = some ctx ∧ record.Coherent ctx.events := by
  obtain ⟨registered, watched, subset⟩ := reported
  rw [inv.watched] at watched
  by_cases bound : record.fd < m.fdContexts.length
  · have at_ := List.getElem?_eq_getElem bound
    rw [contextAt_of_getElem? at_] at watched
    refine ⟨_, at_, .inr ?_⟩
    generalize m.fdContexts[record.fd].events = events at watched ⊢
    rw [Events.registered] at watched
    split at watched
    · cases watched
    · obtain rfl : events = registered := Option.some.inj watched
      intro event has
      rw [Record.realEvents] at has
      split at has
      · have either : (record.events.has event || events.has event) = true := by
          cases event
          · exact has
          · exact has
        rcases (Bool.or_eq_true _ _).mp either with reported | registered
        · exact subset event reported
        · exact registered
      · exact subset event has
  · rw [contextAt_beyond (by omega)] at watched
    cases watched

/-- A batch of records on different descriptors, as `epoll_wait` returns it. -/
theorem dispatch_spec {m : IOManager} (inv : Inv m) (records : List (Record × Bool))
    (distinct : (records.map fun entry => entry.1.fd).Nodup)
    (reported : ∀ entry ∈ records, Reported m entry.1) :
    ∃ m', dispatch records m = .ok () m' ∧ Inv m' ∧
      ((∀ entry ∈ records, entry.2 = false) → m' = m) := by
  induction records generalizing m with
  | nil => exact ⟨m, rfl, inv, fun _ => rfl⟩
  | cons entry records ih =>
    obtain ⟨record, ok⟩ := entry
    obtain ⟨ctx, at_, coherent⟩ := (reported _ (List.mem_cons_self ..)).coherent inv
    obtain ⟨mid, ran, ⟨inv_mid, -, -⟩, unchanged, others⟩ :=
      dispatchRecord_spec inv ok record at_ fun _ => coherent
    rw [List.map_cons, List.nodup_cons] at distinct
    have later : ∀ entry ∈ records, Reported mid entry.1 := by
      intro entry member
      obtain ⟨registered, watched, subset⟩ := reported entry (List.mem_cons_of_mem _ member)
      have other : entry.1.fd ≠ record.fd := fun same =>
        distinct.1 (same ▸ List.mem_map_of_mem member)
      refine ⟨registered, ?_, subset⟩
      rw [inv_mid.watched, others _ other, ← inv.watched, watched]
    obtain ⟨m', ran', inv', unchanged'⟩ := ih inv_mid distinct.2 later
    refine ⟨m', by rw [dispatch, run_bind_ok ran, ran'], inv', fun fails => ?_⟩
    rw [unchanged' fun entry member => fails entry (List.mem_cons_of_mem _ member),
      unchanged (fails _ (List.mem_cons_self ..))]

/-- An operation, or one pass of `Idle` over the records of an `epoll_wait`. -/
inductive Call where
  | op (o : Op)
  | dispatch (records : List (Record × Bool))

namespace Call

/-- The calls that are made: descriptors are not negative, `AddEvent` is for a new
event, and epoll reports each descriptor once and with registered events only. -/
def Allowed (m : IOManager) : Call → Prop
  | .op o => 0 ≤ o.fd ∧ o.Fresh m
  | .dispatch records =>
    (records.map fun entry => entry.1.fd).Nodup ∧ ∀ entry ∈ records, Reported m entry.1

instance (m : IOManager) (call : Call) : Decidable (call.Allowed m) :=
  match call with
  | .op o => inferInstanceAs (Decidable (0 ≤ o.fd ∧ o.Fresh m))
  | .dispatch records => inferInstanceAs (Decidable
      ((records.map fun entry => entry.1.fd).Nodup ∧ ∀ entry ∈ records, Reported m entry.1))

/-- The events that the call adds have a scheduler. -/
def Scheduled : Call → Prop
  | .op o => o.Scheduled
  | .dispatch _ => True

instance (call : Call) : Decidable call.Scheduled :=
  match call with
  | .op o => inferInstanceAs (Decidable o.Scheduled)
  | .dispatch _ => .isTrue trivial

/-- Every `epoll_ctl` of the call fails. -/
def ctlFails : Call → Prop
  | .op o => o.ok = false
  | .dispatch records => ∀ entry ∈ records, entry.2 = false

/-- Where no `epoll_ctl` succeeds, nothing is added. -/
theorem scheduled_of_fails (call : Call) (fails : call.ctlFails) : call.Scheduled := by
  match call, fails with
  | .op (.addEvent ..), fails => exact fun ok => absurd (ok.symm.trans fails) (by decide)
  | .op (.delEvent ..), _ => trivial
  | .op (.cancelEvent ..), _ => trivial
  | .op (.cancelAll ..), _ => trivial
  | .dispatch _, _ => trivial

end Call

/-- The state after a call, `none` when it ends in a fault. -/
def after (m : IOManager) (call : Call) : Option IOManager :=
  let result := match call with
    | .op o => perform o m
    | .dispatch records => dispatch records m
  match result with
  | .ok _ m' => some m'
  | .error _ _ => none

theorem after_spec {m : IOManager} (inv : Inv m) (call : Call) (allowed : call.Allowed m)
    (scheduled : call.Scheduled) :
    ∃ m', after m call = some m' ∧ Inv m' ∧ (call.ctlFails → Unchanged m m') := by
  cases call with
  | op o =>
    obtain ⟨m', ran, kept⟩ := perform_spec inv o allowed.1 allowed.2 scheduled
    exact ⟨m', by simp only [after, ran], kept.inv, kept.unchanged⟩
  | dispatch records =>
    obtain ⟨m', ran, inv', unchanged⟩ := dispatch_spec inv records allowed.1 allowed.2
    refine ⟨m', by simp only [after, ran], inv', fun fails => ?_⟩
    rw [unchanged fails]
    exact .refl m

theorem steps_inv {calls : List Call} {m : IOManager}
    (steps : Run.Steps after (fun m call => call.Allowed m ∧ call.Scheduled) new calls m) : Inv m := by
  refine steps.invariant (fun s call s' inv admitted stepped => ?_) inv_new
  obtain ⟨m', ran, inv', -⟩ := after_spec inv call admitted.1 admitted.2
  rw [ran, Option.some.injEq] at stepped
  exact stepped ▸ inv'

/-- A bit is set exactly when its context is filled. -/
theorem FdContext.Wf.has_iff {issued : List Task} {ctx : FdContext} (wf : ctx.Wf issued)
    (event : Event) :
    ctx.events.has event = true ↔ (ctx.getContext event).scheduler.isSome = true ∧
      (ctx.getContext event).fiber.isSome ≠ (ctx.getContext event).cb.isSome := by
  constructor
  · intro has
    obtain ⟨⟨scheduler, work⟩, -, fills⟩ := wf.of_has has
    rw [fills.scheduler_eq, fills.fiber_eq, fills.cb_eq]
    refine ⟨fills.scheduler_some, ?_⟩
    cases work <;> simp [fiberOf, cbOf]
  · rintro ⟨filled, -⟩
    cases has : ctx.events.has event with
    | true => rfl
    | false =>
      rw [(wf.of_not_has has).scheduler_eq] at filled
      cases filled

/-- The counter is the number of registered bits, a bit is set exactly when its context is
filled, the kernel watches exactly the registered events, and each successful `AddEvent` is
in one place: still registered, deleted, or handed once to `Schedule` with the work it
registered. -/
structure TableHolds (m : IOManager) : Prop where
  pending : m.pendingEventCount = m.registeredBits
  filled : ∀ ctx ∈ m.fdContexts, ∀ event, ctx.events.has event = true ↔
    (ctx.getContext event).scheduler.isSome = true ∧
      (ctx.getContext event).fiber.isSome ≠ (ctx.getContext event).cb.isSome
  watched : ∀ fd, m.interest fd = (m.contextAt fd).events.registered
  accounted : (m.pendingTickets ++ m.deleted ++ m.handed.map Prod.fst).Perm (List.range m.issued.length)
  handed : ∀ entry ∈ m.handed, m.issued[entry.1]? = some entry.2

theorem Inv.tableHolds {m : IOManager} (inv : Inv m) : TableHolds m where
  pending := inv.pending_eq
  filled := fun ctx member => (inv.wf ctx member).has_iff
  watched := inv.watched
  accounted := inv.ledger_perm
  handed := inv.handed_eq

/-- An event that is added without a scheduler is registered in a context that is not filled. -/
theorem after_orphan {m m' : IOManager} (inv : Inv m) {call : Call} (allowed : call.Allowed m)
    (orphan : ¬ call.Scheduled) (stepped : after m call = some m') : ¬ TableHolds m' := by
  match call, allowed, orphan with
  | .dispatch _, _, orphan => exact absurd trivial orphan
  | .op (.delEvent ..), _, orphan => exact absurd trivial orphan
  | .op (.cancelEvent ..), _, orphan => exact absurd trivial orphan
  | .op (.cancelAll ..), _, orphan => exact absurd trivial orphan
  | .op (.addEvent ok caller fd event cb), allowed, orphan =>
    obtain ⟨nonneg, running, absent⟩ := allowed
    obtain ⟨rfl, none_⟩ := Classical.not_imp.mp orphan
    rw [Option.not_isSome_iff_eq_none] at none_
    obtain ⟨m₁, ctx, ran, member, has, unfilled⟩ := @addEvent_orphan _ inv _ fd nonneg _ _ running none_ absent
    have performed : after m (.op (.addEvent true caller fd event cb)) = some m₁ := by
      simp only [after, perform, run_bind_ok ran, run_pure]
    rw [performed] at stepped
    cases stepped
    intro holds
    have filled := ((holds.filled ctx member event).mp has).1
    rw [unfilled] at filled
    cases filled

/-- **Event table**: after every sequence of calls whose `AddEvent`s are made on threads with a
scheduler the table holds what it should, and the next call cannot fault. When its `epoll_ctl`s
fail it changes nothing, and it keeps the table exactly if it does not register an event without
a scheduler. -/
theorem event_table_iff (calls : List Call) (m : IOManager)
    (steps : Run.Steps after (fun m call => call.Allowed m ∧ call.Scheduled) new calls m) :
    TableHolds m ∧
    (∀ record, Reported m record → dispatchRecord false record m = .ok () m) ∧
    ∀ call, call.Allowed m →
      (call.ctlFails → ∃ m', after m call = some m' ∧ Unchanged m m') ∧
      ((∃ m', after m call = some m' ∧ TableHolds m') ↔ call.Scheduled) := by
  have inv := steps_inv steps
  refine ⟨inv.tableHolds, fun record reported => ?_, fun call allowed => ⟨fun fails => ?_, ?_⟩⟩
  · obtain ⟨ctx, at_, coherent⟩ := reported.coherent inv
    obtain ⟨m', ran, -, unchanged, -⟩ := dispatchRecord_spec inv false record at_ fun _ => coherent
    rw [ran, unchanged rfl]
  · obtain ⟨m', ran, -, unchanged⟩ := after_spec inv call allowed (call.scheduled_of_fails fails)
    exact ⟨m', ran, unchanged fails⟩
  · constructor
    · rintro ⟨m', stepped, holds⟩
      by_contra orphan
      exact after_orphan inv allowed orphan stepped holds
    · intro scheduled
      obtain ⟨m', ran, inv', -⟩ := after_spec inv call allowed scheduled
      exact ⟨m', ran, inv'.tableHolds⟩

/-- Two events on a descriptor beyond the table, one failing `epoll_ctl`, a dispatch with
a hangup, and a deletion that comes too late. -/
theorem event_table_iff_mixed :
    ∃ m, Run.run after new [
        .op (.addEvent true ⟨some 0, 1, .exec⟩ 40 .read none),
        .op (.addEvent false ⟨some 0, 2, .exec⟩ 40 .write none),
        .op (.addEvent true ⟨some 0, 2, .exec⟩ 40 .write (some 9)),
        .dispatch [(⟨40, ⟨true, false⟩, false, true⟩, true)],
        .op (.delEvent true 40 .write)] = some m ∧ TableHolds m := by
  obtain ⟨m, steps⟩ := Run.Steps.of_admissible after (fun m call => call.Allowed m ∧ call.Scheduled) new [
      .op (.addEvent true ⟨some 0, 1, .exec⟩ 40 .read none),
      .op (.addEvent false ⟨some 0, 2, .exec⟩ 40 .write none),
      .op (.addEvent true ⟨some 0, 2, .exec⟩ 40 .write (some 9)),
      .dispatch [(⟨40, ⟨true, false⟩, false, true⟩, true)],
      .op (.delEvent true 40 .write)] (by decide +kernel)
  exact ⟨m, steps.run, (event_table_iff _ m steps).1⟩

/-- A callback is added on a thread without a scheduler: the bit is set and its context has none,
and a cancellation schedules on a null pointer. -/
theorem event_without_scheduler :
    (after new (.op (.addEvent true ⟨none, 1, .exec⟩ 5 .read (some 3)))).any (fun m =>
      (m.contextAt 5).events.has .read && ((m.contextAt 5).getContext .read).scheduler.isNone &&
        match cancelEvent true 5 .read m with
        | .error .nullScheduler _ => true
        | _ => false) = true ∧
    ¬ ∀ m, after new (.op (.addEvent true ⟨none, 1, .exec⟩ 5 .read (some 3))) = some m → TableHolds m := by
  refine ⟨by decide +kernel, fun all => ?_⟩
  have stepped : (after new (.op (.addEvent true ⟨none, 1, .exec⟩ 5 .read (some 3)))).isSome = true := by
    decide +kernel
  obtain ⟨m, ran⟩ := Option.isSome_iff_exists.mp stepped
  exact @after_orphan _ m inv_new (.op (.addEvent true ⟨none, 1, .exec⟩ 5 .read (some 3)))
    ⟨by decide, by decide, by decide +kernel⟩ (by decide) ran (all m ran)

end ServerFrame.IOManager
