import ServerFrame.IOManager.Table

/-!
# Dispatch of epoll records among other threads

Between the return of `epoll_wait` and the processing of a record other threads go
on changing the table, so a record may be stale. `Idle` only tests that some bit of
the record is still registered and then triggers all bits of it.
-/
namespace ServerFrame.IOManager

open EState

/-- The table, and for each idle worker the records it still has to process. A fault
ends the program. -/
structure Sys where
  m : IOManager
  batches : Nat → List Record
  fault : Option Fault

namespace Sys

def initial : Sys := ⟨new, fun _ => [], none⟩

end Sys

/-- What the threads do. Each operation on a descriptor runs under the lock of its
context, so it is one step. -/
inductive Action where
  | op (o : Op)
  | epollWait (worker : Nat) (records : List Record)
  | process (worker : Nat) (ok : Bool)

/-- The caller's side of an operation: the descriptor is one, and `AddEvent` is called
by a fiber of a scheduler. `AddEvent` does not test this; without it `TriggerEvent` schedules
on a null pointer. -/
def Op.Called : Op → Prop
  | .addEvent _ caller fd _ cb => 0 ≤ fd ∧ caller.Proper cb
  | .delEvent _ fd _ => 0 ≤ fd
  | .cancelEvent _ fd _ => 0 ≤ fd
  | .cancelAll _ fd => 0 ≤ fd

instance (o : Op) : Decidable o.Called :=
  match o with
  | .addEvent _ caller fd _ cb => inferInstanceAs (Decidable (0 ≤ fd ∧ caller.Proper cb))
  | .delEvent _ fd _ => inferInstanceAs (Decidable (0 ≤ fd))
  | .cancelEvent _ fd _ => inferInstanceAs (Decidable (0 ≤ fd))
  | .cancelAll _ fd => inferInstanceAs (Decidable (0 ≤ fd))

def step (s : Sys) (action : Action) : Option Sys :=
  if s.fault.isSome then none
  else
    match action with
    | .op o =>
      if o.Called then
        match perform o s.m with
        | .ok _ m => some { s with m := m }
        | .error fault _ => some { s with fault := some fault }
      else none
    | .epollWait worker records =>
      if s.batches worker = [] ∧ ∀ record ∈ records, Reported s.m record then
        some { s with batches := Function.update s.batches worker records }
      else none
    | .process worker ok =>
      match s.batches worker with
      | [] => none
      | record :: rest =>
        match dispatchRecord ok record s.m with
        | .ok _ m => some { s with m := m, batches := Function.update s.batches worker rest }
        | .error fault _ => some { s with fault := some fault }

/-- The bits of the record that a `process` step handles are all registered when it
does, or none of them is (or its `epoll_ctl` fails). -/
def Whole (s : Sys) : Action → Prop
  | .process worker ok =>
    ∀ record, (s.batches worker).head? = some record →
      ok = true → record.Coherent (s.m.contextAt record.fd).events
  | _ => True

/-! ## One step -/

structure SysInv (s : Sys) : Prop where
  inv : Inv s.m
  known : ∀ worker, ∀ record ∈ s.batches worker, record.fd < s.m.fdContexts.length
  fault_eq : s.fault = none ∨ s.fault = some .alreadyRegistered

theorem sysInv_initial : SysInv .initial :=
  ⟨inv_new, fun _ _ member => (List.not_mem_nil member).elim, .inl rfl⟩

/-- An operation returns, or it is an `AddEvent` of a registered event. -/
theorem perform_cases {m : IOManager} (inv : Inv m) (o : Op) (called : o.Called) :
    (∃ m', perform o m = .ok () m' ∧ Kept m o.ok m') ∨
      ∃ g, perform o m = .error .alreadyRegistered g := by
  cases o with
  | addEvent ok caller fd event cb =>
    cases has : (m.contextAt fd.toNat).events.has event with
    | true =>
      obtain ⟨g, ran⟩ := addEvent_registered inv ok called.1 has
      exact .inr ⟨g, by rw [perform, run_bind_error ran]⟩
    | false =>
      exact .inl (perform_spec inv _ called.1 ⟨called.2.running, has⟩ fun _ => called.2.scheduler_some)
  | delEvent ok fd event => exact .inl (perform_spec inv _ called trivial trivial)
  | cancelEvent ok fd event => exact .inl (perform_spec inv _ called trivial trivial)
  | cancelAll ok fd => exact .inl (perform_spec inv _ called trivial trivial)

theorem Reported.known {m : IOManager} (inv : Inv m) {record : Record}
    (reported : Reported m record) : record.fd < m.fdContexts.length := by
  obtain ⟨ctx, at_, -⟩ := reported.coherent inv
  exact (List.getElem?_eq_some_iff.mp at_).1

theorem step_op {s s' : Sys} {o : Op} (sys : SysInv s) (stepped : step s (.op o) = some s') :
    SysInv s' := by
  simp only [step] at stepped
  split at stepped
  · cases stepped
  split at stepped
  next called =>
    rcases perform_cases sys.inv o called with ⟨m', ran, kept⟩ | ⟨g, ran⟩
    · rw [ran] at stepped
      cases stepped
      exact ⟨kept.inv, fun worker record member =>
        Nat.lt_of_lt_of_le (sys.known worker record member) kept.length_le, sys.fault_eq⟩
    · rw [ran] at stepped
      cases stepped
      exact ⟨sys.inv, sys.known, .inr rfl⟩
  next => cases stepped

theorem step_epollWait {s s' : Sys} {worker : Nat} {records : List Record} (sys : SysInv s)
    (stepped : step s (.epollWait worker records) = some s') : SysInv s' := by
  simp only [step] at stepped
  split at stepped
  · cases stepped
  split at stepped
  next fetched =>
    cases stepped
    refine ⟨sys.inv, fun other record member => ?_, sys.fault_eq⟩
    by_cases same : other = worker
    · subst same
      simp only [Function.update_self] at member
      exact (fetched.2 record member).known sys.inv
    · simp only [Function.update_of_ne same] at member
      exact sys.known other record member
  next => cases stepped

theorem step_process {s s' : Sys} {worker : Nat} {ok : Bool} (sys : SysInv s)
    (whole : Whole s (.process worker ok)) (stepped : step s (.process worker ok) = some s') :
    SysInv s' := by
  simp only [step] at stepped
  split at stepped
  · cases stepped
  split at stepped
  next => cases stepped
  next record rest batch =>
    have bound := sys.known worker record (by rw [batch]; exact List.mem_cons_self ..)
    have at_ := List.getElem?_eq_getElem bound
    have coherent := whole record (by rw [batch]; rfl)
    rw [contextAt_of_getElem? at_] at coherent
    obtain ⟨m', ran, kept, -⟩ := dispatchRecord_spec sys.inv ok record at_ coherent
    rw [ran] at stepped
    cases stepped
    refine ⟨kept.inv, fun other record' member => ?_, sys.fault_eq⟩
    refine Nat.lt_of_lt_of_le (sys.known other record' ?_) kept.length_le
    by_cases same : other = worker
    · subst same
      simp only [Function.update_self] at member
      rw [batch]
      exact List.mem_cons_of_mem _ member
    · simpa only [Function.update_of_ne same] using member

theorem step_sysInv {s s' : Sys} {action : Action} (sys : SysInv s) (whole : Whole s action)
    (stepped : step s action = some s') : SysInv s' := by
  cases action with
  | op o => exact step_op sys stepped
  | epollWait worker records => exact step_epollWait sys stepped
  | process worker ok => exact step_process sys whole stepped

/-! ## A record that is stale in one bit -/

/-- Some bit of the record is registered, and some other is not: one of the two
assertions fails. -/
theorem dispatchRecord_stale {m : IOManager} (inv : Inv m) (record : Record) {ctx : FdContext}
    (at_ : m.fdContexts[record.fd]? = some ctx) (stale : ¬ record.Coherent ctx.events) :
    ∃ g, dispatchRecord true record m = .error .notRegistered g := by
  obtain ⟨touched, missing⟩ := not_or.mp stale
  have fd_eq := inv.fd_eq record.fd ctx at_
  have nothing : ctx.events ≠ .none := by
    intro none_
    exact touched (by rw [none_]; rfl)
  have watched := inv.watched_some at_ nothing
  rw [← fd_eq] at watched
  rw [dispatchRecord, run_bind_ok (fdContext_natCast at_)]
  dsimp only
  rw [if_neg touched, run_bind_ok (epollCtl_narrow _ watched), if_neg (not_not_intro rfl)]
  generalize record.realEvents ctx.events = real at missing ⊢
  have told := inv.toCore.watch (Function.update m.interest ctx.fd (ctx.events.diff real).registered)
  -- the bits are tested one after the other, and the first one missing ends the call
  by_cases read : real.read = true → ctx.events.has .read = true
  · -- the first bit is fine, so it is the second one that is missing
    obtain ⟨mid, ran, fired⟩ := triggerIf_spec told at_ .read real.read read
    obtain ⟨ctx_mid, -, at_mid, events_mid⟩ := fired.contexts_eq
    have write : real.write = true ∧ ctx.events.has .write = false := by
      by_contra fine
      refine missing fun event => ?_
      cases event with
      | read => exact read
      | write =>
        intro set_
        by_contra unset
        exact fine ⟨set_, by simpa using unset⟩
    have absent : ctx_mid.events.has .write = false := by
      rw [events_mid, ← write.2]
      split <;> rfl
    exact ⟨mid, by rw [run_bind_ok ran, triggerIf_absent at_mid absent write.1]⟩
  · obtain ⟨set_, unset⟩ := Classical.not_imp.mp read
    have absent : ctx.events.has .read = false := by simpa using unset
    let interest := Function.update m.interest ctx.fd (ctx.events.diff real).registered
    have at_told : { m with interest := interest }.fdContexts[record.fd]? = some ctx := at_
    exact ⟨_, run_bind_error (triggerIf_absent at_told absent set_) _⟩

/-- **Dispatch under interleaving**: in every run in which each record, at the moment it
is processed, is registered in all of its bits or in none, `TriggerEvent`'s assertion
holds, no event is triggered twice, and the counter is the number of registered bits
and is never decremented at zero. In any state of such a run, a successful `epoll_ctl`
on a record of the other kind makes the assertion fail. -/
theorem dispatch_interleaved (actions : List Action) (s : Sys)
    (steps : Run.Steps step Whole .initial actions s) :
    (s.fault = none ∨ s.fault = some .alreadyRegistered) ∧
    s.m.pendingEventCount = s.m.registeredBits ∧
    (s.m.pendingTickets ++ s.m.deleted ++ s.m.handed.map Prod.fst).Nodup ∧
    ∀ worker record rest, s.fault = none → s.batches worker = record :: rest →
      ((∃ s', step s (.process worker true) = some s' ∧ s'.fault = some .notRegistered) ↔
        ¬ record.Coherent (s.m.contextAt record.fd).events) := by
  have sys : SysInv s := steps.invariant
    (fun _ _ _ inv whole stepped => step_sysInv inv whole stepped) sysInv_initial
  refine ⟨sys.fault_eq, sys.inv.pending_eq,
    sys.inv.ledger_perm.nodup_iff.mpr List.nodup_range, ?_⟩
  intro worker record rest running batch
  have bound := sys.known worker record (by rw [batch]; exact List.mem_cons_self ..)
  have at_ := List.getElem?_eq_getElem bound
  rw [contextAt_of_getElem? at_]
  constructor
  · rintro ⟨s', stepped, faulted⟩ coherent
    have whole : Whole s (.process worker true) := by
      intro first is_first _
      rw [batch] at is_first
      cases is_first
      rw [contextAt_of_getElem? at_]
      exact coherent
    have after := (step_process sys whole stepped).fault_eq
    rw [faulted] at after
    simp at after
  · intro stale
    obtain ⟨g, ran⟩ := dispatchRecord_stale sys.inv record at_ stale
    exact ⟨_, by simp only [step, running, batch, ran]; rfl, rfl⟩

instance (s : Sys) (action : Action) : Decidable (Whole s action) :=
  match action with
  | .op _ => .isTrue trivial
  | .epollWait _ _ => .isTrue trivial
  | .process worker ok =>
    match first : (s.batches worker).head? with
    | none => .isTrue fun _ found => by rw [first] at found; cases found
    | some record =>
      decidable_of_iff (ok = true → record.Coherent (s.m.contextAt record.fd).events) <| by
        simp [Whole, first]

/-- A record for both events of a descriptor is processed after one of them was
triggered by a cancellation: the record is stale in one bit. -/
theorem stale_record_fails :
    (Run.run step .initial [
      .op (.addEvent true ⟨some 0, 1, .exec⟩ 5 .read none),
      .op (.addEvent true ⟨some 0, 2, .exec⟩ 5 .write none),
      .epollWait 0 [⟨5, ⟨true, true⟩, false, false⟩],
      .op (.cancelEvent true 5 .write),
      .process 0 true]).map Sys.fault = some (some .notRegistered) := by
  decide

/-- A record that has become stale in all of its bits is skipped, and one that is
registered in all of them is dispatched. -/
theorem dispatch_interleaved_whole :
    ∃ s, Run.run step .initial [
        .op (.addEvent true ⟨some 0, 1, .exec⟩ 5 .read none),
        .op (.addEvent true ⟨some 0, 2, .exec⟩ 7 .write (some 3)),
        .epollWait 0 [⟨5, ⟨true, false⟩, false, false⟩, ⟨7, ⟨false, true⟩, true, false⟩],
        .op (.cancelAll true 5),
        .process 0 true,
        .process 0 true] = some s ∧
      s.m.pendingEventCount = s.m.registeredBits := by
  obtain ⟨s, steps⟩ := Run.Steps.of_admissible step Whole .initial [
      .op (.addEvent true ⟨some 0, 1, .exec⟩ 5 .read none),
      .op (.addEvent true ⟨some 0, 2, .exec⟩ 7 .write (some 3)),
      .epollWait 0 [⟨5, ⟨true, false⟩, false, false⟩, ⟨7, ⟨false, true⟩, true, false⟩],
      .op (.cancelAll true 5),
      .process 0 true,
      .process 0 true] (by decide)
  exact ⟨s, steps.run, (dispatch_interleaved _ s steps).2.1⟩

end ServerFrame.IOManager
