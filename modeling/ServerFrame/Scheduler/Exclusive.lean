import ServerFrame.Scheduler.Pass

/-!
# Exclusive execution of fibers

The only guard of a fiber is its `state_`. The yielding fiber gives it up before its
context is saved, and its worker writes it once more after `SwapIn` has returned. What
keeps a fiber from two workers is therefore not in the code: an entry of the fiber must
not be taken before the worker that ran it is done with it.
-/
namespace ServerFrame.Scheduler

/-- The code of the job is being executed, or a yield of it. -/
def Pc.executing : Pc → Option Job
  | .running j => some j
  | .yieldAssert j _ => some j
  | .yieldWrite j _ => some j
  | .swapOut j => some j
  | _ => none

/-- What exclusive execution asks of a state. -/
structure Exclusive (s : Scheduler) : Prop where
  /-- No assertion has failed, and no fiber was resumed before its context was saved. -/
  no_fault : s.fault = none
  one_worker : ∀ v w f, (s.workers v).pc.executing.map (Job.slot v) = some (.user f) →
    (s.workers w).pc.executing.map (Job.slot w) = some (.user f) → v = w
  exec : ∀ w j, (s.workers w).pc = .running j → (s.fiberOf w j).state = .exec

/-- Nobody schedules a fiber that has run and has not registered itself. -/
def lawful (s : Scheduler) : Action → Bool
  | .schedule items => items.all fun item =>
    match item.1 with
    | some (.fiber f) => s.registered f || s.stateOf f == .init
    | _ => true
  | _ => true

/-- The fiber whose entry worker `w` is about to take. -/
def takes (s : Scheduler) (w : Nat) : Option Nat :=
  match (s.workers w).pc with
  | .top =>
    match scan s.fibers w s.queue with
    | some (e, _) =>
      match e.work with
      | .fiber f => some f
      | .cb _ => none
    | none => none
  | _ => none

/-- A worker takes an entry only of a fiber that the others are done with. -/
def TakesFree (s : Scheduler) : Action → Prop
  | .worker w => ∀ f ∈ s.takes w, s.Free f
  | _ => True

instance (s : Scheduler) (a : Action) : Decidable (s.TakesFree a) :=
  match a with
  | .worker w => inferInstanceAs (Decidable (∀ f ∈ s.takes w, s.Free f))
  | .fiber _ _ => isTrue trivial
  | .makeFiber => isTrue trivial
  | .schedule _ => isTrue trivial
  | .setAutoStop => isTrue trivial
  | .setStopping => isTrue trivial

/-- A fiber registers itself and yields with `kHold`. It is woken up after the write of
its state and before its context is saved, and a second worker resumes it there. -/
theorem resumed_before_saved :
    ∃ s, Run.Steps step (fun s a => s.lawful a = true) (start 2)
        [.makeFiber, .schedule [(some (.fiber 0), -1)],
          .worker 0, .worker 0, .worker 0, .worker 0, .worker 0, .worker 0,
          .fiber 0 .register, .fiber 0 .yieldToHold, .worker 0, .worker 0,
          .schedule [(some (.fiber 0), -1)],
          .worker 1, .worker 1, .worker 1, .worker 1, .worker 1, .worker 1] s ∧
      ¬ Exclusive s := by
  obtain ⟨s, steps⟩ := Run.Steps.of_admissible step (fun s a => s.lawful a = true) (start 2)
    [.makeFiber, .schedule [(some (.fiber 0), -1)],
      .worker 0, .worker 0, .worker 0, .worker 0, .worker 0, .worker 0,
      .fiber 0 .register, .fiber 0 .yieldToHold, .worker 0, .worker 0,
      .schedule [(some (.fiber 0), -1)],
      .worker 1, .worker 1, .worker 1, .worker 1, .worker 1, .worker 1] (by decide)
  have fault : (Run.run step (start 2)
      [.makeFiber, .schedule [(some (.fiber 0), -1)],
        .worker 0, .worker 0, .worker 0, .worker 0, .worker 0, .worker 0,
        .fiber 0 .register, .fiber 0 .yieldToHold, .worker 0, .worker 0,
        .schedule [(some (.fiber 0), -1)],
        .worker 1, .worker 1, .worker 1, .worker 1, .worker 1, .worker 1]).map
          (fun s => s.fault) = some (some .resumedUnsaved) := by
    decide
  refine ⟨s, steps, fun exclusive => ?_⟩
  rw [steps.run, Option.map_some, exclusive.no_fault] at fault
  cases fault

/-! ## The steps -/

/-- What the position of worker `w` says about the fiber of its pass. -/
theorem ExclusiveInv.fits_at {s : Scheduler} {w : Nat} {pc : Pc} {j : Job} (inv : ExclusiveInv s)
    (at_ : (s.workers w).pc = pc) (job : pc.job = some j) : pc.Fits (s.fiberOf w j) := by
  subst at_
  rw [fiberOf_eq]
  exact inv.hands.fits w _ (Pc.slot_of_job job w)

theorem ExclusiveInv.idle_at {s : Scheduler} (inv : ExclusiveInv s) (w : Nat) {j : Job}
    (is_idle : j.isIdle = true) : (s.fiberOf w j).state ≠ .except := by
  cases j with
  | idle => exact inv.hands.idle w
  | fiber f _ => cases is_idle
  | cb f _ => cases is_idle

/-- The pass goes on and leaves the fiber as it is. -/
theorem ExclusiveInv.move {s : Scheduler} {w : Nat} {j : Job} {pc : Pc} (inv : ExclusiveInv s)
    (bound : w < s.threads) (job : (s.workers w).pc.job = some j) (job' : pc.job = some j)
    (fits : pc.Fits (s.fiberOf w j)) : ExclusiveInv (s.setPc w pc) := by
  have moved := inv.proceed bound job job' fits (.inl (.refl _)) (inv.idle_at w)
  rwa [setFiberOf_fiberOf] at moved

/-- The pass is over and leaves the fiber as it is. -/
theorem ExclusiveInv.stop {s : Scheduler} {w : Nat} {j : Job} {pc : Pc} (inv : ExclusiveInv s)
    (bound : w < s.threads) (job : (s.workers w).pc.job = some j) (slot' : pc.slot w = none)
    (parked : (s.fiberOf w j).Parked) (callback : j.callback = none)
    (rescheduled : ∀ j', pc = .reschedule j' → j' = j) : ExclusiveInv (s.setPc w pc) := by
  have left := inv.leave bound job slot' parked (.inl (.refl _)) (inv.idle_at w)
    (.inr ⟨rfl, .inl callback⟩) rescheduled
  rwa [setFiberOf_fiberOf, setCbFiber_cbFiber] at left

theorem Fiber.saved_of_live {x : Fiber} (saved : x.saved = true ∨ x.state.terminated = true)
    (live : x.state.terminated = false) : x.saved = true :=
  saved.resolve_right fun ended => Bool.false_ne_true (live.symm.trans ended)

theorem terminated_eq_false {st : FiberState} (not_term : st ≠ .term) (not_except : st ≠ .except) :
    st.terminated = false := by
  cases st <;> first | rfl | contradiction

/-- The tests of the state before a pass. -/
theorem ExclusiveInv.test {s s' : Scheduler} {w : Nat} {e : Entry} (inv : ExclusiveInv s)
    (bound : w < s.threads) (at_ : (s.workers w).pc = .testTerm e)
    (stepped : s.workerStep w = some s') : ExclusiveInv s' := by
  have job : (s.workers w).pc.job = none := by rw [at_]; rfl
  rw [workerStep, at_] at stepped
  dsimp only at stepped
  split at stepped
  next f work =>
    have held : s.slotOf w = some (.user f) := by
      simp [slotOf, at_, Pc.slot, Pc.job, Pc.testing, work]
    have fits := inv.hands.fits w _ held
    rw [at_] at fits
    split at stepped
    · cases stepped
      exact inv.idly bound job rfl (by rintro _ ⟨⟩)
    next not_term =>
      cases stepped
      exact inv.go_on bound job held rfl rfl ⟨fits, not_term⟩ (.inl rfl)
  next id work =>
    cases stepped
    apply inv.prepare bound
    simp [slotOf, at_, Pc.slot, Pc.job, Pc.testing, work]

theorem ExclusiveInv.testExcept {s s' : Scheduler} {w f : Nat} {e : Entry} (inv : ExclusiveInv s)
    (bound : w < s.threads) (at_ : (s.workers w).pc = .testExcept e f)
    (stepped : s.workerStep w = some s') : ExclusiveInv s' := by
  have job : (s.workers w).pc.job = none := by rw [at_]; rfl
  have held : s.slotOf w = some (.user f) := by
    rw [slotOf, at_]
    rfl
  obtain ⟨⟨not_exec, saved⟩, not_term⟩ : (Pc.testExcept e f).Fits (s.fibers f) :=
    at_ ▸ inv.hands.fits w _ held
  rw [workerStep, at_] at stepped
  dsimp only at stepped
  split at stepped
  · cases stepped
    exact inv.idly bound job rfl (by rintro _ ⟨⟩)
  next not_except =>
    cases stepped
    have live := terminated_eq_false not_term not_except
    exact inv.go_on bound job held rfl rfl ⟨not_exec, live, Fiber.saved_of_live saved live⟩ (.inr live)

/-- `SwapIn` up to the switch: its assertion holds and there is a context to resume. -/
theorem ExclusiveInv.swapIn {s s' : Scheduler} {w : Nat} {j : Job} (inv : ExclusiveInv s)
    (bound : w < s.threads)
    (at_ : (s.workers w).pc = .swapAssert j ∨ (s.workers w).pc = .swapSet j ∨
      (s.workers w).pc = .swapLoad j)
    (stepped : s.workerStep w = some s') : ExclusiveInv s' := by
  rcases at_ with at_ | at_ | at_
  · have ready : (s.fiberOf w j).Ready := inv.fits_at at_ rfl
    rw [workerStep, at_] at stepped
    dsimp only at stepped
    rw [if_neg ready.1] at stepped
    cases stepped
    exact inv.move bound (by rw [at_]; rfl) rfl ready
  · obtain ⟨-, live, saved⟩ : (s.fiberOf w j).Ready := inv.fits_at at_ rfl
    rw [workerStep, at_] at stepped
    cases stepped
    exact inv.proceed bound (by rw [at_]; rfl) rfl ⟨rfl, saved⟩ (.inr live)
      fun _ => by rintro ⟨⟩
  · obtain ⟨exec, saved⟩ : (Pc.swapLoad j).Fits (s.fiberOf w j) := inv.fits_at at_ rfl
    rw [workerStep, at_] at stepped
    dsimp only at stepped
    rw [if_pos saved] at stepped
    cases stepped
    have live : (s.fiberOf w j).state.terminated = false := by
      rw [exec]
      rfl
    exact inv.proceed bound (by rw [at_]; rfl) rfl exec (.inr live) fun _ => by
      rw [exec]
      decide

/-- A yield or the end of a fiber, up to the switch back. -/
theorem ExclusiveInv.yield {s s' : Scheduler} {w : Nat} {j : Job} (st : FiberState)
    (inv : ExclusiveInv s) (bound : w < s.threads)
    (at_ : (s.workers w).pc = .yieldAssert j st ∨ (s.workers w).pc = .yieldWrite j st ∨
      (s.workers w).pc = .swapOut j)
    (stepped : s.workerStep w = some s') : ExclusiveInv s' := by
  rcases at_ with at_ | at_ | at_
  · have fits : (Pc.yieldAssert j st).Fits (s.fiberOf w j) := inv.fits_at at_ rfl
    rw [workerStep, at_] at stepped
    dsimp only at stepped
    rw [if_pos fits.1] at stepped
    cases stepped
    exact inv.move bound (by rw [at_]; rfl) rfl fits
  · obtain ⟨exec, not_exec, idle⟩ : (Pc.yieldWrite j st).Fits (s.fiberOf w j) :=
      inv.fits_at at_ rfl
    rw [workerStep, at_] at stepped
    cases stepped
    have live : (s.fiberOf w j).state.terminated = false := by
      rw [exec]
      rfl
    exact inv.proceed bound (by rw [at_]; rfl) rfl (.inr not_exec) (.inr live) idle
  · have fits : j.isIdle = true ∨ (s.fiberOf w j).state ≠ .exec := inv.fits_at at_ rfl
    rw [workerStep, at_] at stepped
    cases stepped
    have job : (s.workers w).pc.job = some j := by rw [at_]; rfl
    -- saving the context does not matter to a worker that tests the state
    have same : (s.fiberOf w j).Same { s.fiberOf w j with saved := true } := ⟨rfl, fun _ => rfl⟩
    cases is_idle : j.isIdle with
    | true =>
      rw [if_pos rfl]
      refine inv.proceed bound job rfl ⟨.inl is_idle, .inl rfl, ?_⟩ (.inl same) (inv.idle_at w)
      intro callback
      cases j with
      | idle => cases callback
      | fiber f _ => cases is_idle
      | cb f _ => cases is_idle
    | false =>
      rw [if_neg (by simp)]
      have not_exec := fits.resolve_left (by simp [is_idle])
      exact inv.proceed bound job rfl ⟨not_exec, .inl rfl⟩ (.inl same) (inv.idle_at w)

/-- The decrement, and the test for `kReady`. -/
theorem ExclusiveInv.returned {s s' : Scheduler} {w : Nat} {j : Job} (inv : ExclusiveInv s)
    (bound : w < s.threads)
    (at_ : (s.workers w).pc = .decrement j ∨ (s.workers w).pc = .readReady j)
    (stepped : s.workerStep w = some s') : ExclusiveInv s' := by
  rcases at_ with at_ | at_
  · have parked : (s.fiberOf w j).Parked := inv.fits_at at_ rfl
    have moved : ExclusiveInv (s.setPc w (.readReady j)) :=
      inv.move bound (by rw [at_]; rfl) rfl parked
    rw [workerStep, at_] at stepped
    dsimp only at stepped
    split at stepped
    next =>
      cases stepped
      exact moved.of_same rfl rfl rfl rfl rfl fun _ member => member
    next =>
      cases stepped
      exact moved.of_same rfl rfl rfl rfl rfl fun _ member => member
    next => cases stepped
  · have parked : (s.fiberOf w j).Parked := inv.fits_at at_ rfl
    have job : (s.workers w).pc.job = some j := by rw [at_]; rfl
    rw [workerStep, at_] at stepped
    dsimp only at stepped
    split at stepped
    next f entry =>
      split at stepped
      · cases stepped
        exact inv.stop bound job rfl parked rfl (by rintro _ ⟨⟩; rfl)
      · cases stepped
        exact inv.move bound job rfl ⟨.inr parked.1, parked.2, by rintro ⟨⟩⟩
    next f entry =>
      split at stepped
      · cases stepped
        have left : ExclusiveInv (((s.setFiberOf w (.cb f entry) (s.fiberOf w (.cb f entry))).setCbFiber
            w none).setPc w (.reschedule (.cb f entry))) :=
          inv.leave bound job rfl parked (.inl (.refl _)) (by rintro ⟨⟩) (.inl rfl)
            (by rintro _ ⟨⟩; rfl)
        rwa [setFiberOf_fiberOf] at left
      · cases stepped
        exact inv.move bound job rfl ⟨.inr parked.1, parked.2, by rintro ⟨⟩⟩
    next => cases stepped

/-- A terminated fiber ends the pass; that of a callback is reset first. -/
theorem ExclusiveInv.ended {s : Scheduler} {w : Nat} {j : Job} (inv : ExclusiveInv s)
    (bound : w < s.threads) (job : (s.workers w).pc.job = some j)
    (ended : (s.fiberOf w j).state.terminated = true) :
    ExclusiveInv (s.setPc w (afterTerminated j)) := by
  have not_exec : (s.fiberOf w j).state ≠ .exec := by
    intro exec
    rw [exec] at ended
    cases ended
  cases j with
  | cb f entry => exact inv.move bound job rfl ⟨ended, by rintro ⟨⟩⟩
  | fiber f entry => exact inv.stop bound job rfl ⟨not_exec, .inr ended⟩ rfl (by rintro _ ⟨⟩)
  | idle => exact inv.stop bound job rfl ⟨not_exec, .inr ended⟩ rfl (by rintro _ ⟨⟩)

/-- The tests for `kTerm` and `kExcept` after a pass. -/
theorem ExclusiveInv.read {s s' : Scheduler} {w : Nat} {j : Job} (inv : ExclusiveInv s)
    (bound : w < s.threads)
    (at_ : (s.workers w).pc = .readTerm j ∨ (s.workers w).pc = .readExcept j)
    (stepped : s.workerStep w = some s') : ExclusiveInv s' := by
  rcases at_ with at_ | at_
  · obtain ⟨not_exec, saved, not_except⟩ : (Pc.readTerm j).Fits (s.fiberOf w j) :=
      inv.fits_at at_ rfl
    have job : (s.workers w).pc.job = some j := by rw [at_]; rfl
    rw [workerStep, at_] at stepped
    dsimp only at stepped
    split at stepped
    next is_term =>
      cases stepped
      exact inv.ended bound job (by rw [is_term]; rfl)
    next not_term =>
      split at stepped
      next f entry =>
        cases stepped
        have live := terminated_eq_false not_term (not_except rfl)
        exact inv.move bound job rfl ⟨live, Fiber.saved_of_live saved live⟩
      next =>
        cases stepped
        exact inv.move bound job rfl ⟨not_exec, saved, fun _ => not_term⟩
  · obtain ⟨not_exec, saved, not_term⟩ : (Pc.readExcept j).Fits (s.fiberOf w j) :=
      inv.fits_at at_ rfl
    have job : (s.workers w).pc.job = some j := by rw [at_]; rfl
    rw [workerStep, at_] at stepped
    dsimp only at stepped
    split at stepped
    next is_except =>
      cases stepped
      exact inv.ended bound job (by rw [is_except]; rfl)
    next not_except =>
      split at stepped
      next f entry =>
        cases stepped
        exact inv.move bound job rfl ⟨not_exec, saved, fun _ => not_except⟩
      next no_callback =>
        cases stepped
        -- without a callback `kTerm` was tested before `kExcept`, with one behind it
        have callback : j.callback = none := by
          cases j with
          | cb f entry => exact absurd rfl (no_callback f entry)
          | fiber f entry => rfl
          | idle => rfl
        have live := terminated_eq_false (not_term callback) not_except
        exact inv.move bound job rfl ⟨live, Fiber.saved_of_live saved live⟩

/-- The write of `kHold`, and the `Reset` of a callback's fiber. -/
theorem ExclusiveInv.settle {s s' : Scheduler} {w : Nat} {j : Job} (inv : ExclusiveInv s)
    (bound : w < s.threads)
    (at_ : (s.workers w).pc = .setHold j ∨ (s.workers w).pc = .reset j)
    (stepped : s.workerStep w = some s') : ExclusiveInv s' := by
  rcases at_ with at_ | at_
  · obtain ⟨live, saved⟩ : (Pc.setHold j).Fits (s.fiberOf w j) := inv.fits_at at_ rfl
    have job : (s.workers w).pc.job = some j := by rw [at_]; rfl
    have parked : Fiber.Parked { s.fiberOf w j with state := .hold } :=
      ⟨by rintro ⟨⟩, .inl saved⟩
    rw [workerStep, at_] at stepped
    dsimp only at stepped
    split at stepped
    next f entry =>
      cases stepped
      exact inv.leave bound job rfl parked (.inr (.inl live)) (fun _ => by rintro ⟨⟩) (.inl rfl)
        (by rintro _ ⟨⟩)
    next no_callback =>
      cases stepped
      have none' : j.callback = none := by
        cases j with
        | cb f entry => exact absurd rfl (no_callback f entry)
        | fiber f entry => rfl
        | idle => rfl
      -- a pass with a queued fiber leaves `cb_fiber` as it was
      have left : ExclusiveInv (((s.setFiberOf w j { s.fiberOf w j with state := .hold }).setCbFiber
          w (s.workers w).cbFiber).setPc w .top) :=
        inv.leave bound job rfl parked (.inr (.inl live)) (fun _ => by rintro ⟨⟩)
          (.inr ⟨rfl, .inl none'⟩) (by rintro _ ⟨⟩)
      rwa [← cbFiber_setFiberOf s w w j { s.fiberOf w j with state := .hold },
        setCbFiber_cbFiber] at left
  · obtain ⟨ended, callback⟩ : (Pc.reset j).Fits (s.fiberOf w j) := inv.fits_at at_ rfl
    have job : (s.workers w).pc.job = some j := by rw [at_]; rfl
    have resettable : (s.fiberOf w j).state.resettable = true := by
      cases state : (s.fiberOf w j).state <;> rw [state] at ended <;> first | rfl | cases ended
    rw [workerStep, at_] at stepped
    dsimp only at stepped
    rw [if_pos resettable] at stepped
    cases stepped
    have left : ExclusiveInv (((s.setFiberOf w j .new).setCbFiber w (s.workers w).cbFiber).setPc w
        .top) :=
      inv.leave bound job rfl Fiber.parked_new (.inr (.inr callback)) (fun _ => by rintro ⟨⟩)
        (.inr ⟨rfl, .inr rfl⟩) (by rintro _ ⟨⟩)
    rwa [← cbFiber_setFiberOf s w w j .new, setCbFiber_cbFiber] at left

/-- A step of a worker that takes a fiber only if the others are done with it. -/
theorem ExclusiveInv.workerStep {s s' : Scheduler} {w : Nat} (inv : ExclusiveInv s)
    (bound : w < s.threads) (free : ∀ f ∈ s.takes w, s.Free f)
    (stepped : s.workerStep w = some s') : ExclusiveInv s' := by
  cases at_ : (s.workers w).pc with
  | top =>
    rw [Scheduler.workerStep, at_] at stepped
    cases stepped
    rw [dequeue]
    split
    next => exact inv.idly bound (by rw [at_]; rfl) rfl (by rintro _ ⟨⟩)
    next e left found =>
      -- an entry is taken: that its fiber is free is the condition on the run
      have took : ExclusiveInv (s.setPc w (.testTerm e)) := by
        apply inv.take bound at_ found
        intro f work
        apply free
        simp [takes, at_, found, work]
      obtain ⟨front, back, queue_eq, rfl, -⟩ := scan_some found
      refine took.of_same rfl rfl rfl rfl rfl fun x member => ?_
      change x ∈ s.queue
      rw [queue_eq]
      simp only [List.mem_append, List.mem_cons]
      exact (List.mem_append.mp member).imp_right .inr
  | testTerm e => exact inv.test bound at_ stepped
  | testExcept e f => exact inv.testExcept bound at_ stepped
  | drop entry st =>
    rw [Scheduler.workerStep, at_] at stepped
    cases stepped
    have moved : ExclusiveInv (s.setPc w .top) := inv.idly bound (by rw [at_]; rfl) rfl (by rintro _ ⟨⟩)
    exact moved.of_same rfl rfl rfl rfl rfl fun _ member => member
  | idleTest =>
    rw [Scheduler.workerStep, at_] at stepped
    dsimp only at stepped
    split at stepped
    next =>
      cases stepped
      exact inv.idly bound (by rw [at_]; rfl) rfl (by rintro _ ⟨⟩)
    next live =>
      cases stepped
      exact inv.begin_idle bound at_ live
  | swapAssert j => exact inv.swapIn bound (.inl at_) stepped
  | swapSet j => exact inv.swapIn bound (.inr (.inl at_)) stepped
  | swapLoad j => exact inv.swapIn bound (.inr (.inr at_)) stepped
  | running j =>
    rw [Scheduler.workerStep, at_] at stepped
    cases stepped
  | yieldAssert j st => exact inv.yield st bound (.inl at_) stepped
  | yieldWrite j st => exact inv.yield st bound (.inr (.inl at_)) stepped
  | swapOut j => exact inv.yield .hold bound (.inr (.inr at_)) stepped
  | decrement j => exact inv.returned bound (.inl at_) stepped
  | readReady j => exact inv.returned bound (.inr at_) stepped
  | reschedule j =>
    have moved : ExclusiveInv (s.setPc w .top) := inv.idly bound (by rw [at_]; rfl) rfl (by rintro _ ⟨⟩)
    rw [Scheduler.workerStep, at_] at stepped
    dsimp only at stepped
    split at stepped
    next f _ =>
      cases stepped
      -- `Schedule` behind the pass: the fiber was made, and the worker is done with it
      have pushed : ExclusiveInv ((s.setPc w .top).scheduleNoLock (some (.fiber f)) (-1)) := by
        apply moved.push
        rintro _ ⟨⟩
        exact inv.made.rescheduled w _ f at_ rfl
      exact pushed
    next f _ =>
      cases stepped
      have pushed : ExclusiveInv ((s.setPc w .top).scheduleNoLock (some (.fiber f)) (-1)) := by
        apply moved.push
        rintro _ ⟨⟩
        exact inv.made.rescheduled w _ f at_ rfl
      exact pushed
    next => cases stepped
  | readTerm j => exact inv.read bound (.inl at_) stepped
  | readExcept j => exact inv.read bound (.inr at_) stepped
  | setHold j => exact inv.settle bound (.inl at_) stepped
  | reset j => exact inv.settle bound (.inr at_) stepped
  | exited =>
    rw [Scheduler.workerStep, at_] at stepped
    cases stepped

/-- A step of the code of a fiber. -/
theorem ExclusiveInv.fiberStep {s s' : Scheduler} {w : Nat} {j : Job} {choice : Choice}
    (inv : ExclusiveInv s) (bound : w < s.threads) (at_ : (s.workers w).pc = .running j)
    (stepped : s.fiberStep w j choice = some s') : ExclusiveInv s' := by
  have exec : (s.fiberOf w j).state = .exec := inv.fits_at at_ rfl
  have job : (s.workers w).pc.job = some j := by rw [at_]; rfl
  -- while its own code runs the fiber is `kExec`, so every yield passes its assertion
  cases choice with
  | register =>
    cases j with
    | fiber f _ =>
      cases stepped
      exact inv.of_same rfl rfl rfl rfl rfl fun _ member => member
    | cb f _ =>
      cases stepped
      exact inv.of_same rfl rfl rfl rfl rfl fun _ member => member
    | idle => cases stepped
  | yieldToReady =>
    rw [Scheduler.fiberStep] at stepped
    split at stepped
    · cases stepped
    · cases stepped
      exact inv.move bound job rfl ⟨exec, by decide, fun _ => by decide⟩
  | yieldToHold =>
    rw [Scheduler.fiberStep] at stepped
    split at stepped
    · cases stepped
    · cases stepped
      exact inv.move bound job rfl ⟨exec, by decide, fun _ => by decide⟩
  | finish =>
    rw [Scheduler.fiberStep] at stepped
    split at stepped
    · cases stepped
    · cases stepped
      exact inv.move bound job rfl ⟨exec, by decide, fun _ => by decide⟩
  | throw =>
    rw [Scheduler.fiberStep] at stepped
    split at stepped
    · cases stepped
    next not_idle =>
      cases stepped
      exact inv.move bound job rfl ⟨exec, by decide, fun is_idle => absurd is_idle not_idle⟩
  | swapOut =>
    rw [Scheduler.fiberStep] at stepped
    split at stepped
    next is_idle =>
      cases stepped
      rw [Bool.and_eq_true] at is_idle
      exact inv.move bound job rfl (.inl is_idle.1)
    next => cases stepped

theorem step_exclusiveInv {s s' : Scheduler} {action : Action} (inv : ExclusiveInv s)
    (free : s.TakesFree action) (stepped : step s action = some s') : ExclusiveInv s' := by
  unfold step at stepped
  rw [if_neg (by simp [inv.no_fault])] at stepped
  cases action with
  | worker w =>
    dsimp only at stepped
    split at stepped
    next bound => exact inv.workerStep bound free stepped
    next => cases stepped
  | fiber w choice =>
    dsimp only at stepped
    split at stepped
    next bound =>
      split at stepped
      next j at_ => exact inv.fiberStep bound at_ stepped
      next => cases stepped
    next => cases stepped
  | makeFiber =>
    cases stepped
    exact inv.makeFiber
  | schedule items =>
    dsimp only at stepped
    split at stepped
    next known =>
      cases stepped
      exact inv.schedule items known
    next => cases stepped
  | setAutoStop =>
    cases stepped
    exact inv.of_same rfl rfl rfl rfl rfl fun _ member => member
  | setStopping =>
    cases stepped
    exact inv.of_same rfl rfl rfl rfl rfl fun _ member => member

theorem exclusiveInv_start (threads : Nat) : ExclusiveInv (start threads) := by
  constructor
  · rfl
  · constructor
    · rintro w k ⟨⟩
    · intro k _
      cases k <;> exact Fiber.parked_new
    · rintro v w k _ ⟨⟩
    · rintro w ⟨⟩
  · constructor
    · rintro w f ⟨⟩
    · rintro w f ⟨⟩
  · constructor
    · rintro w f ⟨⟩
    · rintro w f ⟨⟩
    · rintro e ⟨⟩
    · rintro w j f ⟨⟩
    · exact fun _ _ => rfl

theorem Pc.job_of_executing {pc : Pc} {j : Job} (executing : pc.executing = some j) :
    pc.job = some j := by
  cases pc <;> first | exact executing | cases executing

/-- The invariant gives exclusive execution: at most one of two workers with the same
fiber in their hands is past its tests. -/
theorem ExclusiveInv.exclusive {s : Scheduler} (inv : ExclusiveInv s) : Exclusive s := by
  constructor
  · exact inv.no_fault
  · intro v w f on_v on_w
    obtain ⟨i, exec_i, slot_i⟩ := Option.map_eq_some_iff.mp on_v
    obtain ⟨j, exec_j, slot_j⟩ := Option.map_eq_some_iff.mp on_w
    have job_i := Pc.job_of_executing exec_i
    have job_j := Pc.job_of_executing exec_j
    by_contra different
    have shared := inv.hands.shared v w (.user f) different
      (slot_i ▸ Pc.slot_of_job job_i v) (slot_j ▸ Pc.slot_of_job job_j w)
    rcases shared.2 with none_v | none_w
    · cases job_i.symm.trans none_v
    · cases job_j.symm.trans none_w
  · intro w j at_
    exact inv.fits_at at_ rfl

/-- **Exclusive execution**: for any number of workers and in any interleaving in which
every worker takes a fiber only after the others are done with it, no fiber is resumed
before its context has been saved, none executes on two workers, a fiber that executes
its own code is in state `kExec`, and the assertions hold. -/
theorem takes_free_exclusive (threads : Nat) (actions : List Action) (s : Scheduler)
    (steps : Run.Steps step TakesFree (start threads) actions s) : Exclusive s := by
  have inv : ExclusiveInv s :=
    steps.invariant (fun _ _ _ inv free stepped => step_exclusiveInv inv free stepped)
      (exclusiveInv_start threads)
  exact inv.exclusive

/-- A fiber registers itself, is woken up after its worker is done with it, and runs to
its end on a second worker. -/
theorem takes_free_exclusive_woken :
    ∃ s, Run.Steps step TakesFree (start 2)
        [.makeFiber, .schedule [(some (.fiber 0), -1)],
          .worker 0, .worker 0, .worker 0, .worker 0, .worker 0, .worker 0,
          .fiber 0 .register, .fiber 0 .yieldToHold, .worker 0, .worker 0, .worker 0, .worker 0,
          .worker 0, .worker 0, .worker 0, .worker 0, .schedule [(some (.fiber 0), -1)],
          .worker 1, .worker 1, .worker 1, .worker 1, .worker 1, .worker 1, .fiber 1 .finish] s ∧
      Exclusive s := by
  obtain ⟨s, steps⟩ := Run.Steps.of_admissible step TakesFree (start 2)
    [.makeFiber, .schedule [(some (.fiber 0), -1)],
      .worker 0, .worker 0, .worker 0, .worker 0, .worker 0, .worker 0,
      .fiber 0 .register, .fiber 0 .yieldToHold, .worker 0, .worker 0, .worker 0, .worker 0,
      .worker 0, .worker 0, .worker 0, .worker 0, .schedule [(some (.fiber 0), -1)],
      .worker 1, .worker 1, .worker 1, .worker 1, .worker 1, .worker 1, .fiber 1 .finish]
    (by decide)
  exact ⟨s, steps, takes_free_exclusive 2 _ s steps⟩

end ServerFrame.Scheduler
