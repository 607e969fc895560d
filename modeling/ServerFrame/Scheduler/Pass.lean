import ServerFrame.Scheduler.Ownership

/-!
# The parts of a pass

One lemma for each kind of move in `Run`: a pass goes on, a pass is over, a worker moves
between passes, takes an entry, or starts its idle fiber or a callback.
-/
namespace ServerFrame.Scheduler

/-- No worker keeps `f` for its callbacks, and none has it in its hands unless it has
terminated. -/
def Free (s : Scheduler) (f : Nat) : Prop :=
  (∀ v < s.threads, (s.workers v).cbFiber ≠ some f) ∧
    ((s.stateOf f).terminated = true ∨ ∀ v < s.threads, s.slotOf v ≠ some (.user f))

instance (s : Scheduler) (f : Nat) : Decidable (s.Free f) := inferInstanceAs (Decidable (_ ∧ _))

section Written

variable {s s' : Scheduler} {w : Nat} {j : Job}

/-- A user fiber that is not the one of the pass keeps its state. -/
theorem stateOf_unchanged (unchanged : ∀ k, k ≠ j.slot w → s'.fiberAt k = s.fiberAt k) {f : Nat}
    (other : Slot.user f ≠ j.slot w) : s'.stateOf f = s.stateOf f := by
  have same := unchanged (.user f) other
  rw [fiberAt, fiberAt] at same
  exact congrArg Fiber.state same

/-- The idle fiber of the worker did not end in an exception before the pass, nor does it in it. -/
theorem ExclusiveInv.idle_written {x : Fiber} (inv : ExclusiveInv s)
    (unchanged : ∀ k, k ≠ j.slot w → s'.fiberAt k = s.fiberAt k)
    (here : s'.fiberAt (j.slot w) = x) (idle : j.isIdle = true → x.state ≠ .except) :
    (s'.workers w).idle.state ≠ .except := by
  by_cases is_idle : j.slot w = .idle w
  · have j_idle := Job.isIdle_of_slot is_idle
    have written := is_idle ▸ here
    rw [fiberAt] at written
    rw [written]
    exact idle j_idle
  · have same := unchanged (.idle w) (Ne.symm is_idle)
    rw [fiberAt, fiberAt] at same
    rw [same]
    exact inv.hands.idle w

/-- A fiber that another worker keeps for its callbacks is not the one of the pass. -/
theorem ExclusiveInv.kept_elsewhere (inv : ExclusiveInv s) (mine : s.slotOf w = some (j.slot w))
    (unchanged : ∀ k, k ≠ j.slot w → s'.fiberAt k = s.fiberAt k) (f : Nat) :
    s'.stateOf f = s.stateOf f ∨ ∀ v, v ≠ w → (s.workers v).cbFiber ≠ some f := by
  by_cases is_f : j.slot w = .user f
  · exact .inr (inv.not_kept (is_f ▸ mine))
  · exact .inl (stateOf_unchanged unchanged (Ne.symm is_f))

end Written

/-- The pass of worker `w` goes on: the worker alone writes to the fiber, or the write
does not matter to one that tests its state. -/
theorem ExclusiveInv.proceed {s : Scheduler} {w : Nat} {j : Job} {pc : Pc} {x : Fiber}
    (inv : ExclusiveInv s) (bound : w < s.threads) (job : (s.workers w).pc.job = some j)
    (job' : pc.job = some j) (fits : pc.Fits x)
    (change : (s.fiberOf w j).Same x ∨ (s.fiberOf w j).state.terminated = false)
    (idle : j.isIdle = true → x.state ≠ .except) :
    ExclusiveInv ((s.setFiberOf w j x).setPc w pc) := by
  have others : ∀ v, v ≠ w → ((s.setFiberOf w j x).setPc w pc).workers v = s.workers v := by
    intro v other
    rw [workers_setPc_of_ne _ _ _ _ other, workers_setFiberOf_of_ne _ _ _ _ _ other]
  have mine : s.slotOf w = some (j.slot w) := Pc.slot_of_job job w
  have mine' : ((s.setFiberOf w j x).setPc w pc).slotOf w = some (j.slot w) := by
    rw [slotOf_setPc, Pc.slot_of_job job' w]
  have unchanged : ∀ k, k ≠ j.slot w →
      ((s.setFiberOf w j x).setPc w pc).fiberAt k = s.fiberAt k := by
    intro k other
    rw [fiberAt_setPc, fiberAt_setFiberOf_of_ne _ _ _ _ other]
  have here : ((s.setFiberOf w j x).setPc w pc).fiberAt (j.slot w) = x := by
    rw [fiberAt_setPc, fiberAt_setFiberOf]
  obtain ⟨fault_eq, threads_eq, count_eq, queue_eq⟩ := s.frame_setFiberOf w j x
  constructor
  · exact fault_eq.trans inv.no_fault
  · apply inv.hands.advance others
    · intro k
      by_cases k_eq : k = j.slot w
      · subst k_eq
        rw [here, ← fiberOf_eq]
        exact change.imp_right fun live => inv.unshared job (.inl live)
      · rw [unchanged k k_eq]
        exact .inl (.refl _)
    · intro k holds
      cases mine'.symm.trans holds
      rw [here, pc_setPc]
      exact fits
    · intro k v other holds holds_v
      cases mine'.symm.trans holds
      obtain ⟨ended, none_v | none_w⟩ := inv.hands.shared v w _ other holds_v mine
      · exact ⟨ended, .inr none_v⟩
      · rw [job] at none_w
        cases none_w
    · intro k not_held held
      exact absurd (mine'.trans (mine.symm.trans held)) not_held
    · intro k other
      exact .inl (unchanged k fun same => other (same ▸ mine))
    · exact inv.idle_written unchanged here idle
  · apply inv.callbacks.advance others
    · exact inv.kept_elsewhere mine unchanged
    · intro f v other holds
      exact inv.not_kept (mine.trans (mine'.symm.trans holds)) v other
    · intro f v other keeping
      rw [cbFiber_setPc, cbFiber_setFiberOf] at keeping
      exact (inv.callbacks.keeps w f keeping).alone v other
    · intro f keeping
      rw [cbFiber_setPc, cbFiber_setFiberOf] at keeping
      rw [pc_setPc, job', mine', ← mine, ← job]
      -- the kept fiber runs in this pass, or nobody runs it and it may be reset
      rcases (inv.callbacks.keeps w f keeping).used with running | ⟨elsewhere, resettable⟩
      · exact .inl running
      · rw [stateOf_unchanged unchanged fun is_f => elsewhere (is_f ▸ mine)]
        exact .inr ⟨elsewhere, resettable⟩
    · intro f running
      rw [pc_setPc, job', ← job] at running
      rw [cbFiber_setPc, cbFiber_setFiberOf]
      exact inv.callbacks.kept w f running
  · apply inv.made.advance bound others count_eq threads_eq queue_eq
    · intro f holds
      exact inv.made.held w f (mine.trans (mine'.symm.trans holds))
    · rw [cbFiber_setPc, cbFiber_setFiberOf]
      exact .inr rfl
    · intro j' f at_ _
      rw [pc_setPc] at at_
      rw [at_] at job'
      cases job'

/-- The pass of worker `w` is over: the fiber is parked, and the worker forgets it unless
it can be reset. -/
theorem ExclusiveInv.leave {s : Scheduler} {w : Nat} {j : Job} {pc : Pc} {x : Fiber}
    {g : Option Nat} (inv : ExclusiveInv s) (bound : w < s.threads)
    (job : (s.workers w).pc.job = some j) (slot' : pc.slot w = none) (parked : x.Parked)
    (change : (s.fiberOf w j).Same x ∨ (s.fiberOf w j).state.terminated = false ∨
      j.callback ≠ none)
    (idle : j.isIdle = true → x.state ≠ .except)
    (callback : g = none ∨
      g = (s.workers w).cbFiber ∧ (j.callback = none ∨ x.state.resettable = true))
    (rescheduled : ∀ j', pc = .reschedule j' → j' = j) :
    ExclusiveInv (((s.setFiberOf w j x).setCbFiber w g).setPc w pc) := by
  have others : ∀ v, v ≠ w →
      (((s.setFiberOf w j x).setCbFiber w g).setPc w pc).workers v = s.workers v := by
    intro v other
    rw [workers_setPc_of_ne _ _ _ _ other, workers_setCbFiber_of_ne _ _ _ _ other,
      workers_setFiberOf_of_ne _ _ _ _ _ other]
  -- the fiber of the pass is let go: nobody has it in hands behind the step
  have mine : s.slotOf w = some (j.slot w) := Pc.slot_of_job job w
  have gone : (((s.setFiberOf w j x).setCbFiber w g).setPc w pc).slotOf w = none := by
    rw [slotOf_setPc, slot']
  have unchanged : ∀ k, k ≠ j.slot w →
      (((s.setFiberOf w j x).setCbFiber w g).setPc w pc).fiberAt k = s.fiberAt k := by
    intro k other
    rw [fiberAt_setPc, fiberAt_setCbFiber, fiberAt_setFiberOf_of_ne _ _ _ _ other]
  have here : (((s.setFiberOf w j x).setCbFiber w g).setPc w pc).fiberAt (j.slot w) = x := by
    rw [fiberAt_setPc, fiberAt_setCbFiber, fiberAt_setFiberOf]
  have keeping' : (((s.setFiberOf w j x).setCbFiber w g).setPc w pc |>.workers w).cbFiber = g := by
    rw [cbFiber_setPc, cbFiber_setCbFiber]
  -- what is still kept was kept before
  have kept : ∀ f, g = some f → (s.workers w).cbFiber = some f ∧
      (j.callback = none ∨ x.state.resettable = true) := by
    intro f is_f
    rcases callback with none' | ⟨same, reusable⟩
    · rw [none'] at is_f
      cases is_f
    · exact ⟨same ▸ is_f, reusable⟩
  obtain ⟨fault_eq, threads_eq, count_eq, queue_eq⟩ := s.frame_setFiberOf w j x
  constructor
  · exact fault_eq.trans inv.no_fault
  · apply inv.hands.advance others
    · intro k
      by_cases k_eq : k = j.slot w
      · subst k_eq
        rw [here, ← fiberOf_eq]
        exact change.imp_right fun live => inv.unshared job live
      · rw [unchanged k k_eq]
        exact .inl (.refl _)
    · intro k holds
      cases gone.symm.trans holds
    · intro k v _ holds
      cases gone.symm.trans holds
    · intro k _ held
      cases mine.symm.trans held
      rw [here]
      exact parked
    · intro k other
      exact .inl (unchanged k fun same => other (same ▸ mine))
    · exact inv.idle_written unchanged here idle
  · apply inv.callbacks.advance others
    · exact inv.kept_elsewhere mine unchanged
    · intro f v _ holds
      cases gone.symm.trans holds
    · intro f v other keeping
      exact (inv.callbacks.keeps w f (kept f (keeping' ▸ keeping)).1).alone v other
    · intro f keeping
      obtain ⟨before, reusable⟩ := kept f (keeping' ▸ keeping)
      rw [gone]
      refine .inr ⟨by rintro ⟨⟩, ?_⟩
      rcases (inv.callbacks.keeps w f before).used with running | ⟨elsewhere, resettable⟩
      · -- the pass ran a callback on the fiber that is kept
        rw [job, Option.bind_some] at running
        have written := Job.slot_of_callback running w ▸ here
        rw [fiberAt] at written
        rw [stateOf, written]
        exact reusable.resolve_left fun none' => Option.some_ne_none f (running.symm.trans none')
      · rw [stateOf_unchanged unchanged fun is_f => elsewhere (is_f ▸ mine)]
        exact resettable
    · -- no callback runs between passes
      intro f running
      rw [pc_setPc, Pc.job_of_slot slot'] at running
      cases running
  · apply inv.made.advance bound others count_eq threads_eq queue_eq
    · intro f holds
      cases gone.symm.trans holds
    · rw [keeping']
      exact callback.imp_right fun same => same.1
    · intro j' f at_ slot
      rw [pc_setPc] at at_
      cases rescheduled j' at_
      exact inv.made.held w f (slot ▸ mine)

/-- Worker `w` moves between two passes or while it tests a fiber. -/
theorem ExclusiveInv.goto {s : Scheduler} {w : Nat} {pc : Pc} (inv : ExclusiveInv s)
    (bound : w < s.threads) (job : (s.workers w).pc.job = none)
    (callback : pc.job.bind Job.callback = none)
    (fits : ∀ k, pc.slot w = some k → pc.Fits (s.fiberAt k))
    (alone : ∀ k v, v ≠ w → pc.slot w = some k → s.slotOf v = some k →
      (s.fiberAt k).state.terminated = true ∧ (pc.job = none ∨ (s.workers v).pc.job = none))
    (left : ∀ k, pc.slot w ≠ some k → s.slotOf w = some k → (s.fiberAt k).Parked)
    (taken : ∀ f v, pc.slot w = some (.user f) → (s.workers v).cbFiber ≠ some f)
    (made : ∀ f, pc.slot w = some (.user f) → f < s.fiberCount)
    (rescheduled : ∀ j, pc ≠ .reschedule j) : ExclusiveInv (s.setPc w pc) := by
  have others : ∀ v, v ≠ w → (s.setPc w pc).workers v = s.workers v :=
    fun v other => workers_setPc_of_ne _ _ _ _ other
  constructor
  · exact inv.no_fault
  · apply inv.hands.advance others
    · intro k
      rw [fiberAt_setPc]
      exact .inl (.refl _)
    · intro k holds
      rw [slotOf_setPc] at holds
      rw [pc_setPc, fiberAt_setPc]
      exact fits k holds
    · -- two workers may have the same fiber only when it is over for one of them
      intro k v other holds holds_v
      rw [slotOf_setPc] at holds
      rw [pc_setPc]
      exact alone k v other holds holds_v
    · intro k not_held held
      rw [slotOf_setPc] at not_held
      rw [fiberAt_setPc]
      exact left k not_held held
    · intro k _
      exact .inl (fiberAt_setPc ..)
    · rw [idle_setPc]
      exact inv.hands.idle w
  · apply inv.callbacks.advance others
    · intro f
      exact .inl rfl
    · intro f v _ holds
      rw [slotOf_setPc] at holds
      exact taken f v holds
    · intro f v other keeping
      rw [cbFiber_setPc] at keeping
      exact (inv.callbacks.keeps w f keeping).alone v other
    · intro f keeping
      rw [cbFiber_setPc] at keeping
      rcases (inv.callbacks.keeps w f keeping).used with running | ⟨_, resettable⟩
      · rw [job] at running
        cases running
      · rw [slotOf_setPc]
        exact .inr ⟨fun holds => taken f w holds keeping, resettable⟩
    · intro f running
      rw [pc_setPc, callback] at running
      cases running
  · apply inv.made.advance bound others rfl rfl rfl
    · intro f holds
      rw [slotOf_setPc] at holds
      exact made f holds
    · exact .inr (cbFiber_setPc ..)
    · intro j f at_ _
      rw [pc_setPc] at at_
      exact absurd at_ (rescheduled j)

/-- What is being tested is parked. -/
theorem Pc.Fits.parked {pc : Pc} {x : Fiber} {w : Nat} {k : Slot} (fits : pc.Fits x)
    (job : pc.job = none) (slot : pc.slot w = some k) : x.Parked := by
  rw [Pc.slot, job] at slot
  cases pc with
  | testTerm e => exact fits
  | testExcept e f => exact fits.1
  | _ => simp_all [Pc.job, Pc.testing]

/-- Worker `w` has nothing in its hands afterwards. -/
theorem ExclusiveInv.idly {s : Scheduler} {w : Nat} {pc : Pc} (inv : ExclusiveInv s)
    (bound : w < s.threads) (job : (s.workers w).pc.job = none) (slot : pc.slot w = none)
    (rescheduled : ∀ j, pc ≠ .reschedule j) : ExclusiveInv (s.setPc w pc) := by
  apply inv.goto bound job (by rw [Pc.job_of_slot slot]; rfl)
  · intro k holds
    cases slot.symm.trans holds
  · intro k v _ holds
    cases slot.symm.trans holds
  · intro k _ held
    exact (inv.hands.fits w k held).parked job held
  · intro f v holds
    cases slot.symm.trans holds
  · intro f holds
    cases slot.symm.trans holds
  · exact rescheduled

/-- Worker `w` keeps the fiber it tests in its hands. A pass begins only if the fiber has
not terminated. -/
theorem ExclusiveInv.go_on {s : Scheduler} {w f : Nat} {pc : Pc} (inv : ExclusiveInv s)
    (bound : w < s.threads) (job : (s.workers w).pc.job = none)
    (held : s.slotOf w = some (.user f)) (slot : pc.slot w = some (.user f))
    (callback : pc.job.bind Job.callback = none) (fits : pc.Fits (s.fibers f))
    (begins : pc.job = none ∨ (s.stateOf f).terminated = false) : ExclusiveInv (s.setPc w pc) := by
  have not_reschedule : ∀ j, pc ≠ .reschedule j := by
    rintro j rfl
    cases slot
  have nowhere : ∀ v, (s.workers v).cbFiber ≠ some f := by
    intro v keeping
    by_cases other : v = w
    · subst other
      rcases (inv.callbacks.keeps v f keeping).used with running | ⟨elsewhere, _⟩
      · rw [job] at running
        cases running
      · exact elsewhere held
    · exact inv.not_kept held v other keeping
  apply inv.goto bound job callback
  · intro k holds
    cases slot.symm.trans holds
    exact fits
  · intro k v other holds holds_v
    cases slot.symm.trans holds
    have ended := (inv.hands.shared v w _ other holds_v held).1
    refine ⟨ended, .inl (begins.resolve_right fun live => ?_)⟩
    exact Bool.false_ne_true (live.symm.trans ended)
  · intro k not_held held'
    exact absurd (slot.trans (held.symm.trans held')) not_held
  · intro g v holds
    cases slot.symm.trans holds
    exact nowhere v
  · intro g holds
    cases slot.symm.trans holds
    exact inv.made.held w f held
  · exact not_reschedule

/-- The fiber of an entry that the locked block takes is not executing. -/
theorem parked_of_taken {s : Scheduler} {w f : Nat} {e : Entry} (inv : ExclusiveInv s)
    (work : e.work = .fiber f) (taken : skips s.fibers w e = false)
    (free : (s.stateOf f).terminated = true ∨ ∀ v < s.threads, s.slotOf v ≠ some (.user f)) :
    (s.fibers f).Parked := by
  have not_exec : (s.fibers f).state ≠ .exec := by
    have state := state_of_taken taken
    rw [entryState, work] at state
    exact fun is_exec => state (congrArg some is_exec)
  rcases free with ended | nobody
  · exact ⟨not_exec, .inr ended⟩
  · apply inv.hands.parked (.user f)
    intro v holds
    by_cases bound : v < s.threads
    · exact nobody v bound holds
    · rw [slotOf, inv.made.unused v (Nat.not_lt.mp bound)] at holds
      cases holds

/-- The locked block takes an entry of a fiber that the other workers are done with. -/
theorem ExclusiveInv.take {s : Scheduler} {w : Nat} {e : Entry} {left : List Entry}
    (inv : ExclusiveInv s) (bound : w < s.threads) (at_ : (s.workers w).pc = .top)
    (found : scan s.fibers w s.queue = some (e, left))
    (free : ∀ f, e.work = .fiber f → s.Free f) : ExclusiveInv (s.setPc w (.testTerm e)) := by
  have job : (s.workers w).pc.job = none := by rw [at_]; rfl
  obtain ⟨before, after, queue_eq, -, -, taken⟩ := scan_some found
  cases work : e.work with
  | cb id =>
    exact inv.idly bound job (by simp [Pc.slot, Pc.job, Pc.testing, work]) (by rintro _ ⟨⟩)
  | fiber f =>
    have slot : (Pc.testTerm e).slot w = some (.user f) := by
      simp [Pc.slot, Pc.job, Pc.testing, work]
    obtain ⟨unkept, ended_or_free⟩ := free f work
    have parked := parked_of_taken inv work taken ended_or_free
    apply inv.goto bound job rfl
    · intro k holds
      cases slot.symm.trans holds
      exact parked
    · intro k v other holds holds_v
      cases slot.symm.trans holds
      rcases ended_or_free with ended | nobody
      · exact ⟨ended, .inl rfl⟩
      · by_cases v_bound : v < s.threads
        · exact absurd holds_v (nobody v v_bound)
        · rw [slotOf, inv.made.unused v (Nat.not_lt.mp v_bound)] at holds_v
          cases holds_v
    · intro k _ held
      rw [slotOf, at_] at held
      cases held
    · intro g v holds
      cases slot.symm.trans holds
      by_cases v_bound : v < s.threads
      · exact unkept v v_bound
      · rw [inv.made.unused v (Nat.not_lt.mp v_bound)]
        exact Option.some_ne_none f ∘ Eq.symm
    · intro g holds
      cases slot.symm.trans holds
      exact inv.made.queued e (by simp [queue_eq]) f work
    · rintro _ ⟨⟩

theorem eq_of_slot_idle {s : Scheduler} {v w : Nat} (holds : s.slotOf v = some (.idle w)) : v = w := by
  rw [slotOf, Pc.slot] at holds
  split at holds
  next j _ =>
    cases j with
    | fiber f _ => cases holds
    | cb f _ => cases holds
    | idle =>
      cases holds
      rfl
  next =>
    cases tested : (s.workers v).pc.testing with
    | none =>
      rw [tested] at holds
      cases holds
    | some f =>
      rw [tested] at holds
      cases holds

/-- There is nothing to do, and the idle fiber has not ended. -/
theorem ExclusiveInv.begin_idle {s : Scheduler} {w : Nat} (inv : ExclusiveInv s)
    (bound : w < s.threads) (at_ : (s.workers w).pc = .idleTest)
    (live : (s.workers w).idle.state ≠ .term) : ExclusiveInv (s.setPc w (.swapAssert .idle)) := by
  have parked : (s.fiberAt (.idle w)).Parked := by
    apply inv.hands.parked
    intro v holds
    cases eq_of_slot_idle holds
    rw [slotOf, at_] at holds
    cases holds
  have not_except := inv.hands.idle w
  apply inv.goto bound (by rw [at_]; rfl) rfl
  · rintro k ⟨⟩
    obtain ⟨not_exec, saved⟩ := parked
    have alive : (s.workers w).idle.state.terminated = false := by
      cases state : (s.workers w).idle.state <;> first | rfl | exact absurd state ‹_›
    refine ⟨not_exec, alive, saved.resolve_right fun ended => ?_⟩
    exact Bool.false_ne_true (alive.symm.trans ended)
  · rintro k v other ⟨⟩ holds_v
    exact absurd (eq_of_slot_idle holds_v) other
  · intro k _ held
    rw [slotOf, at_] at held
    cases held
  · rintro f v ⟨⟩
  · rintro f ⟨⟩
  · rintro j ⟨⟩

/-- A new fiber is known to nobody. -/
theorem ExclusiveInv.makeFiber {s : Scheduler} (inv : ExclusiveInv s) :
    ExclusiveInv ({ s with fiberCount := s.fiberCount + 1 }.setFiber s.fiberCount .new) := by
  have unheld : ∀ w, s.slotOf w ≠ some (.user s.fiberCount) :=
    fun w holds => Nat.lt_irrefl _ (inv.made.held w _ holds)
  have unkept : ∀ w, (s.workers w).cbFiber ≠ some s.fiberCount :=
    fun w keeping => Nat.lt_irrefl _ (inv.made.callback w _ keeping)
  have unchanged : ∀ f, f ≠ s.fiberCount →
      ({ s with fiberCount := s.fiberCount + 1 }.setFiber s.fiberCount .new).fibers f =
        s.fibers f :=
    fun f other => Function.update_of_ne other _ _
  have at_eq : ∀ k, k ≠ .user s.fiberCount →
      ({ s with fiberCount := s.fiberCount + 1 }.setFiber s.fiberCount .new).fiberAt k =
        s.fiberAt k := by
    intro k other
    cases k with
    | user f => exact unchanged f fun same => other (same ▸ rfl)
    | idle w => rfl
  constructor
  · exact inv.no_fault
  · constructor
    · intro w k holds
      rw [at_eq k fun same => unheld w (same ▸ holds)]
      exact inv.hands.fits w k holds
    · intro k nobody
      by_cases is_new : k = .user s.fiberCount
      · subst is_new
        have is_new : ({ s with fiberCount := s.fiberCount + 1 }.setFiber s.fiberCount
            .new).fiberAt (.user s.fiberCount) = .new := Function.update_self ..
        rw [is_new]
        exact Fiber.parked_new
      · rw [at_eq k is_new]
        exact inv.hands.parked k nobody
    · intro v w k different holds_v holds_w
      rw [at_eq k fun same => unheld v (same ▸ holds_v)]
      exact inv.hands.shared v w k different holds_v holds_w
    · exact inv.hands.idle
  · constructor
    · intro w f keeping
      have before := inv.callbacks.keeps w f keeping
      refine ⟨before.alone, ?_⟩
      rw [stateOf, unchanged f fun same => unkept w (same ▸ keeping)]
      exact before.used
    · exact inv.callbacks.kept
  · constructor
    · exact fun w f holds => Nat.lt_succ_of_lt (inv.made.held w f holds)
    · exact fun w f keeping => Nat.lt_succ_of_lt (inv.made.callback w f keeping)
    · exact fun e member f work => Nat.lt_succ_of_lt (inv.made.queued e member f work)
    · exact fun w j f at_ slot => Nat.lt_succ_of_lt (inv.made.rescheduled w j f at_ slot)
    · exact inv.made.unused

/-- Worker `w` keeps a fiber that nobody knows for its callbacks. -/
theorem ExclusiveInv.adopt {s : Scheduler} {w f : Nat} (inv : ExclusiveInv s)
    (bound : w < s.threads) (job : (s.workers w).pc.job = none) (made : f < s.fiberCount)
    (unheld : ∀ v, s.slotOf v ≠ some (.user f)) (unkept : ∀ v, (s.workers v).cbFiber ≠ some f)
    (resettable : (s.stateOf f).resettable = true) :
    ExclusiveInv (s.setCbFiber w (some f)) := by
  have others : ∀ v, v ≠ w → (s.setCbFiber w (some f)).workers v = s.workers v :=
    fun v other => workers_setCbFiber_of_ne _ _ _ _ other
  have slot_eq : ∀ v, (s.setCbFiber w (some f)).slotOf v = s.slotOf v := by
    intro v
    rw [slotOf, slotOf, pc_setCbFiber]
  -- only `cb_fiber` of `w` is another: no fiber changes and nobody gains or loses one
  constructor
  · exact inv.no_fault
  · apply inv.hands.advance others
    · intro k
      rw [fiberAt_setCbFiber]
      exact .inl (.refl _)
    · intro k holds
      rw [slot_eq] at holds
      rw [pc_setCbFiber, fiberAt_setCbFiber]
      exact inv.hands.fits w k holds
    · intro k v other holds holds_v
      rw [slot_eq] at holds
      rw [pc_setCbFiber]
      exact inv.hands.shared w v k other.symm holds holds_v
    · intro k not_held held
      exact absurd ((slot_eq w).trans held) not_held
    · intro k _
      exact .inl (fiberAt_setCbFiber ..)
    · rw [idle_setCbFiber]
      exact inv.hands.idle w
  · apply inv.callbacks.advance others
    · exact fun g => .inl rfl
    · intro g v other holds
      rw [slot_eq] at holds
      exact inv.not_kept holds v other
    · intro g v _ keeping
      rw [cbFiber_setCbFiber] at keeping
      cases keeping
      exact ⟨unheld v, unkept v⟩
    · intro g keeping
      rw [cbFiber_setCbFiber] at keeping
      cases keeping
      rw [slot_eq]
      exact .inr ⟨unheld w, resettable⟩
    · intro g running
      rw [pc_setCbFiber, job] at running
      cases running
  · constructor
    · intro v g holds
      exact inv.made.held v g (slot_eq v ▸ holds)
    · intro v g keeping
      by_cases other : v = w
      · subst other
        rw [cbFiber_setCbFiber] at keeping
        cases keeping
        exact made
      · exact inv.made.callback v g (others v other ▸ keeping)
    · exact inv.made.queued
    · intro v j g at_ slot
      rw [pc_setCbFiber] at at_
      exact inv.made.rescheduled v j g at_ slot
    · intro v beyond
      have other : v ≠ w := fun same => Nat.not_lt.mpr beyond (same ▸ bound)
      rw [others v other]
      exact inv.made.unused v beyond

/-- A callback starts on the fiber that worker `w` keeps. -/
theorem ExclusiveInv.begin_callback {s : Scheduler} {w f : Nat} (entry : Nat)
    (inv : ExclusiveInv s) (bound : w < s.threads) (free : s.slotOf w = none)
    (keeping : (s.workers w).cbFiber = some f) :
    ExclusiveInv ((s.setFiber f .new).setPc w (.swapAssert (.cb f entry))) := by
  have others : ∀ v, v ≠ w →
      ((s.setFiber f .new).setPc w (.swapAssert (.cb f entry))).workers v = s.workers v :=
    fun v other => workers_setPc_of_ne _ _ _ _ other
  -- `Reset` starts the kept fiber anew; no other worker has it
  have alone := (inv.callbacks.keeps w f keeping).alone
  have unchanged : ∀ k, k ≠ .user f →
      ((s.setFiber f .new).setPc w (.swapAssert (.cb f entry))).fiberAt k = s.fiberAt k := by
    intro k other
    rw [fiberAt_setPc]
    exact fiberAt_setFiberOf_of_ne s w (.cb f entry) .new other
  have here : ((s.setFiber f .new).setPc w (.swapAssert (.cb f entry))).fiberAt (.user f) = .new := by
    rw [fiberAt_setPc]
    exact fiberAt_setFiberOf s w (.cb f entry) .new
  constructor
  · exact inv.no_fault
  · apply inv.hands.advance others
    · intro k
      by_cases is_f : k = .user f
      · subst is_f
        exact .inr fun v other => (alone v other).1
      · rw [unchanged k is_f]
        exact .inl (.refl _)
    · intro k holds
      rw [slotOf_setPc] at holds
      cases holds
      rw [pc_setPc]
      exact here.symm ▸ Fiber.ready_new
    · intro k v other holds holds_v
      rw [slotOf_setPc] at holds
      cases holds
      exact absurd holds_v (alone v other).1
    · intro k _ held
      rw [free] at held
      cases held
    · intro k _
      by_cases is_f : k = .user f
      · subst is_f
        rw [here]
        exact .inr Fiber.parked_new
      · exact .inl (unchanged k is_f)
    · rw [idle_setPc]
      exact inv.hands.idle w
  · apply inv.callbacks.advance others
    · intro g
      by_cases is_f : g = f
      · subst is_f
        exact .inr fun v other => (alone v other).2
      · have same := unchanged (.user g) fun eq => is_f (Slot.user.inj eq)
        rw [fiberAt, fiberAt] at same
        exact .inl (congrArg Fiber.state same)
    · intro g v other holds
      rw [slotOf_setPc] at holds
      cases holds
      exact (alone v other).2
    · intro g v other keeping'
      rw [cbFiber_setPc] at keeping'
      cases keeping.symm.trans keeping'
      exact alone v other
    · intro g keeping'
      rw [cbFiber_setPc] at keeping'
      cases keeping.symm.trans keeping'
      rw [pc_setPc]
      exact .inl rfl
    · intro g running
      rw [pc_setPc] at running
      cases running
      rw [cbFiber_setPc]
      exact keeping
  · apply inv.made.advance bound others rfl rfl rfl
    · intro g holds
      rw [slotOf_setPc] at holds
      cases holds
      exact inv.made.callback w f keeping
    · exact .inr (cbFiber_setPc ..)
    · intro j g at_
      rw [pc_setPc] at at_
      cases at_

theorem ExclusiveInv.prepare {s : Scheduler} {w entry : Nat} (inv : ExclusiveInv s)
    (bound : w < s.threads) (free : s.slotOf w = none) : ExclusiveInv (s.prepare w entry) := by
  have job := Pc.job_of_slot free
  rw [Scheduler.prepare]
  split
  next f keeping =>
    have resettable : (s.stateOf f).resettable = true := by
      rcases (inv.callbacks.keeps w f keeping).used with running | ⟨_, resettable⟩
      · rw [job] at running
        cases running
      · exact resettable
    rw [if_pos resettable]
    exact inv.begin_callback entry bound free keeping
  next =>
    -- the new fiber is made, kept, and started, one after the other
    have new_state : ({ s with fiberCount := s.fiberCount + 1 }.setFiber s.fiberCount
        .new).fibers s.fiberCount = .new := Function.update_self ..
    have adopted := inv.makeFiber.adopt (w := w) (f := s.fiberCount) bound job (Nat.lt_succ_self _)
      (fun v holds => Nat.lt_irrefl _ (inv.made.held v _ holds))
      (fun v keeping => Nat.lt_irrefl _ (inv.made.callback v _ keeping))
      (by rw [stateOf, new_state]; rfl)
    have started := adopted.begin_callback entry bound
      (by rw [slotOf, pc_setCbFiber]; exact free) (cbFiber_setCbFiber ..)
    have same := setFiber_self (setCbFiber (setFiber { s with fiberCount := s.fiberCount + 1 }
      s.fiberCount .new) w (some s.fiberCount)) new_state
    rw [same] at started
    exact started

/-- Only fibers that have been made are scheduled. -/
theorem ExclusiveInv.push {s : Scheduler} {work : Option Work} (inv : ExclusiveInv s) (thread : Int)
    (made : ∀ f, work = some (.fiber f) → f < s.fiberCount) :
    ExclusiveInv (s.scheduleNoLock work thread) := by
  cases work with
  | none => exact inv
  | some work =>
    obtain ⟨no_fault, ⟨fits, parked, shared, idle⟩, ⟨keeps, kept⟩, old⟩ := inv
    refine ⟨no_fault, ⟨fits, parked, shared, idle⟩, ⟨?_, kept⟩,
      ⟨old.held, old.callback, ?_, old.rescheduled, old.unused⟩⟩
    · intro w f keeping
      exact ⟨(keeps w f keeping).alone, (keeps w f keeping).used⟩
    · intro e member f is_f
      rcases List.mem_append.mp member with member | member
      · exact old.queued e member f is_f
      · cases List.mem_singleton.mp member
        exact made f (congrArg some is_f)

theorem ExclusiveInv.schedule {s : Scheduler} (inv : ExclusiveInv s)
    (items : List (Option Work × Int)) (known : items.all s.knows = true) :
    ExclusiveInv (s.schedule items) := by
  induction items generalizing s with
  | nil => exact inv
  | cons item items ih =>
    obtain ⟨work, thread⟩ := item
    rw [List.all_cons, Bool.and_eq_true] at known
    rw [Scheduler.schedule]
    apply ih
    · apply inv.push
      rintro f rfl
      simpa [knows] using known.1
    · -- scheduling makes no fiber
      have count_eq : (s.scheduleNoLock work thread).fiberCount = s.fiberCount := by
        cases work <;> rfl
      have knows_eq : (s.scheduleNoLock work thread).knows = s.knows := by
        funext item
        simp only [knows, count_eq]
      rw [knows_eq]
      exact known.2

end ServerFrame.Scheduler
