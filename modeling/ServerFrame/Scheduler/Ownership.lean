import ServerFrame.Scheduler.Queue

/-!
# Fibers in the hands of workers

Which fiber a worker has in its hands at each point of `Run`, and what it relies on
there. A step of one worker keeps the fibers of the others apart if it changes only what
nobody else has in its hands.
-/
namespace ServerFrame.Scheduler

/-- A fiber as seen by the scheduler: one that can be scheduled, or the idle fiber of a
worker. -/
inductive Slot where
  | user (f : Nat)
  | idle (w : Nat)
  deriving DecidableEq

def Job.slot (w : Nat) : Job → Slot
  | .fiber f _ => .user f
  | .cb f _ => .user f
  | .idle => .idle w

/-- The fiber that runs a callback. -/
def Job.callback : Job → Option Nat
  | .cb f _ => some f
  | _ => none

/-- The job of the current pass, up to the last access to its fiber. -/
def Pc.job : Pc → Option Job
  | .swapAssert j => some j
  | .swapSet j => some j
  | .swapLoad j => some j
  | .running j => some j
  | .yieldAssert j _ => some j
  | .yieldWrite j _ => some j
  | .swapOut j => some j
  | .decrement j => some j
  | .readReady j => some j
  | .readTerm j => some j
  | .readExcept j => some j
  | .setHold j => some j
  | .reset j => some j
  | _ => none

/-- The fiber whose state a worker tests before it swaps it in. -/
def Pc.testing : Pc → Option Nat
  | .testTerm e =>
    match e.work with
    | .fiber f => some f
    | .cb _ => none
  | .testExcept _ f => some f
  | _ => none

/-- The fiber in the hands of worker `w`. -/
def Pc.slot (w : Nat) (pc : Pc) : Option Slot :=
  match pc.job with
  | some j => some (j.slot w)
  | none => pc.testing.map .user

def slotOf (s : Scheduler) (w : Nat) : Option Slot := (s.workers w).pc.slot w

def fiberAt (s : Scheduler) : Slot → Fiber
  | .user f => s.fibers f
  | .idle w => (s.workers w).idle

/-! ## The invariant -/

/-- Nobody is executing the fiber, and it can be resumed unless it has terminated. -/
def Fiber.Parked (x : Fiber) : Prop :=
  x.state ≠ .exec ∧ (x.saved = true ∨ x.state.terminated = true)

/-- The fiber can be resumed. -/
def Fiber.Ready (x : Fiber) : Prop :=
  x.state ≠ .exec ∧ x.state.terminated = false ∧ x.saved = true

theorem Fiber.parked_new : Fiber.new.Parked := ⟨by decide, .inl rfl⟩

theorem Fiber.ready_new : Fiber.new.Ready := ⟨by decide, rfl, rfl⟩

/-- What a worker at `pc` relies on in the fiber it has in its hands. `Idle` may give way
in state `kExec`. -/
def Pc.Fits (pc : Pc) (x : Fiber) : Prop :=
  match pc with
  | .testTerm _ => x.Parked
  | .testExcept _ _ => x.Parked ∧ x.state ≠ .term
  | .swapAssert _ => x.Ready
  | .swapSet _ => x.Ready
  | .swapLoad _ => x.state = .exec ∧ x.saved = true
  | .running _ => x.state = .exec
  | .yieldAssert j st => x.state = .exec ∧ st ≠ .exec ∧ (j.isIdle = true → st ≠ .except)
  | .yieldWrite j st => x.state = .exec ∧ st ≠ .exec ∧ (j.isIdle = true → st ≠ .except)
  | .swapOut j => j.isIdle = true ∨ x.state ≠ .exec
  | .decrement _ => x.Parked
  | .readReady _ => x.Parked
  | .readTerm j =>
    (j.isIdle = true ∨ x.state ≠ .exec) ∧ (x.saved = true ∨ x.state.terminated = true) ∧
      (j.callback.isSome = true → x.state ≠ .except)
  | .readExcept j =>
    (j.isIdle = true ∨ x.state ≠ .exec) ∧ (x.saved = true ∨ x.state.terminated = true) ∧
      (j.callback = none → x.state ≠ .term)
  | .setHold _ => x.state.terminated = false ∧ x.saved = true
  | .reset j => x.state.terminated = true ∧ j.callback ≠ none
  | _ => True

/-- The fibers are in the hands of the workers one at a time, but for terminated ones:
there a second worker may be testing the state. -/
structure Hands (s : Scheduler) : Prop where
  fits : ∀ w k, s.slotOf w = some k → (s.workers w).pc.Fits (s.fiberAt k)
  parked : ∀ k, (∀ w, s.slotOf w ≠ some k) → (s.fiberAt k).Parked
  shared : ∀ v w k, v ≠ w → s.slotOf v = some k → s.slotOf w = some k →
    (s.fiberAt k).state.terminated = true ∧
      ((s.workers v).pc.job = none ∨ (s.workers w).pc.job = none)
  idle : ∀ w, (s.workers w).idle.state ≠ .except

/-- The fiber that worker `w` keeps for callbacks is known to no other worker. -/
structure Keeps (s : Scheduler) (w f : Nat) : Prop where
  alone : ∀ v, v ≠ w → s.slotOf v ≠ some (.user f) ∧ (s.workers v).cbFiber ≠ some f
  used : ((s.workers w).pc.job.bind Job.callback) = some f ∨
    s.slotOf w ≠ some (.user f) ∧ (s.stateOf f).resettable = true

structure Callbacks (s : Scheduler) : Prop where
  keeps : ∀ w f, (s.workers w).cbFiber = some f → Keeps s w f
  kept : ∀ w f, (s.workers w).pc.job.bind Job.callback = some f → (s.workers w).cbFiber = some f

/-- Only fibers that have been made are in use, by workers that have been started. -/
structure Made (s : Scheduler) : Prop where
  held : ∀ w f, s.slotOf w = some (.user f) → f < s.fiberCount
  callback : ∀ w f, (s.workers w).cbFiber = some f → f < s.fiberCount
  queued : ∀ e ∈ s.queue, ∀ f, e.work = .fiber f → f < s.fiberCount
  rescheduled : ∀ w j f, (s.workers w).pc = .reschedule j → j.slot w = .user f → f < s.fiberCount
  unused : ∀ w, s.threads ≤ w → s.workers w = ⟨.top, none, .new⟩

structure ExclusiveInv (s : Scheduler) : Prop where
  no_fault : s.fault = none
  hands : Hands s
  callbacks : Callbacks s
  made : Made s

/-- What a worker that is only testing the state may see happen to its fiber. -/
def Fiber.Same (x y : Fiber) : Prop :=
  y.state = x.state ∧ (x.saved = true → y.saved = true)

theorem Fiber.Same.refl (x : Fiber) : x.Same x := ⟨rfl, id⟩

theorem Pc.Fits.mono {pc : Pc} {x y : Fiber} (fits : pc.Fits x) (same : x.Same y) : pc.Fits y := by
  obtain ⟨state, saved⟩ := same
  cases pc <;> simp only [Pc.Fits, Fiber.Parked, Fiber.Ready, state] at fits ⊢ <;> grind

/-- A step of worker `w` keeps the fibers apart if it changes only fibers that no other
worker has in its hands, leaves parked what it gives up, and takes nothing that another
worker is using. -/
theorem Hands.advance {s s' : Scheduler} {w : Nat} (inv : Hands s)
    (others : ∀ v, v ≠ w → s'.workers v = s.workers v)
    (change : ∀ k, (s.fiberAt k).Same (s'.fiberAt k) ∨ ∀ v, v ≠ w → s.slotOf v ≠ some k)
    (fits : ∀ k, s'.slotOf w = some k → (s'.workers w).pc.Fits (s'.fiberAt k))
    (alone : ∀ k v, v ≠ w → s'.slotOf w = some k → s.slotOf v = some k →
      (s.fiberAt k).state.terminated = true ∧
        ((s'.workers w).pc.job = none ∨ (s.workers v).pc.job = none))
    (left : ∀ k, s'.slotOf w ≠ some k → s.slotOf w = some k → (s'.fiberAt k).Parked)
    (made : ∀ k, s.slotOf w ≠ some k → s'.fiberAt k = s.fiberAt k ∨ (s'.fiberAt k).Parked)
    (idle : (s'.workers w).idle.state ≠ .except) : Hands s' := by
  have slot_eq : ∀ v, v ≠ w → s'.slotOf v = s.slotOf v := by
    intro v other
    rw [slotOf, slotOf, others v other]
  have same : ∀ v k, v ≠ w → s.slotOf v = some k → (s.fiberAt k).Same (s'.fiberAt k) := by
    intro v k other holds
    exact (change k).resolve_right fun nobody => nobody v other holds
  -- a fiber shared with `w`, seen from the other worker
  have with_w : ∀ v k, v ≠ w → s'.slotOf w = some k → s.slotOf v = some k →
      (s'.fiberAt k).state.terminated = true ∧
        ((s'.workers w).pc.job = none ∨ (s'.workers v).pc.job = none) := by
    intro v k other mine holds
    rw [(same v k other holds).1, others v other]
    exact alone k v other mine holds
  constructor
  · intro v k holds
    by_cases other : v = w
    · subst other
      exact fits k holds
    · rw [slot_eq v other] at holds
      rw [others v other]
      exact (inv.fits v k holds).mono (same v k other holds)
  · intro k nobody
    by_cases held : s.slotOf w = some k
    · exact left k (nobody w) held
    · rcases made k held with unchanged | parked
      · rw [unchanged]
        apply inv.parked
        intro v holds
        by_cases other : v = w
        · exact held (other ▸ holds)
        · exact nobody v (slot_eq v other ▸ holds)
      · exact parked
  · intro u v k different holds_u holds_v
    -- the worker that moved is the one, the other or neither
    by_cases u_other : u = w
    · subst u_other
      have v_other : v ≠ u := different.symm
      exact with_w v k v_other holds_u (slot_eq v v_other ▸ holds_v)
    · by_cases v_other : v = w
      · subst v_other
        have found := with_w u k u_other holds_v (slot_eq u u_other ▸ holds_u)
        exact ⟨found.1, found.2.symm⟩
      · rw [slot_eq u u_other] at holds_u
        rw [slot_eq v v_other] at holds_v
        rw [(same u k u_other holds_u).1, others u u_other, others v v_other]
        exact inv.shared u v k different holds_u holds_v
  · intro v
    by_cases other : v = w
    · exact other ▸ idle
    · rw [others v other]
      exact inv.idle v

/-- A step of worker `w` keeps the callback fibers apart. -/
theorem Callbacks.advance {s s' : Scheduler} {w : Nat} (inv : Callbacks s)
    (others : ∀ v, v ≠ w → s'.workers v = s.workers v)
    (change : ∀ f, s'.stateOf f = s.stateOf f ∨ ∀ v, v ≠ w → (s.workers v).cbFiber ≠ some f)
    (taken : ∀ f v, v ≠ w → s'.slotOf w = some (.user f) → (s.workers v).cbFiber ≠ some f)
    (alone : ∀ f v, v ≠ w → (s'.workers w).cbFiber = some f →
      s.slotOf v ≠ some (.user f) ∧ (s.workers v).cbFiber ≠ some f)
    (used : ∀ f, (s'.workers w).cbFiber = some f →
      (s'.workers w).pc.job.bind Job.callback = some f ∨
        s'.slotOf w ≠ some (.user f) ∧ (s'.stateOf f).resettable = true)
    (kept : ∀ f, (s'.workers w).pc.job.bind Job.callback = some f →
      (s'.workers w).cbFiber = some f) : Callbacks s' := by
  have slot_eq : ∀ v, v ≠ w → s'.slotOf v = s.slotOf v := by
    intro v other
    rw [slotOf, slotOf, others v other]
  constructor
  · intro v f keeping
    by_cases v_other : v = w
    · subst v_other
      refine ⟨fun u other => ?_, used f keeping⟩
      rw [slot_eq u other, others u other]
      exact alone f u other keeping
    · rw [others v v_other] at keeping
      have before := inv.keeps v f keeping
      constructor
      · intro u other
        -- what another worker keeps is not taken by the one that moved
        by_cases u_other : u = w
        · subst u_other
          refine ⟨fun holds => taken f v v_other holds keeping, fun both => ?_⟩
          exact (alone f v v_other both).2 keeping
        · rw [slot_eq u u_other, others u u_other]
          exact before.alone u other
      · rw [slot_eq v v_other, others v v_other,
          (change f).resolve_right fun nobody => nobody v v_other keeping]
        exact before.used
  · intro v f job
    by_cases v_other : v = w
    · subst v_other
      exact kept f job
    · rw [others v v_other] at job ⊢
      exact inv.kept v f job

/-! ## What the steps write -/

section Writes

variable (s : Scheduler) (w v : Nat)

@[simp] theorem slotOf_setPc (pc : Pc) : (s.setPc w pc).slotOf w = pc.slot w := by
  rw [slotOf, pc_setPc]

@[simp] theorem idle_setPc (pc : Pc) : ((s.setPc w pc).workers v).idle = (s.workers v).idle := by
  by_cases same : v = w
  · subst same
    simp [setPc]
  · rw [workers_setPc_of_ne _ _ _ _ same]

@[simp] theorem fiberAt_setPc (pc : Pc) (k : Slot) : (s.setPc w pc).fiberAt k = s.fiberAt k := by
  cases k with
  | user f => rfl
  | idle v => exact idle_setPc ..

@[simp] theorem idle_setCbFiber (g : Option Nat) :
    ((s.setCbFiber w g).workers v).idle = (s.workers v).idle := by
  by_cases same : v = w
  · subst same
    simp [setCbFiber]
  · rw [workers_setCbFiber_of_ne _ _ _ _ same]

@[simp] theorem fiberAt_setCbFiber (g : Option Nat) (k : Slot) :
    (s.setCbFiber w g).fiberAt k = s.fiberAt k := by
  cases k with
  | user f => rfl
  | idle v => exact idle_setCbFiber ..

@[simp] theorem cbFiber_setFiberOf (j : Job) (x : Fiber) :
    ((s.setFiberOf w j x).workers v).cbFiber = (s.workers v).cbFiber := by
  cases j with
  | fiber f _ => rfl
  | cb f _ => rfl
  | idle =>
    by_cases same : v = w
    · subst same
      simp [setFiberOf]
    · simp [setFiberOf, Function.update_of_ne same]

@[simp] theorem fiberAt_setFiberOf (j : Job) (x : Fiber) :
    (s.setFiberOf w j x).fiberAt (j.slot w) = x := by
  cases j <;> simp [setFiberOf, setFiber, fiberAt, Job.slot]

theorem fiberAt_setFiberOf_of_ne (j : Job) (x : Fiber) {k : Slot} (other : k ≠ j.slot w) :
    (s.setFiberOf w j x).fiberAt k = s.fiberAt k := by
  cases j <;> cases k <;> simp only [Job.slot, ne_eq, Slot.user.injEq, Slot.idle.injEq] at other <;>
    simp [setFiberOf, setFiber, fiberAt, Function.update_of_ne, other]

theorem fiberOf_eq (j : Job) : s.fiberOf w j = s.fiberAt (j.slot w) := by
  cases j <;> rfl

theorem setFiber_self {f : Nat} {x : Fiber} (is_x : s.fibers f = x) : s.setFiber f x = s := by
  rw [setFiber, ← is_x, Function.update_eq_self]

@[simp] theorem setFiberOf_fiberOf (j : Job) : s.setFiberOf w j (s.fiberOf w j) = s := by
  cases j <;> simp [setFiberOf, setFiber, fiberOf]

@[simp] theorem setCbFiber_cbFiber : s.setCbFiber w (s.workers w).cbFiber = s := by
  simp [setCbFiber]

theorem frame_setFiberOf (j : Job) (x : Fiber) :
    (s.setFiberOf w j x).fault = s.fault ∧ (s.setFiberOf w j x).threads = s.threads ∧
      (s.setFiberOf w j x).fiberCount = s.fiberCount ∧ (s.setFiberOf w j x).queue = s.queue := by
  cases j <;> exact ⟨rfl, rfl, rfl, rfl⟩

end Writes

theorem Job.slot_of_callback {j : Job} {f : Nat} (callback : j.callback = some f) (w : Nat) :
    j.slot w = .user f := by
  cases j with
  | cb g _ =>
    cases callback
    rfl
  | fiber g _ => cases callback
  | idle => cases callback

/-- Only the idle job has the slot of an idle fiber. -/
theorem Job.isIdle_of_slot {j : Job} {v w : Nat} (slot : j.slot v = .idle w) : j.isIdle = true := by
  cases j with
  | idle => rfl
  | fiber f _ => cases slot
  | cb f _ => cases slot

theorem Pc.slot_of_job {pc : Pc} {j : Job} (job : pc.job = some j) (w : Nat) :
    pc.slot w = some (j.slot w) := by
  simp only [Pc.slot, job]

/-- The invariant looks at the workers, the fibers and the queue only. -/
theorem ExclusiveInv.of_same {s s' : Scheduler} (inv : ExclusiveInv s) (fault_eq : s'.fault = s.fault)
    (workers_eq : s'.workers = s.workers) (fibers_eq : s'.fibers = s.fibers)
    (count_eq : s'.fiberCount = s.fiberCount) (threads_eq : s'.threads = s.threads)
    (queue_sub : ∀ e ∈ s'.queue, e ∈ s.queue) : ExclusiveInv s' := by
  obtain ⟨no_fault, ⟨fits, parked, shared, idle⟩, ⟨keeps, kept⟩, made⟩ := inv
  have slot_eq : s'.slotOf = s.slotOf := by
    funext w
    rw [slotOf, slotOf, workers_eq]
  have fiberAt_eq : s'.fiberAt = s.fiberAt := by
    funext k
    cases k with
    | user f => rw [fiberAt, fiberAt, fibers_eq]
    | idle w => rw [fiberAt, fiberAt, workers_eq]
  constructor
  · rw [fault_eq, no_fault]
  · constructor
    · rwa [slot_eq, fiberAt_eq, workers_eq]
    · rwa [slot_eq, fiberAt_eq]
    · rwa [slot_eq, fiberAt_eq, workers_eq]
    · rwa [workers_eq]
  · constructor
    · intro w f keeping
      rw [workers_eq] at keeping
      have before := keeps w f keeping
      constructor
      · rw [slot_eq, workers_eq]
        exact before.alone
      · rw [slot_eq, workers_eq, stateOf, fibers_eq]
        exact before.used
    · rwa [workers_eq]
  · constructor
    · rw [slot_eq, count_eq]
      exact made.held
    · rw [workers_eq, count_eq]
      exact made.callback
    · intro e member
      rw [count_eq]
      exact made.queued e (queue_sub e member)
    · rw [workers_eq, count_eq]
      exact made.rescheduled
    · rw [workers_eq, threads_eq]
      exact made.unused

/-- Nobody else has the fiber of a pass in its hands while it has not terminated, or
while it runs a callback. -/
theorem ExclusiveInv.unshared {s : Scheduler} {w : Nat} {j : Job} (inv : ExclusiveInv s)
    (job : (s.workers w).pc.job = some j)
    (live : (s.fiberOf w j).state.terminated = false ∨ j.callback ≠ none) :
    ∀ v, v ≠ w → s.slotOf v ≠ some (j.slot w) := by
  intro v other holds
  have mine : s.slotOf w = some (j.slot w) := Pc.slot_of_job job w
  rcases live with live | callback
  · rw [fiberOf_eq] at live
    rw [(inv.hands.shared v w _ other holds mine).1] at live
    cases live
  · obtain ⟨f, is_f⟩ := Option.ne_none_iff_exists'.mp callback
    have keeping := inv.callbacks.kept w f (by rw [job, Option.bind_some, is_f])
    exact ((inv.callbacks.keeps w f keeping).alone v other).1
      (Job.slot_of_callback is_f w ▸ holds)

/-- What a worker has in its hands, no other worker keeps for its callbacks. -/
theorem ExclusiveInv.not_kept {s : Scheduler} {w f : Nat} (inv : ExclusiveInv s)
    (holds : s.slotOf w = some (.user f)) : ∀ v, v ≠ w → (s.workers v).cbFiber ≠ some f := by
  intro v other keeping
  exact ((inv.callbacks.keeps v f keeping).alone w other.symm).1 holds

theorem Pc.job_of_slot {pc : Pc} {w : Nat} (slot : pc.slot w = none) : pc.job = none := by
  cases job : pc.job with
  | none => rfl
  | some j =>
    rw [Pc.slot_of_job job w] at slot
    cases slot

/-- A step of worker `w` that makes no fiber and adds no entry. -/
theorem Made.advance {s s' : Scheduler} {w : Nat} (inv : Made s) (bound : w < s.threads)
    (others : ∀ v, v ≠ w → s'.workers v = s.workers v)
    (count_eq : s'.fiberCount = s.fiberCount) (threads_eq : s'.threads = s.threads)
    (queue_eq : s'.queue = s.queue)
    (held : ∀ f, s'.slotOf w = some (.user f) → f < s.fiberCount)
    (callback : (s'.workers w).cbFiber = none ∨ (s'.workers w).cbFiber = (s.workers w).cbFiber)
    (rescheduled : ∀ j f, (s'.workers w).pc = .reschedule j → j.slot w = .user f →
      f < s.fiberCount) : Made s' := by
  constructor
  · intro v f holds
    rw [count_eq]
    by_cases other : v = w
    · exact held f (other ▸ holds)
    · rw [slotOf, others v other] at holds
      exact inv.held v f holds
  · intro v f keeping
    rw [count_eq]
    by_cases other : v = w
    · subst other
      rcases callback with none' | same
      · rw [none'] at keeping
        cases keeping
      · exact inv.callback v f (same ▸ keeping)
    · exact inv.callback v f (others v other ▸ keeping)
  · rw [queue_eq, count_eq]
    exact inv.queued
  · intro v j f at_ slot
    rw [count_eq]
    by_cases other : v = w
    · subst other
      exact rescheduled j f at_ slot
    · exact inv.rescheduled v j f (others v other ▸ at_) slot
  · intro v beyond
    rw [threads_eq] at beyond
    have other : v ≠ w := fun same => Nat.not_lt.mpr beyond (same ▸ bound)
    rw [others v other]
    exact inv.unused v beyond

end ServerFrame.Scheduler
