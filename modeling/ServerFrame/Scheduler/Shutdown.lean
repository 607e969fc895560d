import ServerFrame.Scheduler.PutBack

/-!
# Shutdown

`Stopping()` looks at the queue and at `active_thread_count_`. A worker whose fiber has
yielded with `kReady` takes itself off that count before it puts the fiber back, so for
a moment the fiber is in neither of them. A run is safe in which `Stop` comes when no fiber is on
its way back, and no fiber sets out on it later.
-/
namespace ServerFrame.Scheduler

/-- Worker `w` has taken itself off the count and still has to put a fiber back that
yielded with `kReady`. -/
def waiting (s : Scheduler) (w : Nat) : Bool :=
  match (s.workers w).pc with
  | .readReady j => (s.fiberOf w j).state == .ready
  | .reschedule _ => true
  | _ => false

/-- No accepted task is runnable: none is queued, no worker has one in its hands, and
none is about to be put back. -/
structure Quiescent (s : Scheduler) : Prop where
  queue_empty : s.queue = []
  none_running : ∀ w < s.threads, (s.workers w).pc.entry = none
  none_waiting : ∀ w < s.threads, s.waiting w = false

theorem isStopping_iff (s : Scheduler) :
    s.isStopping = true ↔
      s.autoStop = true ∧ s.stopping = true ∧ s.queue = [] ∧ s.activeThreadCount = 0 := by
  simp [isStopping, and_assoc]

/-- A zero count means that no worker holds an entry. -/
theorem QueueInv.entry_none {s : Scheduler} (inv : QueueInv s) (zero : s.activeThreadCount = 0)
    {w : Nat} (bound : w < s.threads) : (s.workers w).pc.entry = none := by
  have nothing : s.held = [] := List.eq_nil_of_length_eq_zero (by rw [← inv.active_eq, zero])
  rw [held, List.filterMap_eq_nil_iff] at nothing
  exact nothing w (List.mem_range.mpr bound)

/-- `Stop` sets the second of its flags when no fiber is on its way back to the queue, and no fiber
calls `YieldToReady` when both are set. -/
def StopsQuietly (s : Scheduler) : Action → Prop
  | .setAutoStop => s.stopping = true → ∀ w < s.threads, s.putsBack w = false
  | .setStopping => s.autoStop = true → ∀ w < s.threads, s.putsBack w = false
  | .fiber _ .yieldToReady => ¬ (s.autoStop = true ∧ s.stopping = true)
  | _ => True

instance (s : Scheduler) : DecidablePred s.StopsQuietly
  | .setAutoStop => inferInstanceAs (Decidable (s.stopping = true → ∀ w < s.threads, s.putsBack w = false))
  | .setStopping => inferInstanceAs (Decidable (s.autoStop = true → ∀ w < s.threads, s.putsBack w = false))
  | .fiber _ .yieldToReady => inferInstanceAs (Decidable (¬ (s.autoStop = true ∧ s.stopping = true)))
  | .worker _ => .isTrue trivial
  | .makeFiber => .isTrue trivial
  | .schedule _ => .isTrue trivial
  | .fiber _ .register => .isTrue trivial
  | .fiber _ .yieldToHold => .isTrue trivial
  | .fiber _ .finish => .isTrue trivial
  | .fiber _ .throw => .isTrue trivial
  | .fiber _ .swapOut => .isTrue trivial

/-- Behind `Stop` no fiber is on its way back. -/
structure Settled (s : Scheduler) : Prop where
  quiet : s.autoStop = true → s.stopping = true → ∀ w < s.threads, ∀ f, s.returns w f = false
  /-- The idle fiber is neither counted nor put back. -/
  reads : ∀ w j, (s.workers w).pc = .readReady j ∨ (s.workers w).pc = .reschedule j → j.isIdle = false

theorem settled_start (threads : Nat) : Settled (start threads) :=
  ⟨nofun, fun w j is => by rcases is with is | is <;> cases is⟩

section Steps

variable {s s' : Scheduler} {w : Nat}

theorem Settled.waiting (settled : Settled s) (waits : s.waiting w = true) :
    ∃ f, s.returns w f = true := by
  unfold Scheduler.waiting at waits
  split at waits
  next j at_ =>
    cases j with
    | idle => exact absurd (settled.reads w .idle (.inl at_)) (by decide)
    | fiber f entry | cb f entry =>
      rw [beq_iff_eq, stateOf_fiberOf rfl] at waits
      exact ⟨f, by simp [returns, at_, Pc.returns, Job.user, waits]⟩
  next j at_ =>
    cases j with
    | idle => exact absurd (settled.reads w .idle (.inr at_)) (by decide)
    | fiber f entry | cb f entry => exact ⟨f, by simp [returns, at_, Pc.returns, Job.user]⟩
  next => cases waits

theorem Settled.worker (settled : Settled s) (bound : w < s.threads) (moves : Moves s w s') :
    Settled s' := by
  refine ⟨fun auto stopping v inside f => ?_, fun v j is => ?_⟩
  · rw [moves.flags.1] at auto
    rw [moves.flags.2] at stopping
    rw [moves.threads_eq] at inside
    rw [Bool.eq_false_iff]
    intro back
    rcases moves.returned back with was | was
    · rw [settled.quiet auto stopping v inside f] at was
      cases was
    · rw [settled.quiet auto stopping w bound f] at was
      cases was
  · by_cases same : v = w
    · subst same
      rcases moves.reads j is with was | was | busy
      · exact settled.reads v j (.inl was)
      · exact settled.reads v j (.inr was)
      · exact busy
    · rw [moves.others v same] at is
      exact settled.reads v j is

theorem Settled.fiber (settled : Settled s) {j : Job} {choice : Choice}
    (quietly : s.StopsQuietly (.fiber w choice)) (acts : Acts s w j choice s') : Settled s' := by
  refine ⟨fun auto stopping v inside f => ?_, fun v k is => ?_⟩
  · rw [acts.flags.1] at auto
    rw [acts.flags.2] at stopping
    rw [acts.threads_eq] at inside
    rw [Bool.eq_false_iff]
    intro back
    rcases acts.returned back with was | ⟨rfl, -⟩
    · rw [settled.quiet auto stopping v inside f] at was
      cases was
    · exact quietly ⟨auto, stopping⟩
  · by_cases same : v = w
    · subst same
      rcases is with is | is
      · exact absurd is (acts.reads k).1
      · exact absurd is (acts.reads k).2
    · rw [acts.others v same] at is
      exact settled.reads v k is

/-- What neither sets a flag nor moves a worker. -/
theorem Settled.of_same (settled : Settled s) (flags : s'.autoStop = s.autoStop ∧ s'.stopping = s.stopping)
    (threads : s'.threads = s.threads) (workers : s'.workers = s.workers)
    (ready : ∀ f, s'.stateOf f = .ready → s.stateOf f = .ready) : Settled s' := by
  refine ⟨fun auto stopping v inside f => ?_, fun v j is => settled.reads v j (workers ▸ is)⟩
  rw [flags.1] at auto
  rw [flags.2] at stopping
  rw [threads] at inside
  rw [Bool.eq_false_iff]
  intro back
  have was : s.returns v f = true := by
    rw [returns, workers] at back
    exact Pc.returns_mono (ready f) back
  rw [settled.quiet auto stopping v inside f] at was
  cases was

/-- No fiber is on its way back when the second flag is set. -/
theorem Settled.flag (settled : Settled s) (threads : s'.threads = s.threads)
    (workers : s'.workers = s.workers) (fibers : s'.fibers = s.fibers)
    (none_back : s'.autoStop = true → s'.stopping = true → ∀ w < s.threads, s.putsBack w = false) :
    Settled s' := by
  refine ⟨fun auto stopping v inside f => ?_, fun v j is => settled.reads v j (workers ▸ is)⟩
  rw [threads] at inside
  rw [Bool.eq_false_iff]
  intro back
  have was : s.returns v f = true := by
    rw [returns, workers] at back
    exact Pc.returns_mono (fun ready => by rwa [stateOf, fibers] at ready) back
  have puts := putsBack_of_returns was
  rw [none_back auto stopping v inside] at puts
  cases puts

theorem schedule_frame (s : Scheduler) (items : List (Option Work × Int)) :
    (s.schedule items).threads = s.threads ∧ (s.schedule items).workers = s.workers ∧
      (s.schedule items).fibers = s.fibers ∧ (s.schedule items).autoStop = s.autoStop ∧
      (s.schedule items).stopping = s.stopping := by
  induction items generalizing s with
  | nil => exact ⟨rfl, rfl, rfl, rfl, rfl⟩
  | cons item items ih =>
    obtain ⟨work, thread⟩ := item
    cases work with
    | none => exact ih s
    | some work => exact ih (s.scheduleNoLock (some work) thread)

theorem settled_step {action : Action} (settled : Settled s) (quietly : s.StopsQuietly action)
    (stepped : s.step action = some s') : Settled s' := by
  unfold step at stepped
  split at stepped
  · cases stepped
  cases action with
  | worker w =>
    obtain ⟨bound, took⟩ := Option.ite_none_right_eq_some.mp stepped
    exact settled.worker bound (workerStep_moves took)
  | fiber w choice =>
    obtain ⟨bound, took⟩ := Option.ite_none_right_eq_some.mp stepped
    split at took
    next j at_ => exact settled.fiber quietly (fiberStep_acts at_ took)
    next => cases took
  | makeFiber =>
    obtain rfl := Option.some.inj stepped
    exact settled.of_same ⟨rfl, rfl⟩ rfl rfl fun f ready => ready_of_makeFiber ready
  | schedule items =>
    obtain ⟨-, same⟩ := Option.ite_none_right_eq_some.mp stepped
    obtain rfl := Option.some.inj same
    obtain ⟨threads, workers, fibers, auto, stopping⟩ := s.schedule_frame items
    exact settled.of_same ⟨auto, stopping⟩ threads workers fun f ready => by
      rwa [stateOf, fibers] at ready
  | setAutoStop =>
    obtain rfl := Option.some.inj stepped
    exact settled.flag rfl rfl rfl fun _ stopping => quietly stopping
  | setStopping =>
    obtain rfl := Option.some.inj stepped
    exact settled.flag rfl rfl rfl fun auto _ => quietly auto

end Steps

/-- **Shutdown safety**: in every run in which `Stop` does not come upon a fiber on its way back to
the queue, and no fiber calls `YieldToReady` behind it, `Stopping()` is true only when nothing is
runnable. -/
theorem stopping_quiescent (threads : Nat) (actions : List Action) (s : Scheduler)
    (steps : Run.Steps step (fun s action => s.StopsQuietly action) (start threads) actions s) :
    s.isStopping = true → Quiescent s := by
  intro stop
  obtain ⟨auto, stopping, empty, zero⟩ := (isStopping_iff s).mp stop
  have inv := run_queueInv steps.run
  have settled : Settled s :=
    steps.invariant (fun _ _ _ settled quietly stepped => settled_step settled quietly stepped)
      (settled_start threads)
  refine ⟨empty, fun w bound => inv.entry_none zero bound, fun w bound => ?_⟩
  rw [Bool.eq_false_iff]
  intro waits
  obtain ⟨f, back⟩ := settled.waiting waits
  rw [settled.quiet auto stopping w bound f] at back
  cases back

/-- A fiber yields with `kReady` and is put back, runs to its end, and `Stop` sets its flags. -/
theorem stopping_quiescent_ended :
    ∃ s, Run.Steps step (fun s action => s.StopsQuietly action) (start 2)
        [.makeFiber, .schedule [(some (.fiber 0), -1)],
          .worker 0, .worker 0, .worker 0, .worker 0, .worker 0, .worker 0,
          .fiber 0 .yieldToReady, .worker 0, .worker 0, .worker 0, .worker 0, .worker 0, .worker 0,
          .setAutoStop, .worker 1, .worker 1, .worker 1, .worker 1, .worker 1, .worker 1,
          .fiber 1 .finish, .worker 1, .worker 1, .worker 1, .setStopping] s ∧
      s.isStopping = true ∧ Quiescent s := by
  obtain ⟨s, steps, stop⟩ := Run.Steps.of_tested step (fun s action => s.StopsQuietly action)
    (fun s => s.isStopping = true) (start 2)
    [.makeFiber, .schedule [(some (.fiber 0), -1)],
      .worker 0, .worker 0, .worker 0, .worker 0, .worker 0, .worker 0,
      .fiber 0 .yieldToReady, .worker 0, .worker 0, .worker 0, .worker 0, .worker 0, .worker 0,
      .setAutoStop, .worker 1, .worker 1, .worker 1, .worker 1, .worker 1, .worker 1,
      .fiber 1 .finish, .worker 1, .worker 1, .worker 1, .setStopping]
    (by decide +kernel) (by decide +kernel)
  exact ⟨s, steps, stop, stopping_quiescent 2 _ s steps stop⟩

/-- A fiber yields with `kReady`; its worker has decremented the count and not yet read
the state when `Stop` sets its flags. -/
theorem stopping_too_early :
    ∃ s, Run.run step (start 2) [.makeFiber, .schedule [(some (.fiber 0), -1)],
        .worker 0, .worker 0, .worker 0, .worker 0, .worker 0, .worker 0,
        .fiber 0 .yieldToReady, .worker 0, .worker 0, .worker 0, .worker 0,
        .setAutoStop, .setStopping] = some s ∧
      ¬ (s.isStopping = true → Quiescent s) := by
  have seen : (Run.run step (start 2) [.makeFiber, .schedule [(some (.fiber 0), -1)],
      .worker 0, .worker 0, .worker 0, .worker 0, .worker 0, .worker 0,
      .fiber 0 .yieldToReady, .worker 0, .worker 0, .worker 0, .worker 0,
      .setAutoStop, .setStopping]).map
        (fun s => s.isStopping && decide (0 < s.threads) && s.waiting 0) = some true := by
    decide
  obtain ⟨s, ran, observed⟩ := Option.map_eq_some_iff.mp seen
  simp only [Bool.and_eq_true, decide_eq_true_eq] at observed
  obtain ⟨⟨stop, bound⟩, waits⟩ := observed
  refine ⟨s, ran, fun safe => ?_⟩
  rw [(safe stop).none_waiting 0 bound] at waits
  cases waits

end ServerFrame.Scheduler
