import ServerFrame.Hook.DoIo

/-!
# Time-outs of hooked calls

The timer of a call is armed before its event is registered. When the callback comes to
its `CancelEvent` between the two it finds nothing to cancel, and every later callback of
the call sees `cancelled` and does nothing. Otherwise no time-out is lost.
-/
namespace ServerFrame.Hook

/-- The call has looked at `cancelled` for the last time before it registers its event,
and has not registered it. -/
def Pc.unregistered : Pc → Bool
  | .io => true
  | .arm => true
  | .add => true
  | _ => false

/-- The call will look at `cancelled`, or not wait any more. -/
def Pc.looks : Pc → Bool
  | .failed => true
  | .resumed => true
  | .check => true
  | .sockopt => true
  | .returned _ => true
  | _ => false

/-- A callback calls `CancelEvent` while the call is registered, or will look at
`cancelled`, and the kernel removes a registered event. -/
def observed (w : World) : Label → Bool
  | .cancelEvent _ ok => !w.pc.unregistered && (!w.registered || ok)
  | _ => true

/-- A timer of the call is in the timer set, or its callback will call `CancelEvent`. -/
def World.TimeoutAlive (w : World) : Prop :=
  .pending ∈ w.timers ∨ .fired ∈ w.timers ∧ w.cancelled = false ∨ .canceling ∈ w.timers

structure Alive (w : World) : Prop where
  set : .canceling ∈ w.timers → w.cancelled = true
  fresh : w.pc = .enter ∨ w.pc = .direct → w.timers = []
  /-- The timer of this turn, while the call waits with it. -/
  armed : w.timeout ≠ -1 → w.pc = .add ∨ w.pc = .yield ∨ w.pc = .parked →
    ∃ timer, w.timers.getLast? = some timer ∧ timer ≠ .cancelled ∧
      (timer = .done → w.cancelled = true)
  /-- A time-out that was set is still to be cancelled, or will be seen. -/
  late : w.cancelled = true → .canceling ∈ w.timers ∨ w.pc.looks = true ∨
    (w.pc = .yield ∨ w.pc = .parked) ∧ w.registered = false

theorem alive_new (kind : Kind) (datas : Option FdContext) : Alive (World.new kind datas) := by
  refine ⟨?_, fun _ => rfl, ?_, ?_⟩
  · intro member
    cases member
  · rintro - (h | h | h) <;> cases h
  · intro set
    cases set

section Steps

variable {w w' : World}

theorem mem_set_of_ne {timers : List TimerState} {timer new : TimerState} {j : Nat}
    (member : timer ∈ timers) (other : timers[j]? ≠ some timer) : timer ∈ timers.set j new := by
  obtain ⟨i, found⟩ := List.mem_iff_getElem?.mp member
  have ne : j ≠ i := by
    rintro rfl
    exact other found
  exact List.mem_iff_getElem?.mpr ⟨i, by rw [List.getElem?_set_ne ne, found]⟩

/-- A time-out that was set before the call is registered is still to be cancelled. -/
theorem Alive.canceling (alive : Alive w) (before : w.pc.looks = false)
    (not_yield : w.pc ≠ .yield) (not_parked : w.pc ≠ .parked) (set : w.cancelled = true) :
    .canceling ∈ w.timers := by
  rcases alive.late set with member | looks | ⟨waits | waits, -⟩
  · exact member
  · rw [before] at looks
    cases looks
  · exact absurd waits not_yield
  · exact absurd waits not_parked

/-- The call is where it has no timer of its own turn. -/
theorem alive_of_late {pc : Pc} (set : .canceling ∈ w.timers → w.cancelled = true)
    (not_fresh : pc ≠ .enter ∧ pc ≠ .direct)
    (not_waiting : pc ≠ .add ∧ pc ≠ .yield ∧ pc ≠ .parked) (at_pc : w.pc = pc)
    (late : w.cancelled = true → .canceling ∈ w.timers ∨ pc.looks = true) : Alive w := by
  refine ⟨set, ?_, ?_, fun set => ?_⟩
  · rintro (h | h)
    · exact absurd (at_pc ▸ h) not_fresh.1
    · exact absurd (at_pc ▸ h) not_fresh.2
  · rintro - (h | h | h)
    · exact absurd (at_pc ▸ h) not_waiting.1
    · exact absurd (at_pc ▸ h) not_waiting.2.1
    · exact absurd (at_pc ▸ h) not_waiting.2.2
  · rcases late set with member | looks
    · exact .inl member
    · exact .inr (.inl (at_pc ▸ looks))

theorem mem_of_mem_set {timers : List TimerState} {timer new : TimerState} {j : Nat}
    (member : timer ∈ timers.set j new) (other : timer ≠ new) : timer ∈ timers :=
  (List.mem_or_eq_of_mem_set member).resolve_right other

theorem Alive.set_cancelTimer (alive : Alive w) (member : .canceling ∈ w.cancelTimer.timers) :
    w.cancelTimer.cancelled = true := by
  rw [World.cancelTimer] at *
  split at *
  · exact alive.set (mem_of_mem_set member (by simp))
  · exact alive.set member

theorem alive_enter (alive : Alive w) (at_enter : w.pc = .enter) : Alive (enter w) := by
  have none_yet : w.timers = [] := alive.fresh (.inl at_enter)
  have not_set : w.cancelled = false := by
    by_contra set
    have member := alive.canceling (by rw [at_enter]; rfl) (by simp [at_enter]) (by simp [at_enter])
      (by simpa using set)
    rw [none_yet] at member
    cases member
  have direct : Alive { w with pc := .direct } := by
    refine ⟨alive.set, fun _ => none_yet, ?_, fun set => absurd set (by simp [not_set])⟩
    rintro - (h | h | h) <;> cases h
  have answered : ∀ answer, Alive { w with pc := .returned answer } := fun answer =>
    alive_of_late alive.set (by simp) (by simp) rfl fun set => absurd set (by simp [not_set])
  have goes_on : ∀ timeout, Alive { w with pc := .io, timeout := timeout } := fun timeout =>
    alive_of_late alive.set (by simp) (by simp) rfl fun set => absurd set (by simp [not_set])
  rw [enter]
  split
  · exact direct
  · exact answered _
  · split
    · exact answered _
    · split
      · exact direct
      · split
        · exact goes_on _
        · exact goes_on _

theorem alive_io {reached : List (Option Nat)} (alive : Alive w) (at_io : w.pc = .io)
    (answer : Answer) : Alive { w with pc := afterIo w.kind answer, reached := reached } := by
  have canceling := alive.canceling (by rw [at_io]; rfl) (by simp [at_io]) (by simp [at_io])
  rw [afterIo.eq_def]
  split
  · exact alive_of_late alive.set (by simp) (by simp) rfl fun set => .inl (canceling set)
  · split
    · exact alive_of_late alive.set (by simp) (by simp) rfl fun set => .inl (canceling set)
    · exact alive_of_late alive.set (by simp) (by simp) rfl fun _ => .inr rfl
  · exact alive_of_late alive.set (by simp) (by simp) rfl fun _ => .inr rfl

theorem alive_arm (alive : Alive w) (at_arm : w.pc = .arm)
    (stepped : (if w.timeout = -1 then some { w with pc := .add }
      else some { w with pc := .add, timers := w.timers ++ [.pending] }) = some w') :
    Alive w' := by
  have canceling := alive.canceling (by rw [at_arm]; rfl) (by simp [at_arm]) (by simp [at_arm])
  split at stepped
  next infinite =>
    obtain rfl := Option.some.inj stepped
    exact ⟨alive.set, by simp, fun finite => absurd infinite finite, fun set => .inl (canceling set)⟩
  next =>
    obtain rfl := Option.some.inj stepped
    refine ⟨fun member => alive.set (by simpa using member), by simp,
      fun _ _ => ⟨.pending, by simp, by simp, by simp⟩, fun set => .inl ?_⟩
    exact List.mem_append_left _ (canceling set)

theorem alive_add {ok : Bool} (alive : Alive w) (at_add : w.pc = .add)
    (stepped : (if ok then some { w with pc := .yield, registered := true }
      else some { w with pc := .failed }) = some w') : Alive w' := by
  have canceling := alive.canceling (by rw [at_add]; rfl) (by simp [at_add]) (by simp [at_add])
  split at stepped
  next =>
    obtain rfl := Option.some.inj stepped
    exact ⟨alive.set, by simp, fun finite _ => alive.armed finite (.inl at_add),
      fun set => .inl (canceling set)⟩
  next =>
    obtain rfl := Option.some.inj stepped
    exact alive_of_late alive.set (by simp) (by simp) rfl fun _ => .inr rfl

theorem alive_stepCall {label : Label} (alive : Alive w) (stepped : stepCall w label = some w') :
    Alive w' := by
  cases label with
  | enter =>
    simp only [stepCall] at stepped
    split at stepped
    next at_enter => exact Option.some.inj stepped ▸ alive_enter alive at_enter
    next => cases stepped
  | direct answer =>
    simp only [stepCall] at stepped
    split at stepped
    next =>
      exact Option.some.inj stepped ▸
        alive_of_late alive.set (by simp) (by simp) rfl fun _ => .inr rfl
    next => cases stepped
  | io answer =>
    simp only [stepCall] at stepped
    split at stepped
    next at_io => exact Option.some.inj stepped ▸ alive_io alive at_io _
    next => cases stepped
  | arm =>
    simp only [stepCall] at stepped
    split at stepped
    next at_arm => exact alive_arm alive at_arm stepped
    next => cases stepped
  | add ok =>
    simp only [stepCall] at stepped
    split at stepped
    next at_add => exact alive_add alive at_add stepped
    next => cases stepped
  | cancelFailed =>
    simp only [stepCall] at stepped
    split at stepped
    next =>
      split at stepped
      all_goals
        exact Option.some.inj stepped ▸
          alive_of_late alive.set_cancelTimer (by simp) (by simp) rfl fun _ => .inr rfl
    next => cases stepped
  -- a time-out that came before `AddEvent` is lost, any later one finds the event
  | yield =>
    simp only [stepCall] at stepped
    split at stepped
    next at_yield =>
      obtain rfl := Option.some.inj stepped
      refine ⟨alive.set, by simp, fun finite _ => alive.armed finite (.inr (.inl at_yield)),
        fun set => ?_⟩
      rcases alive.late set with member | looks | ⟨-, gone⟩
      · exact .inl member
      · rw [at_yield] at looks
        cases looks
      · exact .inr (.inr ⟨.inr rfl, gone⟩)
    next => cases stepped
  | resume =>
    simp only [stepCall] at stepped
    split at stepped
    next =>
      exact Option.some.inj stepped ▸
        alive_of_late alive.set (by simp) (by simp) rfl fun _ => .inr rfl
    next => cases stepped
  | cancelTimer =>
    simp only [stepCall] at stepped
    split at stepped
    next =>
      exact Option.some.inj stepped ▸
        alive_of_late alive.set_cancelTimer (by simp) (by simp) rfl fun _ => .inr rfl
    next => cases stepped
  | check =>
    simp only [stepCall] at stepped
    split at stepped
    next =>
      split at stepped
      next =>
        exact Option.some.inj stepped ▸
          alive_of_late alive.set (by simp) (by simp) rfl fun _ => .inr rfl
      -- nothing has timed out, and what comes later sees the next turn
      next not_set =>
        split at stepped
        all_goals
          exact Option.some.inj stepped ▸ alive_of_late alive.set (by simp) (by simp) rfl
            fun set => absurd set not_set
    next => cases stepped
  | sockopt answer =>
    simp only [stepCall] at stepped
    split at stepped
    next =>
      exact Option.some.inj stepped ▸
        alive_of_late alive.set (by simp) (by simp) rfl fun _ => .inr rfl
    next => cases stepped
  | _ => cases stepped

/-- What does not touch the call's place, its timers or `cancelled`, and does not register
its event. -/
theorem Alive.frame (alive : Alive w) (pc : w'.pc = w.pc) (timeout : w'.timeout = w.timeout)
    (timers : w'.timers = w.timers) (cancelled : w'.cancelled = w.cancelled)
    (registered : w'.registered = w.registered ∨ w'.registered = false) : Alive w' := by
  refine ⟨?_, ?_, ?_, fun set => ?_⟩
  · rw [timers, cancelled]
    exact alive.set
  · rw [pc, timers]
    exact alive.fresh
  · rw [pc, timers, cancelled, timeout]
    exact alive.armed
  · rw [pc, timers]
    rcases alive.late (cancelled ▸ set) with member | looks | ⟨waits, gone⟩
    · exact .inl member
    · exact .inr (.inl looks)
    · refine .inr (.inr ⟨waits, ?_⟩)
      rcases registered with same | off
      · rw [same, gone]
      · exact off

/-- A timer of the call changes. -/
theorem Alive.setTimer {j : Nat} {old new : TimerState} (cancelled registered scheduled : Bool)
    (alive : Alive w) (was : w.timers[j]? = some old)
    (not_cancelled : new ≠ .cancelled)
    (set : new = .done ∨ new = .canceling → cancelled = true)
    (more : w.cancelled = true → cancelled = true)
    (late : cancelled = true → .canceling ∈ w.timers.set j new ∨ w.pc.looks = true ∨
      (w.pc = .yield ∨ w.pc = .parked) ∧ registered = false) :
    Alive { w with
      timers := w.timers.set j new
      cancelled := cancelled
      registered := registered
      scheduled := scheduled } := by
  refine ⟨fun member => ?_, fun before => ?_, fun finite waits => ?_, late⟩
  · rcases List.mem_or_eq_of_mem_set member with member | is_new
    · exact more (alive.set member)
    · exact set (.inr is_new.symm)
  · rw [alive.fresh before] at was
    cases was
  · obtain ⟨timer, last, is_not, is_done⟩ := alive.armed finite waits
    rw [List.getLast?_eq_getElem?] at last
    by_cases own : j = w.timers.length - 1
    · subst own
      refine ⟨new, ?_, not_cancelled, fun done => set (.inl done)⟩
      have inside : w.timers.length - 1 < w.timers.length := by
        rw [List.getElem?_eq_some_iff] at was
        exact was.1
      simp [List.getLast?_eq_getElem?, inside]
    · refine ⟨timer, ?_, is_not, fun is => more (is_done is)⟩
      rw [List.getLast?_eq_getElem?, List.length_set, List.getElem?_set_ne own, last]

theorem alive_expire {j : Nat} (alive : Alive w) (pending : w.timers[j]? = some .pending) :
    Alive { w with timers := w.timers.set j .fired } := by
  refine alive.setTimer w.cancelled w.registered w.scheduled pending (by simp) (by simp) id fun set => ?_
  rcases alive.late set with member | rest
  · exact .inl (mem_set_of_ne member (by simp [pending]))
  · exact .inr rest

theorem alive_test {j : Nat} (alive : Alive w) (fired : w.timers[j]? = some .fired)
    (stepped : (if w.pc.isReturned || w.cancelled then
        some { w with timers := w.timers.set j .done }
      else some { w with cancelled := true, timers := w.timers.set j .canceling }) = some w') :
    Alive w' := by
  split at stepped
  next gone =>
    obtain rfl := Option.some.inj stepped
    by_cases set : w.cancelled = true
    · refine alive.setTimer w.cancelled w.registered w.scheduled fired (by simp) (fun _ => set) id fun _ => ?_
      rcases alive.late set with member | rest
      · exact .inl (mem_set_of_ne member (by simp [fired]))
      · exact .inr rest
    · -- the call has returned
      have returned : w.pc.isReturned = true := by simpa [set] using gone
      cases at_pc : w.pc with
      | returned answer =>
        refine alive_of_late (fun member => ?_) (by simp) (by simp) rfl fun _ => .inr rfl
        exact alive.set (mem_of_mem_set member (by simp))
      | _ =>
        rw [at_pc] at returned
        cases returned
  next =>
    obtain rfl := Option.some.inj stepped
    refine alive.setTimer true w.registered w.scheduled fired (by simp)
      (fun _ => rfl) (fun _ => rfl) fun _ => .inl ?_
    rw [List.getElem?_eq_some_iff] at fired
    exact List.mem_set fired.1 _

/-- A callback comes to its `CancelEvent`. -/
theorem alive_cancelEvent {j : Nat} {ok : Bool} (alive : Alive w)
    (canceling : w.timers[j]? = some .canceling)
    (seen : observed w (.cancelEvent j ok) = true)
    (stepped : (if w.registered && ok then some { w.trigger with timers := w.timers.set j .done }
      else some { w with timers := w.timers.set j .done }) = some w') : Alive w' := by
  have set : w.cancelled = true := alive.set (List.mem_of_getElem? canceling)
  simp only [observed, Bool.and_eq_true, Bool.not_eq_true'] at seen
  -- the call looks at `cancelled` later, or it waits and is not registered afterwards
  have place : w.pc.looks = true ∨ w.pc = .yield ∨ w.pc = .parked := by
    have not_fresh : w.pc ≠ .enter ∧ w.pc ≠ .direct := by
      constructor
      all_goals
        intro at_start
        rw [alive.fresh (by simp [at_start])] at canceling
        cases canceling
    cases at_pc : w.pc with
    | enter => exact absurd at_pc not_fresh.1
    | direct => exact absurd at_pc not_fresh.2
    | io =>
      rw [at_pc] at seen
      cases seen.1
    | arm =>
      rw [at_pc] at seen
      cases seen.1
    | add =>
      rw [at_pc] at seen
      cases seen.1
    | _ => simp [Pc.looks]
  split at stepped
  next =>
    obtain rfl := Option.some.inj stepped
    refine alive.setTimer w.cancelled false true canceling (by simp) (fun _ => set) id fun _ => .inr ?_
    rcases place with looks | waits
    · exact .inl looks
    · exact .inr ⟨waits, rfl⟩
  next not_both =>
    obtain rfl := Option.some.inj stepped
    have off : w.registered = false := by
      cases registered : w.registered with
      | false => rfl
      | true =>
        rw [registered] at seen not_both
        simp only [Bool.not_true, Bool.false_or] at seen
        rw [Bool.true_and] at not_both
        exact absurd seen.2 not_both
    refine alive.setTimer w.cancelled w.registered w.scheduled canceling (by simp) (fun _ => set) id fun _ => .inr ?_
    rcases place with looks | waits
    · exact .inl looks
    · exact .inr ⟨waits, off⟩

theorem alive_stepAround {label : Label} (alive : Alive w) (seen : observed w label = true)
    (stepped : stepAround w label = some w') : Alive w' := by
  cases label with
  | expire j =>
    simp only [stepAround] at stepped
    split at stepped
    next pending => exact Option.some.inj stepped ▸ alive_expire alive pending
    next => cases stepped
  | test j =>
    simp only [stepAround] at stepped
    split at stepped
    next fired => exact alive_test alive fired stepped
    next => cases stepped
  | cancelEvent j ok =>
    simp only [stepAround] at stepped
    split at stepped
    next canceling => exact alive_cancelEvent alive canceling seen stepped
    next => cases stepped
  -- events only queue the fiber; no timer is touched
  | ready =>
    simp only [stepAround] at stepped
    split at stepped
    next => exact Option.some.inj stepped ▸ alive.frame rfl rfl rfl rfl (.inr rfl)
    next => cases stepped
  | closeGet t =>
    simp only [stepAround] at stepped
    split at stepped
    next =>
      split at stepped
      all_goals exact Option.some.inj stepped ▸ alive.frame rfl rfl rfl rfl (.inl rfl)
    next => cases stepped
  | cancelAll t ok =>
    simp only [stepAround] at stepped
    split at stepped
    next =>
      split at stepped
      next => exact Option.some.inj stepped ▸ alive.frame rfl rfl rfl rfl (.inr rfl)
      next => exact Option.some.inj stepped ▸ alive.frame rfl rfl rfl rfl (.inl rfl)
    next => cases stepped
  | del t =>
    simp only [stepAround] at stepped
    split at stepped
    next => exact Option.some.inj stepped ▸ alive.frame rfl rfl rfl rfl (.inl rfl)
    next => cases stepped
  | closeFd t =>
    simp only [stepAround] at stepped
    split at stepped
    next => exact Option.some.inj stepped ▸ alive.frame rfl rfl rfl rfl (.inl rfl)
    next => cases stepped
  | openFd t =>
    simp only [stepAround] at stepped
    split at stepped
    next => exact Option.some.inj stepped ▸ alive.frame rfl rfl rfl rfl (.inl rfl)
    next => cases stepped
  | manage t =>
    simp only [stepAround] at stepped
    split at stepped
    next =>
      split at stepped
      all_goals exact Option.some.inj stepped ▸ alive.frame rfl rfl rfl rfl (.inl rfl)
    next => cases stepped
  | _ => cases stepped

theorem alive_step {label : Label} (alive : Alive w) (seen : observed w label = true)
    (stepped : step w label = some w') : Alive w' := by
  rw [step] at stepped
  cases call : stepCall w label with
  | some next =>
    rw [call] at stepped
    exact Option.some.inj stepped ▸ alive_stepCall alive call
  | none =>
    rw [call] at stepped
    exact alive_stepAround alive seen stepped

end Steps

/-- In every run in which no callback comes to its `CancelEvent` while the call is not
registered and will not look at `cancelled`, a call that waits with its event registered
and a finite timeout has a timer pending or a callback that will cancel its event. -/
theorem timeout_not_lost {kind : Kind} {datas : Option FdContext} {labels : List Label} {w : World}
    (steps : Run.Steps step (fun w label => observed w label = true) (World.new kind datas)
      labels w)
    (parked : w.pc = .parked) (registered : w.registered = true) (finite : w.timeout ≠ -1) :
    w.TimeoutAlive := by
  have alive : Alive w := steps.invariant
    (fun _ _ _ alive seen stepped => alive_step alive seen stepped) (alive_new kind datas)
  cases set : w.cancelled with
  | true =>
    rcases alive.late set with member | looks | ⟨-, gone⟩
    · exact .inr (.inr member)
    · rw [parked] at looks
      cases looks
    · rw [registered] at gone
      cases gone
  | false =>
    obtain ⟨timer, last, not_cancelled, done⟩ := alive.armed finite (.inr (.inr parked))
    have member : timer ∈ w.timers := List.mem_of_getLast? last
    cases timer with
    | pending => exact .inl member
    | fired => exact .inr (.inl ⟨member, set⟩)
    | canceling => exact .inr (.inr member)
    | done =>
      rw [set] at done
      exact absurd (done rfl) Bool.false_ne_true
    | cancelled => exact absurd rfl not_cancelled

/-- A socket in blocking mode for the user, with a timeout of one millisecond. -/
def waiting : FdContext := { (FdContext.init 0 ⟨true, oNonblock⟩).2 with recvTimeout := 1 }

/-- The timer fires when the call waits; before its `CancelEvent` the call is parked with
the callback still to come. -/
theorem timeout_not_lost_firing :
    ∃ w, Run.Steps step (fun w label => observed w label = true)
        (World.new (.doIo .read) (some waiting))
        [.enter, .io (.error .again), .arm, .add true, .yield, .expire 0, .test 0] w ∧
      w.pc = .parked ∧ w.registered = true ∧ w.TimeoutAlive := by
  obtain ⟨w, steps⟩ := Run.Steps.of_admissible step (fun w label => observed w label = true)
    (World.new (.doIo .read) (some waiting))
    [.enter, .io (.error .again), .arm, .add true, .yield, .expire 0, .test 0] (by decide)
  have ends : ((Run.run step (World.new (.doIo .read) (some waiting))
      [.enter, .io (.error .again), .arm, .add true, .yield, .expire 0, .test 0]).map
        fun w => (w.pc, w.registered, w.timeout)) = some (.parked, true, 1) := by decide
  rw [steps.run, Option.map_some, Option.some.injEq, Prod.mk.injEq, Prod.mk.injEq] at ends
  obtain ⟨parked, registered, timeout⟩ := ends
  exact ⟨w, steps, parked, registered, timeout_not_lost steps parked registered
    (by rw [timeout]; decide)⟩

/-- The timer fires between `AddConditionTimer` and `AddEvent`: its callback runs to its
end, and the call waits without a timeout. -/
theorem timeout_lost :
    ∃ w, Run.run step (World.new (.doIo .read) (some waiting))
        [.enter, .io (.error .again), .arm, .expire 0, .test 0, .cancelEvent 0 true, .add true,
          .yield] = some w ∧
      w.pc = .parked ∧ w.registered = true ∧ w.timeout ≠ -1 ∧ ¬ w.TimeoutAlive := by
  have ends : ((Run.run step (World.new (.doIo .read) (some waiting))
      [.enter, .io (.error .again), .arm, .expire 0, .test 0, .cancelEvent 0 true, .add true,
        .yield]).map fun w => (w.pc, w.registered, w.timeout, w.timers)) =
      some (.parked, true, 1, [.done]) := by decide
  obtain ⟨w, ran, same⟩ := Option.map_eq_some_iff.mp ends
  obtain ⟨parked, registered, timeout, timers⟩ : w.pc = .parked ∧ w.registered = true ∧
    w.timeout = 1 ∧ w.timers = [.done] := by simpa using same
  refine ⟨w, ran, parked, registered, by rw [timeout]; decide, ?_⟩
  simp [World.TimeoutAlive, timers]

end ServerFrame.Hook
