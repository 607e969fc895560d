import ServerFrame.Hook.DoIo

/-!
# A closed descriptor and the call that waits on it

`close` wakes the fiber that waits on the number, deletes the context and then closes the
file. The woken call goes back to `retry` and looks neither at the context nor at what the
number stands for by then. It ends with `EBADF` when the file is closed before it goes on,
and the number is not given out again before it has returned.
-/
namespace ServerFrame.Hook

/-- The closing fiber is through with `close_f` when the woken call goes on, the kernel
does not give the number out again before that call has returned, and the timeout of the
call has not been set. -/
def undisturbed (w : World) : Label → Bool
  | .resume => !w.byClose || w.file.isNone
  | .openFd _ => !w.byClose || w.pc.isReturned
  | .check => !w.byClose || !w.cancelled
  | _ => true

/-- Where a call stands that was woken by `close`. -/
inductive Back (w : World) : Prop
  | queued (waits : w.pc = .yield ∨ w.pc = .parked) (off : w.registered = false)
      (scheduled : w.scheduled = true)
  | closed (place : w.pc = .resumed ∨ w.pc = .check ∨ w.pc = .io) (file : w.file = none)
  | ended (returned : w.pc = .returned (.error .badf))

structure Woken (w : World) : Prop where
  kind : ∃ event, w.kind = .doIo event
  waits : w.registered = true ∨ w.scheduled = true → w.pc = .yield ∨ w.pc = .parked
  apart : w.scheduled = true → w.registered = false
  untouched : ∀ file ∈ w.reached, file = none
  back : w.byClose = true → Back w

theorem woken_new (event : IOManager.Event) (datas : Option FdContext) :
    Woken (World.new (.doIo event) datas) := by
  refine ⟨⟨event, rfl⟩, ?_, fun _ => rfl, ?_, ?_⟩
  · rintro (impossible | impossible) <;> cases impossible
  · intro file member
    cases member
  · intro impossible
    cases impossible

section Steps

variable {w w' : World}

/-- The call goes on from a place where no `close` has woken it. -/
theorem Woken.goesOn (woken : Woken w) (kind : w'.kind = w.kind)
    (waits : w'.registered = true ∨ w'.scheduled = true → w'.pc = .yield ∨ w'.pc = .parked)
    (apart : w'.scheduled = true → w'.registered = false)
    (byClose : w'.byClose = w.byClose) (reached : w'.reached = w.reached) (not_back : ¬ Back w) :
    Woken w' := by
  refine ⟨kind ▸ woken.kind, waits, apart, ?_, fun set => absurd (woken.back ?_) not_back⟩
  · rw [reached]
    exact woken.untouched
  · rw [← byClose, set]

/-- The call is where it waits for nothing. -/
theorem Woken.off (woken : Woken w) (not_yield : w.pc ≠ .yield) (not_parked : w.pc ≠ .parked) :
    ¬ (w.registered = true ∨ w.scheduled = true) := by
  intro waits
  rcases woken.waits waits with h | h
  · exact not_yield h
  · exact not_parked h

/-- At these places a call that was woken by `close` does not stand. -/
theorem not_back {pc : Pc} (place : w.pc = pc)
    (other : pc = .enter ∨ pc = .direct ∨ pc = .arm ∨ pc = .add ∨ pc = .failed ∨ pc = .sockopt) :
    ¬ Back w := by
  rintro (⟨h, -, -⟩ | ⟨h, -⟩ | h)
  all_goals
    rw [place] at h
    rcases other with rfl | rfl | rfl | rfl | rfl | rfl <;> simp at h

/-- Cancelling the timer touches nothing but the timers. -/
theorem cancelTimer_frame : ∃ timers, w.cancelTimer = { w with timers := timers } := by
  rw [World.cancelTimer]
  split
  · exact ⟨_, rfl⟩
  · exact ⟨_, rfl⟩

theorem enter_frame : ∃ pc timeout, enter w = { w with pc := pc, timeout := timeout } := by
  rw [enter]
  split
  · exact ⟨_, _, rfl⟩
  · exact ⟨_, _, rfl⟩
  · split
    · exact ⟨_, _, rfl⟩
    · split
      · exact ⟨_, _, rfl⟩
      · split <;> exact ⟨_, _, rfl⟩

/-- The system call of the woken call finds no file at the number. -/
theorem woken_io (woken : Woken w) (at_io : w.pc = .io) (answer : Answer) :
    Woken { w with
      pc := afterIo w.kind (w.answer answer)
      reached := if w.byClose then w.reached ++ [w.file] else w.reached } := by
  have off := woken.off (by simp [at_io]) (by simp [at_io])
  have closed : w.byClose = true → w.file = none := by
    intro set
    rcases woken.back set with ⟨h, -, -⟩ | ⟨-, closed⟩ | h
    · simp [at_io] at h
    · exact closed
    · simp [at_io] at h
  refine ⟨woken.kind, fun on => absurd on off, woken.apart, fun file member => ?_,
    fun set => .ended ?_⟩
  · split at member
    next set =>
      rw [closed set, List.mem_append, List.mem_singleton] at member
      exact member.elim (woken.untouched file) id
    next => exact woken.untouched file member
  · simp [World.answer, closed set, afterIo]

theorem woken_stepCall {label : Label} (woken : Woken w) (allowed : undisturbed w label = true)
    (stepped : stepCall w label = some w') : Woken w' := by
  cases label with
  | enter =>
    simp only [stepCall] at stepped
    split at stepped
    next at_enter =>
      obtain rfl := Option.some.inj stepped
      obtain ⟨pc, timeout, same⟩ := enter_frame (w := w)
      have off := woken.off (by simp [at_enter]) (by simp [at_enter])
      rw [same]
      exact woken.goesOn rfl (fun on => absurd on off) woken.apart rfl rfl
        (not_back at_enter (by simp))
    next => cases stepped
  | direct answer =>
    simp only [stepCall] at stepped
    split at stepped
    next at_direct =>
      have off := woken.off (by simp [at_direct]) (by simp [at_direct])
      exact Option.some.inj stepped ▸ woken.goesOn rfl (fun on => absurd on off) woken.apart rfl rfl
        (not_back at_direct (by simp))
    next => cases stepped
  | io answer =>
    simp only [stepCall] at stepped
    split at stepped
    next at_io => exact Option.some.inj stepped ▸ woken_io woken at_io answer
    next => cases stepped
  | arm =>
    simp only [stepCall] at stepped
    split at stepped
    next at_arm =>
      have off := woken.off (by simp [at_arm]) (by simp [at_arm])
      split at stepped
      all_goals
        exact Option.some.inj stepped ▸ woken.goesOn rfl (fun on => absurd on off) woken.apart rfl rfl
          (not_back at_arm (by simp))
    next => cases stepped
  | add ok =>
    simp only [stepCall] at stepped
    split at stepped
    next at_add =>
      have off := woken.off (by simp [at_add]) (by simp [at_add])
      split at stepped
      next =>
        exact Option.some.inj stepped ▸ woken.goesOn rfl (fun _ => .inl rfl)
          (fun queued => absurd (.inr queued) off) rfl rfl (not_back at_add (by simp))
      next =>
        exact Option.some.inj stepped ▸ woken.goesOn rfl (fun on => absurd on off) woken.apart rfl rfl
          (not_back at_add (by simp))
    next => cases stepped
  | cancelFailed =>
    simp only [stepCall] at stepped
    split at stepped
    next at_failed =>
      have off := woken.off (by simp [at_failed]) (by simp [at_failed])
      obtain ⟨timers, same⟩ := cancelTimer_frame (w := w)
      rw [same] at stepped
      split at stepped
      all_goals
        exact Option.some.inj stepped ▸ woken.goesOn rfl (fun on => absurd on off) woken.apart rfl rfl
          (not_back at_failed (by simp))
    next => cases stepped
  -- what was triggered before the yield stays queued
  | yield =>
    simp only [stepCall] at stepped
    split at stepped
    next at_yield =>
      obtain rfl := Option.some.inj stepped
      refine ⟨woken.kind, fun _ => .inr rfl, woken.apart, woken.untouched, fun set => ?_⟩
      rcases woken.back set with ⟨-, off, scheduled⟩ | ⟨h, -⟩ | h
      · exact .queued (.inr rfl) off scheduled
      · simp [at_yield] at h
      · simp [at_yield] at h
    next => cases stepped
  | resume =>
    simp only [stepCall] at stepped
    split at stepped
    next resumes =>
      obtain rfl := Option.some.inj stepped
      have off := woken.apart resumes.2
      refine ⟨woken.kind, fun on => ?_, fun _ => off, woken.untouched, fun set => ?_⟩
      · simp [off] at on
      · -- the file is closed by now
        refine .closed (.inl rfl) ?_
        simpa [undisturbed, show w.byClose = true from set] using allowed
    next => cases stepped
  | cancelTimer =>
    simp only [stepCall] at stepped
    split at stepped
    next at_resumed =>
      have off := woken.off (by simp [at_resumed]) (by simp [at_resumed])
      obtain ⟨timers, same⟩ := cancelTimer_frame (w := w)
      rw [same] at stepped
      obtain rfl := Option.some.inj stepped
      refine ⟨woken.kind, fun on => absurd on off, woken.apart, woken.untouched, fun set => ?_⟩
      rcases woken.back set with ⟨h, -, -⟩ | ⟨-, closed⟩ | h
      · simp [at_resumed] at h
      · exact .closed (.inr (.inl rfl)) closed
      · simp [at_resumed] at h
    next => cases stepped
  | check =>
    simp only [stepCall] at stepped
    split at stepped
    next at_check =>
      have off := woken.off (by simp [at_check]) (by simp [at_check])
      split at stepped
      next timed_out =>
        obtain rfl := Option.some.inj stepped
        -- the condition excludes a time-out behind a `close`
        have not_woken : w.byClose ≠ true := by
          intro set
          simp [undisturbed, set, timed_out] at allowed
        exact ⟨woken.kind, fun on => absurd on off, woken.apart, woken.untouched,
          fun set => absurd set not_woken⟩
      next =>
        -- back at `retry`: the number is closed, so the system call finds nothing
        have goes_on : Woken { w with pc := .io } := by
          refine ⟨woken.kind, fun on => absurd on off, woken.apart, woken.untouched, fun set => ?_⟩
          rcases woken.back set with ⟨h, -, -⟩ | ⟨-, closed⟩ | h
          · simp [at_check] at h
          · exact .closed (.inr (.inr rfl)) closed
          · simp [at_check] at h
        split at stepped
        next => exact Option.some.inj stepped ▸ goes_on
        next connects =>
          obtain ⟨event, kind⟩ := woken.kind
          rw [kind] at connects
          cases connects
    next => cases stepped
  | sockopt answer =>
    simp only [stepCall] at stepped
    split at stepped
    next at_sockopt =>
      have off := woken.off (by simp [at_sockopt]) (by simp [at_sockopt])
      exact Option.some.inj stepped ▸ woken.goesOn rfl (fun on => absurd on off) woken.apart rfl rfl
        (not_back at_sockopt (by simp))
    next => cases stepped
  | _ => cases stepped

/-- What leaves the call's place and its wake-up alone, and opens no file at the number
while the woken call is under way. -/
theorem Woken.frame (woken : Woken w) (kind : w'.kind = w.kind) (pc : w'.pc = w.pc)
    (registered : w'.registered = w.registered) (scheduled : w'.scheduled = w.scheduled)
    (byClose : w'.byClose = w.byClose) (reached : w'.reached = w.reached)
    (file : w.byClose = true → w.pc.isReturned = true ∨ w'.file = w.file ∨ w'.file = none) :
    Woken w' := by
  refine ⟨kind ▸ woken.kind, ?_, ?_, ?_, fun set => ?_⟩
  · rw [registered, scheduled, pc]
    exact woken.waits
  · rw [registered, scheduled]
    exact woken.apart
  · rw [reached]
    exact woken.untouched
  · rw [byClose] at set
    rcases woken.back set with ⟨waits, off, queued⟩ | ⟨place, closed⟩ | returned
    · exact .queued (pc ▸ waits) (registered ▸ off) (scheduled ▸ queued)
    · refine .closed (pc ▸ place) ?_
      rcases file set with returned | same | gone
      · rcases place with h | h | h <;> simp [h, Pc.isReturned] at returned
      · rw [same, closed]
      · exact gone
    · exact .ended (pc ▸ returned)

/-- The registered event is removed and its fiber queued. -/
theorem Woken.trigger {timers : List TimerState} {others : Nat → Other} {byClose : Bool}
    (woken : Woken w) (registered : w.registered = true) :
    Woken { w.trigger with
      timers := timers
      others := others
      byClose := byClose } := by
  have waits := woken.waits (.inl registered)
  exact ⟨woken.kind, fun _ => waits, fun _ => rfl, woken.untouched, fun _ => .queued waits rfl rfl⟩

theorem woken_stepAround {label : Label} (woken : Woken w) (allowed : undisturbed w label = true)
    (stepped : stepAround w label = some w') : Woken w' := by
  cases label with
  | expire j =>
    simp only [stepAround] at stepped
    split at stepped
    next =>
      exact Option.some.inj stepped ▸
        woken.frame rfl rfl rfl rfl rfl rfl fun _ => .inr (.inl rfl)
    next => cases stepped
  | test j =>
    simp only [stepAround] at stepped
    split at stepped
    next =>
      split at stepped
      all_goals
        exact Option.some.inj stepped ▸
          woken.frame rfl rfl rfl rfl rfl rfl fun _ => .inr (.inl rfl)
    next => cases stepped
  | cancelEvent j ok =>
    simp only [stepAround] at stepped
    split at stepped
    next =>
      split at stepped
      next both =>
        rw [Bool.and_eq_true] at both
        exact Option.some.inj stepped ▸ woken.trigger both.1
      next =>
        exact Option.some.inj stepped ▸
          woken.frame rfl rfl rfl rfl rfl rfl fun _ => .inr (.inl rfl)
    next => cases stepped
  | ready =>
    simp only [stepAround] at stepped
    split at stepped
    next registered => exact Option.some.inj stepped ▸ woken.trigger registered
    next => cases stepped
  | closeGet t =>
    simp only [stepAround] at stepped
    split at stepped
    next =>
      split at stepped
      all_goals
        exact Option.some.inj stepped ▸
          woken.frame rfl rfl rfl rfl rfl rfl fun _ => .inr (.inl rfl)
    next => cases stepped
  | cancelAll t ok =>
    simp only [stepAround] at stepped
    split at stepped
    next =>
      split at stepped
      next both =>
        rw [Bool.and_eq_true] at both
        exact Option.some.inj stepped ▸ woken.trigger both.1
      next =>
        exact Option.some.inj stepped ▸
          woken.frame rfl rfl rfl rfl rfl rfl fun _ => .inr (.inl rfl)
    next => cases stepped
  | del t =>
    simp only [stepAround] at stepped
    split at stepped
    next =>
      exact Option.some.inj stepped ▸
        woken.frame rfl rfl rfl rfl rfl rfl fun _ => .inr (.inl rfl)
    next => cases stepped
  | closeFd t =>
    simp only [stepAround] at stepped
    split at stepped
    next =>
      exact Option.some.inj stepped ▸
        woken.frame rfl rfl rfl rfl rfl rfl fun _ => .inr (.inr rfl)
    next => cases stepped
  | openFd t =>
    simp only [stepAround] at stepped
    split at stepped
    next =>
      obtain rfl := Option.some.inj stepped
      refine woken.frame rfl rfl rfl rfl rfl rfl fun set => .inl ?_
      -- the number is not given out again while the call is on its way back
      simpa [undisturbed, set] using allowed
    next => cases stepped
  | manage t =>
    simp only [stepAround] at stepped
    split at stepped
    next =>
      split at stepped
      all_goals
        exact Option.some.inj stepped ▸
          woken.frame rfl rfl rfl rfl rfl rfl fun _ => .inr (.inl rfl)
    next => cases stepped
  | _ => cases stepped

theorem woken_step {label : Label} (woken : Woken w) (allowed : undisturbed w label = true)
    (stepped : step w label = some w') : Woken w' := by
  rw [step] at stepped
  cases call : stepCall w label with
  | some next =>
    rw [call] at stepped
    exact Option.some.inj stepped ▸ woken_stepCall woken allowed call
  | none =>
    rw [call] at stepped
    exact woken_stepAround woken allowed stepped

end Steps

/-- In every run in which the file is closed before the woken call goes on, the number is
not given out again before that call has returned and its timeout is not set, the call
that a `close` has woken finds no file at the number, is not left waiting, and returns
`EBADF` if it returns. -/
theorem closed_not_reused {event : IOManager.Event} {datas : Option FdContext}
    {labels : List Label} {w : World}
    (steps : Run.Steps step (fun w label => undisturbed w label = true)
      (World.new (.doIo event) datas) labels w)
    (byClose : w.byClose = true) :
    (∀ file ∈ w.reached, file = none) ∧ (w.pc = .parked → w.scheduled = true) ∧
      ∀ answer, w.pc = .returned answer → answer = .error .badf := by
  have woken : Woken w := steps.invariant
    (fun _ _ _ woken allowed stepped => woken_step woken allowed stepped) (woken_new event datas)
  refine ⟨woken.untouched, fun parked => ?_, fun answer returned => ?_⟩
  · rcases woken.back byClose with ⟨-, -, scheduled⟩ | ⟨h, -⟩ | h
    · exact scheduled
    · simp [parked] at h
    · simp [parked] at h
  · rcases woken.back byClose with ⟨h, -, -⟩ | ⟨h, -⟩ | h
    · simp [returned] at h
    · simp [returned] at h
    · exact Pc.returned.inj (returned.symm.trans h)

/-- A socket in blocking mode for the user. -/
def accepted : FdContext := (FdContext.init 0 ⟨true, 0⟩).2

/-- Another fiber closes the number while the call waits, then the call goes on. -/
def closedFirst : List Label :=
  [.enter, .io (.error .again), .arm, .add true, .yield, .closeGet 1, .cancelAll 1 true, .del 1,
    .closeFd 1, .resume, .cancelTimer, .check, .io (.value 5)]

theorem closed_not_reused_first :
    ∃ w, Run.Steps step (fun w label => undisturbed w label = true)
        (World.new (.doIo .read) (some accepted)) closedFirst w ∧
      w.byClose = true ∧ (∀ file ∈ w.reached, file = none) ∧
      (w.pc = .parked → w.scheduled = true) ∧
      ∀ answer, w.pc = .returned answer → answer = .error .badf := by
  obtain ⟨w, steps⟩ := Run.Steps.of_admissible step (fun w label => undisturbed w label = true)
    (World.new (.doIo .read) (some accepted)) closedFirst (by decide)
  have ends : ((Run.run step (World.new (.doIo .read) (some accepted)) closedFirst).map
      fun w => w.byClose) = some true := by decide
  rw [steps.run, Option.map_some, Option.some.injEq] at ends
  exact ⟨w, steps, ends, closed_not_reused steps ends⟩

/-- A third fiber is given the number before the woken call goes on: the call reads from
its file and returns what it finds there. -/
theorem closed_reused :
    ∃ w, Run.run step (World.new (.doIo .read) (some accepted))
        [.enter, .io (.error .again), .arm, .add true, .yield, .closeGet 1, .cancelAll 1 true,
          .del 1, .closeFd 1, .openFd 2, .manage 2, .resume, .cancelTimer, .check,
          .io (.value 5)] = some w ∧
      w.byClose = true ∧ w.reached = [some 1] ∧ w.pc = .returned (.value 5) := by
  have ends : ((Run.run step (World.new (.doIo .read) (some accepted))
      [.enter, .io (.error .again), .arm, .add true, .yield, .closeGet 1, .cancelAll 1 true,
        .del 1, .closeFd 1, .openFd 2, .manage 2, .resume, .cancelTimer, .check,
        .io (.value 5)]).map fun w => (w.byClose, w.reached, w.pc)) =
      some (true, [some 1], .returned (.value 5)) := by decide
  obtain ⟨w, ran, same⟩ := Option.map_eq_some_iff.mp ends
  refine ⟨w, ran, ?_⟩
  simpa using same

end ServerFrame.Hook
