import ServerFrame.Timer.Lifetime

/-!
# Timers that do not fire early

A call of `AddTimer`, `Refresh` or `Reset` from now on sets a deadline, the sum of the clock and
the period in 64 bits. What follows is about the time from there to the first `ListExpiredCb`
that collects the timer.
-/
namespace ServerFrame.Timers

open TimerManager

variable {γ : Type}

/-- The timer that a call arms, for how long, and the clock reading of the call. -/
def arms (m : TimerManager γ) : Call γ → Option (Nat × UInt64 × UInt64)
  | .addTimer _ ms _ _ now => some (m.made, ms, now)
  | .refresh i now => if i ∈ m.timers then some (i, (m.objects i).ms, now) else none
  | .reset i ms true now => if i ∈ m.timers then some (i, ms, now) else none
  | _ => none

/-- The call neither arms the timer nor collects it. -/
def leaves (i : Nat) (m : TimerManager γ) : Call γ → Prop
  | .refresh j _ => j ≠ i
  | .reset j _ _ _ => j ≠ i
  | .listExpiredCb now _ => i ∉ m.expired now
  | _ => True

/-- No `ListExpiredCb` collects the timer at a clock reading before `time`, unless it takes the
clock to have been turned back. -/
def NotBefore (w : World γ) (i time : Nat) : Prop :=
  ∀ calls w' now addr expired cbs m', Run.Steps step (fun w => leaves i w.manager) w calls w' →
    w'.manager.rollover now = false →
    listExpiredCb now addr w'.manager = .ok (expired, cbs) m' → i ∈ expired → time ≤ now.toNat

/-! ## The deadline -/

section Deadline

variable {m m' : TimerManager γ} {i : Nat} {outcome : Outcome γ}

/-- What a call has done, for the part of the result that is asked for. -/
theorem exec_ok {call : Call γ} {P : TimerManager γ → Prop} (ran : exec call m = .ok outcome m')
    (spec : ∃ outcome' m'', exec call m = .ok outcome' m'' ∧ P m'') : P m' := by
  obtain ⟨outcome', m'', ran', holds⟩ := spec
  rw [ran] at ran'
  cases ran'
  exact holds

/-- A call that arms a timer puts it into the set with the sum as its deadline. -/
theorem exec_arms (inv : Inv (fun _ => False) m) {call : Call γ} (can : possible m call = true)
    {ms now : UInt64} (armed : arms m call = some (i, ms, now))
    (ran : exec call m = .ok outcome m') : i ∈ m'.timers ∧ (m'.objects i).next = now + ms := by
  apply exec_ok ran
  cases call with
  | addTimer addr ms cb recurring now =>
    cases armed
    have fresh : ∀ j ∈ m.timers, (m.objects j).addr ≠ addr := by simpa [possible] using can
    obtain ⟨notify, m', ran, -, -, objects, mem⟩ := addTimer_added inv ms cb recurring now fresh
    refine ⟨.added m.made, m', ?_, (mem _).mpr (.inr rfl), ?_⟩
    · rw [exec, EState.run_bind_ok ran]
      rfl
    · rw [objects, Function.update_self]
      rfl
  | refresh j now =>
    obtain ⟨member, same⟩ := Option.ite_none_right_eq_some.mp armed
    cases same
    obtain ⟨m', ran, -, objects, -, -, mem⟩ := Timer.refresh_live inv member now
    refine ⟨.refreshed i true, m', ?_, (mem i).mpr member, ?_⟩
    · rw [exec, EState.run_bind_ok ran, EState.run_pure]
    · rw [objects, Function.update_self]
  | reset j ms fromNow now =>
    cases fromNow with
    | false => cases armed
    | true =>
      obtain ⟨member, same⟩ := Option.ite_none_right_eq_some.mp armed
      cases same
      obtain ⟨mid, notify, m', ran, -, added, objects, -, -, -⟩ :=
        Timer.resetLocked_live inv member ms true now
      have reset : Timer.reset i ms true now m = .ok (true, notify) m' := by
        rw [Timer.reset, EState.run_bind_ok (EState.run_get m), Bool.not_true, Bool.and_false,
          if_neg Bool.false_ne_true, ran]
      refine ⟨.reset i true, m', ?_, (added.mem i).mpr (.inr rfl), ?_⟩
      · rw [exec, EState.run_bind_ok reset]
        rfl
      · rw [added.objects, objects, Function.update_self]
        rfl
  | cancel | getNextTimer | listExpiredCb => cases armed

theorem reset_leaves (inv : Inv (fun _ => False) m) {j : Nat} (made : j < m.made) (other : j ≠ i)
    (ms : UInt64) (fromNow : Bool) (now : UInt64) :
    ∃ result m', Timer.reset j ms fromNow now m = .ok result m' ∧ m'.objects i = m.objects i := by
  by_cases same : (ms = (m.objects j).ms && !fromNow) = true
  · refine ⟨(true, false), m, ?_, rfl⟩
    rw [Timer.reset, EState.run_bind_ok (EState.run_get m), if_pos same, EState.run_pure]
  · rw [Timer.reset, EState.run_bind_ok (EState.run_get m), if_neg same]
    rcases mem_or_dead inv made with member | dead
    · obtain ⟨mid, notify, m', ran, -, added, objects, -, -, -⟩ :=
        Timer.resetLocked_live inv member ms fromNow now
      refine ⟨_, m', ran, ?_⟩
      rw [added.objects, objects, Function.update_of_ne (Ne.symm other)]
    · exact ⟨_, m, Timer.resetLocked_dead dead ms fromNow now, rfl⟩

/-- The other calls leave the deadline of the timer as it is. -/
theorem exec_leaves (inv : Inv (fun _ => False) m) {call : Call γ}
    (can : possible m call = true) (left : leaves i m call) (made : i < m.made)
    (ran : exec call m = .ok outcome m') : (m'.objects i).next = (m.objects i).next := by
  apply exec_ok (P := fun m' => (m'.objects i).next = (m.objects i).next) ran
  cases call with
  | addTimer addr ms cb recurring now =>
    have fresh : ∀ j ∈ m.timers, (m.objects j).addr ≠ addr := by simpa [possible] using can
    obtain ⟨notify, m', ran, -, -, objects, -⟩ := addTimer_added inv ms cb recurring now fresh
    refine ⟨.added m.made, m', ?_, ?_⟩
    · rw [exec, EState.run_bind_ok ran]
      rfl
    · rw [objects, Function.update_of_ne (Nat.ne_of_lt made)]
  | cancel j =>
    rcases mem_or_dead inv (of_decide_eq_true can) with member | dead
    · obtain ⟨m', ran, -, objects, -, -, -⟩ := Timer.cancel_live inv member
      refine ⟨.cancelled j true, m', ?_, ?_⟩
      · rw [exec, EState.run_bind_ok ran, EState.run_pure]
      · -- a timer that is cancelled keeps its deadline
        rw [objects]
        by_cases same : i = j
        · subst same
          rw [Function.update_self]
        · rw [Function.update_of_ne same]
    · refine ⟨.cancelled j false, m, ?_, rfl⟩
      rw [exec, EState.run_bind_ok (Timer.cancel_dead dead), EState.run_pure]
  | refresh j now =>
    rcases mem_or_dead inv (of_decide_eq_true can) with member | dead
    · obtain ⟨m', ran, -, objects, -, -, -⟩ := Timer.refresh_live inv member now
      refine ⟨.refreshed j true, m', ?_, ?_⟩
      · rw [exec, EState.run_bind_ok ran, EState.run_pure]
      · rw [objects, Function.update_of_ne (Ne.symm left)]
    · refine ⟨.refreshed j false, m, ?_, rfl⟩
      rw [exec, EState.run_bind_ok (Timer.refresh_dead dead now), EState.run_pure]
  | reset j ms fromNow now =>
    obtain ⟨result, m', ran, same⟩ := reset_leaves inv (of_decide_eq_true can) left ms fromNow now
    refine ⟨.reset j result.1, m', ?_, congrArg Timer.next same⟩
    rw [exec, EState.run_bind_ok ran]
    rfl
  | getNextTimer now =>
    obtain ⟨ms, ran⟩ := run_getNextTimer now m
    refine ⟨.next ms, { m with tickled := false }, ?_, rfl⟩
    rw [exec, EState.run_bind_ok ran, EState.run_pure]
  | listExpiredCb now addr =>
    obtain ⟨m', ran, did⟩ := listExpiredCb_spec inv now addr
    refine ⟨.listed (m.expired now) ((m.expired now).map fun j => (m.objects j).cb), m', ?_, ?_⟩
    · rw [exec, EState.run_bind_ok ran]
      rfl
    · rw [did.others i made left]

/-- A step of a run without faults, taken apart. -/
theorem step_ok {w w' : World γ} {call : Call γ} (sound : Sound w)
    (stepped : step w call = some w') :
    possible w.manager call = true ∧ ∃ outcome, exec call w.manager = .ok outcome w'.manager := by
  simp only [step, sound.fault, Option.isSome_none, Bool.false_or] at stepped
  split at stepped
  next => cases stepped
  next can =>
    have can : possible w.manager call = true := by simpa using can
    obtain ⟨outcome, m', ran, -⟩ := exec_spec sound.inv call can
    simp only [ran, Option.some.injEq] at stepped
    subst stepped
    exact ⟨can, outcome, ran⟩

end Deadline

/-! ## From the call to the collection -/

section Collection

variable {w w₁ w' : World γ} {i : Nat}

/-- A timer that is armed for `deadline`, as long as it is in the set. -/
structure Due (i : Nat) (deadline : UInt64) (w : World γ) : Prop where
  sound : Sound w
  made : i < w.manager.made
  next : (w.manager.objects i).next = deadline

theorem due_armed {call : Call γ} {ms now : UInt64} (sound : Sound w)
    (stepped : step w call = some w₁) (armed : arms w.manager call = some (i, ms, now)) :
    Due i (now + ms) w₁ ∧ i ∈ w₁.manager.timers := by
  have sound₁ := sound_step sound stepped
  obtain ⟨can, outcome, ran⟩ := step_ok sound stepped
  obtain ⟨member, next⟩ := exec_arms sound.inv can armed ran
  exact ⟨⟨sound₁, ((sound₁.inv.live i).mp (.inl member)).1, next⟩, member⟩

theorem Due.steps {deadline : UInt64} {calls : List (Call γ)} (due : Due i deadline w)
    (steps : Run.Steps step (fun w => leaves i w.manager) w calls w') : Due i deadline w' := by
  refine steps.invariant (P := Due i deadline) ?_ due
  intro s call s' due left stepped
  obtain ⟨can, outcome, ran⟩ := step_ok due.sound stepped
  obtain ⟨outcome', m', ran', fine⟩ := exec_spec due.sound.inv call can
  rw [ran] at ran'
  cases ran'
  exact ⟨sound_step due.sound stepped, Nat.lt_of_lt_of_le due.made fine.keeps.made,
    (exec_leaves due.sound.inv can left due.made ran).trans due.next⟩

/-- Adding a timer does not look back in time. -/
theorem previouseTime_addTimer {m m' : TimerManager γ} {addr : Nat} {ms now : UInt64}
    {cb : Option γ} {recurring : Bool} {result : Nat × Bool}
    (ran : addTimer addr ms cb recurring now m = .ok result m') :
    m'.previouseTime = m.previouseTime := by
  have locked : ∀ {mid : TimerManager γ} {notify : Bool},
      addTimerLocked m.made mid = .ok notify m' → m'.previouseTime = mid.previouseTime := by
    intro mid notify ran
    rw [addTimerLocked, EState.run_bind_ok (run_insert _ mid),
      EState.run_bind_ok (EState.run_get _)] at ran
    dsimp only at ran
    split at ran
    next =>
      rw [EState.run_bind_ok (EState.run_set _ _), EState.run_pure] at ran
      cases ran
      rfl
    next =>
      cases ran
      rfl
  have made : make (.new addr ms cb recurring now) m = .ok m.made _ := rfl
  rw [addTimer, EState.run_bind_ok made, EState.run_bind] at ran
  split at ran
  next notify mid added =>
    cases ran
    have same := locked added
    exact same
  next => cases ran

/-- What is collected without a rollover is due. -/
theorem next_le_of_collected {now : UInt64} {addr : Nat} {expired : List Nat}
    {cbs : List (Option γ)} {m' : TimerManager γ} (sound : Sound w)
    (steady : w.manager.rollover now = false)
    (ran : listExpiredCb now addr w.manager = .ok (expired, cbs) m') (member : i ∈ expired) :
    (w.manager.objects i).next ≤ now := by
  obtain ⟨m'', ran', -⟩ := listExpiredCb_spec sound.inv now addr
  rw [ran] at ran'
  cases ran'
  rw [TimerManager.expired, if_neg (by simp [steady])] at member
  exact of_decide_eq_true (List.mem_filter.mp member).2

theorem rollover_eq_false {m : TimerManager γ} {now : UInt64} (notBack : m.previouseTime ≤ now) :
    m.rollover now = false := by
  rw [rollover, decide_eq_false (UInt64.not_lt.mpr notBack), Bool.false_and]

/-- A look at the set when the clock has reached the deadline collects the timer. -/
theorem NotBefore.le_of_due {deadline now : UInt64} {time : Nat} (notBefore : NotBefore w i time)
    (due : Due i deadline w) (member : i ∈ w.manager.timers)
    (notBack : w.manager.previouseTime ≤ now) (reached : deadline ≤ now) : time ≤ now.toNat := by
  have steady := rollover_eq_false notBack
  obtain ⟨m', ran, -⟩ := listExpiredCb_spec due.sound.inv now 0
  apply notBefore [] w now 0 _ _ m' (.nil w) steady ran
  rw [TimerManager.expired, if_neg (by simp [steady])]
  exact List.mem_filter.mpr ⟨member, decide_eq_true (due.next ▸ reached)⟩

/-- A timer in the set is collected before a time that is to come exactly when its deadline is
before that time. -/
theorem notBefore_iff {deadline : UInt64} (due : Due i deadline w)
    (member : i ∈ w.manager.timers) {now : UInt64} (notBack : w.manager.previouseTime ≤ now)
    {time : Nat} (later : now.toNat < time ∨ time ≤ deadline.toNat) :
    NotBefore w i time ↔ time ≤ deadline.toNat := by
  constructor
  · intro notBefore
    rcases later with later | late
    swap
    · exact late
    rcases UInt64.le_total now deadline with behind | wrapped
    · exact notBefore.le_of_due due member (UInt64.le_trans notBack behind) (UInt64.le_refl _)
    · -- a deadline in the past is met at once
      have early := notBefore.le_of_due due member notBack wrapped
      exact absurd later (Nat.not_lt.mpr early)
  · intro late calls w' now addr expired cbs m' steps steady ran inside
    have due' := due.steps steps
    have reached := next_le_of_collected due'.sound steady ran inside
    rw [due'.next] at reached
    exact Nat.le_trans late (UInt64.le_iff_toNat_le.mp reached)

/-- A wrapped sum is below what it stands for. -/
theorem le_toNat_add_iff (now ms : UInt64) :
    now.toNat + ms.toNat ≤ (now + ms).toNat ↔ now.toNat + ms.toNat < 2 ^ 64 := by
  rw [UInt64.toNat_add]
  constructor
  · intro le
    exact Nat.lt_of_le_of_lt le (Nat.mod_lt _ (by decide))
  · intro fits
    exact Nat.le_of_eq (Nat.mod_eq_of_lt fits).symm

/-- A timer that is armed at a reading of the clock does not fire early exactly when its deadline
fits into 64 bits. -/
theorem armed_onTime_iff {call : Call γ} {ms now : UInt64} (sound : Sound w)
    (stepped : step w call = some w₁) (armed : arms w.manager call = some (i, ms, now))
    (notBack : w₁.manager.previouseTime ≤ now) :
    NotBefore w₁ i (now.toNat + ms.toNat) ↔ now.toNat + ms.toNat < 2 ^ 64 := by
  obtain ⟨due, member⟩ := due_armed sound stepped armed
  rw [← le_toNat_add_iff]
  apply notBefore_iff due member notBack
  rcases Nat.eq_zero_or_pos ms.toNat with none | some
  · right
    rw [le_toNat_add_iff, none]
    exact UInt64.toNat_lt _
  · exact .inl (Nat.lt_add_of_pos_right some)

end Collection

end ServerFrame.Timers
