import ServerFrame.Timer.Invariant

/-!
# What the operations on timers do

For each operation: it does not fault, it keeps the invariant, and which timers are in
the set and which objects are changed afterwards.
-/
namespace ServerFrame

variable {γ : Type}

namespace TimerManager

variable {out : Nat → Prop} {m : TimerManager γ} {i : Nat}

theorem run_find (i : Nat) (m : TimerManager γ) :
    find i m = .ok (OrderedSet.find m.less i m.timers) m := rfl

theorem run_erase {pre post : List Nat} (split : m.timers = pre ++ i :: post) :
    erase pre.length m = .ok () { m with timers := pre ++ post } := by
  have bound : pre.length < m.timers.length := by simp [split]
  have removed : m.timers.eraseIdx pre.length = pre ++ post := by
    simp [split, List.eraseIdx_append_of_length_le]
  simp [erase, EState.run_bind, bound, removed]

/-- A timer of the set is found and taken out. -/
theorem run_take {α : Type} {pre post : List Nat} (split : m.timers = pre ++ i :: post)
    (found : OrderedSet.find m.less i m.timers = pre.length) (missing rest : TimerM γ α) :
    (do
      let it ← find i
      if it = (← get).timers.length then missing
      else do
        erase it
        rest : TimerM γ α) m = rest { m with timers := pre ++ post } := by
  have inside : pre.length ≠ m.timers.length := by simp [split]
  rw [EState.run_bind_ok (run_find i m), found, EState.run_bind_ok (EState.run_get m),
    if_neg inside, EState.run_bind_ok (run_erase split)]

theorem run_setNext (not_in : i ∉ m.timers) (next : UInt64) :
    setNext i next m = .ok () (m.write i { m.objects i with next := next }) := by
  simp [setNext, EState.run_bind, not_in]

theorem run_insert (i : Nat) (m : TimerManager γ) :
    insert i m = .ok (OrderedSet.insert m.less i m.timers).1
      { m with timers := (OrderedSet.insert m.less i m.timers).2 } := rfl

/-- What `AddTimer(val, lock)` leaves behind. -/
structure Added (i : Nat) (notify : Bool) (m m' : TimerManager γ) : Prop where
  objects : m'.objects = m.objects
  made : m'.made = m.made
  mem : ∀ j, j ∈ m'.timers ↔ j ∈ m.timers ∨ j = i
  tickled : m'.tickled = (m.tickled || notify)
  silent : notify = false → m.tickled = true ∨ ∃ j ∈ m.timers, m.Before j i

theorem addTimerLocked_out (inv : Inv out m) (is_out : out i) :
    ∃ notify m', addTimerLocked i m = .ok notify m' ∧ Inv (fun j => out j ∧ j ≠ i) m' ∧
      Added i notify m m' := by
  obtain ⟨pre, post, split, inserted, before, -, inv'⟩ := inv.insert is_out
  refine ⟨pre.length == 0 && !m.tickled,
    { m with timers := pre ++ i :: post, tickled := m.tickled || pre.length == 0 }, ?_, ?_, ?_⟩
  · rw [addTimerLocked, EState.run_bind_ok (run_insert i m), inserted]
    cases pre <;> cases m.tickled <;> simp [EState.run_bind, EState.run_map]
  · exact ⟨inv'.sorted, inv'.live, inv'.apart, inv'.distinct⟩
  · refine ⟨rfl, rfl, fun j => ?_, ?_, fun silent => ?_⟩
    · rw [split]
      simp only [List.mem_append, List.mem_cons]
      tauto
    · cases m.tickled <;> simp
    · -- a timer that is not at the front stands behind an earlier one
      cases tickled : m.tickled with
      | true => exact .inl rfl
      | false =>
        rw [tickled, Bool.not_false, Bool.and_true] at silent
        cases pre with
        | nil => simp at silent
        | cons j pre => exact .inr ⟨j, by simp [split], before j (by simp)⟩

theorem run_getNextTimer (now : UInt64) (m : TimerManager γ) :
    ∃ ms, getNextTimer now m = .ok ms { m with tickled := false } := by
  rw [getNextTimer, EState.run_bind_ok (EState.run_modify _ m),
    EState.run_bind_ok (EState.run_get _)]
  dsimp only
  cases m.timers with
  | nil => exact ⟨_, rfl⟩
  | cons next rest =>
    dsimp only
    split <;> exact ⟨_, rfl⟩

end TimerManager

namespace Timer

open TimerManager

variable {out : Nat → Prop} {m : TimerManager γ} {i : Nat}

theorem cancel_dead (dead : (m.objects i).cb = none) : cancel i m = .ok false m := by
  simp [cancel, EState.run_bind, dead]

theorem cancel_live (inv : Inv out m) (member : i ∈ m.timers) :
    ∃ m', cancel i m = .ok true m' ∧ Inv out m' ∧
      m'.objects = Function.update m.objects i { m.objects i with cb := none } ∧
      m'.made = m.made ∧ m'.tickled = m.tickled ∧
      ∀ j, j ∈ m'.timers ↔ j ∈ m.timers ∧ j ≠ i := by
  obtain ⟨pre, post, split, found, inv'⟩ := inv.find_erase member
  have live := ((inv.live i).mp (.inl member)).2
  -- the key of the timer does not change with its callback
  have same_order : (m.write i { m.objects i with cb := none }).less = m.less := by
    funext j k
    rw [Bool.eq_iff_iff, less_iff, less_iff]
    by_cases first : j = i <;> by_cases second : k = i <;>
      simp [Before, write, first, second]
  refine ⟨{ m.write i { m.objects i with cb := none } with timers := pre ++ post }, ?_, ?_, rfl,
    rfl, rfl, ?_⟩
  · have found' := run_find i (m.write i { m.objects i with cb := none })
    rw [same_order, show (m.write i { m.objects i with cb := none }).timers = m.timers from rfl,
      found] at found'
    have removed := run_erase (m := m.write i { m.objects i with cb := none }) split
    calc cancel i m
        = (find i >>= fun it => erase it >>= fun _ => pure true)
            (m.write i { m.objects i with cb := none }) := by
          simp [cancel, EState.run_bind, live, setCb]
      _ = .ok true _ := by rw [EState.run_bind_ok found', EState.run_bind_ok removed, EState.run_pure]
  · exact (inv'.kill (.inr rfl)).congr fun j => by
      have not_out : ¬ out i := fun is_out => inv.apart i is_out member
      by_cases same : j = i
      · subst same
        simp [not_out]
      · simp [same]
  · have once := inv.nodup
    rw [split, List.nodup_middle, List.nodup_cons] at once
    intro j
    by_cases same : j = i
    · subst same
      simpa using once.1
    · simp [split, same]

theorem refresh_dead (dead : (m.objects i).cb = none) (now : UInt64) :
    refresh i now m = .ok false m := by
  simp [refresh, EState.run_bind, dead]

theorem refresh_live (inv : Inv out m) (member : i ∈ m.timers) (now : UInt64) :
    ∃ m', refresh i now m = .ok true m' ∧ Inv out m' ∧
      m'.objects = Function.update m.objects i
        { m.objects i with next := now + (m.objects i).ms } ∧
      m'.made = m.made ∧ m'.tickled = m.tickled ∧ ∀ j, j ∈ m'.timers ↔ j ∈ m.timers := by
  obtain ⟨pre, post, split, found, inv'⟩ := inv.find_erase member
  have live := ((inv.live i).mp (.inl member)).2
  have not_out : ¬ out i := fun is_out => inv.apart i is_out member
  have moved := inv'.write_out (.inr rfl)
    { m.objects i with next := now + (m.objects i).ms } rfl rfl
  obtain ⟨pre', post', split', inserted, -, -, inv''⟩ := moved.insert (.inr rfl)
  refine ⟨_, ?_, inv''.congr fun j => ?_, rfl, rfl, rfl, fun j => ?_⟩
  · have next := run_setNext (inv'.apart i (.inr rfl)) (now + (m.objects i).ms)
    have put := run_insert i (write { m with timers := pre ++ post } i
      { m.objects i with next := now + (m.objects i).ms })
    have here : ¬ (m.objects i).cb.isNone = true := by simpa [Option.isSome_iff_ne_none] using live
    rw [refresh, EState.run_bind_ok (EState.run_get m), if_neg here, run_take split found,
      EState.run_bind_ok (EState.run_get _), EState.run_bind_ok next]
    rw [inserted] at put
    rw [EState.run_bind_ok (EState.run_discard_ok put), EState.run_pure]
  · by_cases same : j = i
    · subst same
      simp [not_out]
    · simp [same]
  · have rest : pre ++ post = pre' ++ post' := split'
    have whole : j ∈ pre ++ post ↔ j ∈ pre' ++ post' := by rw [rest]
    simp only [List.mem_append, List.mem_cons, split] at whole ⊢
    tauto

theorem resetLocked_dead (dead : (m.objects i).cb = none) (ms : UInt64) (fromNow : Bool)
    (now : UInt64) : resetLocked i ms fromNow now m = .ok (false, false) m := by
  simp [resetLocked, EState.run_bind, dead]

/-- The deadline that `Reset` counts from. -/
def start (timer : Timer γ) (fromNow : Bool) (now : UInt64) : UInt64 :=
  if fromNow then now else timer.next - timer.ms

theorem resetLocked_live (inv : Inv out m) (member : i ∈ m.timers) (ms : UInt64) (fromNow : Bool)
    (now : UInt64) :
    ∃ mid notify m', resetLocked i ms fromNow now m = .ok (true, notify) m' ∧ Inv out m' ∧
      Added i notify mid m' ∧
      mid.objects = Function.update m.objects i
        { m.objects i with ms := ms, next := (m.objects i).start fromNow now + ms } ∧
      mid.made = m.made ∧ mid.tickled = m.tickled ∧
      ∀ j, j ∈ mid.timers ↔ j ∈ m.timers ∧ j ≠ i := by
  -- taken out, changed and put in again, so that the order never sees the change
  obtain ⟨pre, post, split, found, inv'⟩ := inv.find_erase member
  have live := ((inv.live i).mp (.inl member)).2
  have not_out : ¬ out i := fun is_out => inv.apart i is_out member
  have once := inv.nodup
  rw [split, List.nodup_middle, List.nodup_cons] at once
  have spaced := inv'.write_out (.inr rfl) { m.objects i with ms := ms } rfl rfl
  have moved := spaced.write_out (.inr rfl) { m.objects i with
    ms := ms, next := (m.objects i).start fromNow now + ms } (by simp [write]) (by simp [write])
  obtain ⟨notify, m', added, inv'', left⟩ := addTimerLocked_out moved (.inr rfl)
  refine ⟨_, notify, m', ?_, inv''.congr fun j => ?_, left, ?_, rfl, rfl, fun j => ?_⟩
  · have here : ¬ (m.objects i).cb.isNone = true := by simpa [Option.isSome_iff_ne_none] using live
    have next := run_setNext (spaced.apart i (.inr rfl)) ((m.objects i).start fromNow now + ms)
    have reset : setMs i ms { m with timers := pre ++ post } =
      .ok () (write { m with timers := pre ++ post } i { m.objects i with ms := ms }) := rfl
    rw [resetLocked, EState.run_bind_ok (EState.run_get m), if_neg here, run_take split found,
      EState.run_bind_ok (EState.run_get _)]
    simp only [write, Function.update_self, Function.update_idem] at next added
    simp only [start] at next added
    rw [EState.run_bind_ok reset]
    simp only [write]
    rw [EState.run_bind_ok next, EState.run_bind_ok added, EState.run_pure]
  · by_cases same : j = i
    · subst same
      simp [not_out]
    · simp [same]
  · simp [write]
  · by_cases same : j = i
    · subst same
      simpa [write] using once.1
    · simp [write, split, same]

end Timer

end ServerFrame
