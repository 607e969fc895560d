import ServerFrame.Timer.Operations
import ServerFrame.Lib.Run

/-!
# Threads that wait for the next timer

Any number of threads call the operations of one `TimerManager`. A step is what a thread
does under the lock, and what it does before or behind it: `AddTimer` reads the clock
before it takes the lock, `Reset` makes its first test without it, and
`OnTimerInsertedAtFront` is called when the lock has been released.

`looks` counts the calls of `GetNextTimer`, `seen` is the earliest deadline the last of
them saw, and `called` tells whether since then a thread has decided to call
`OnTimerInsertedAtFront` and called it. These three are not in the source.
-/
namespace ServerFrame.Timers.Wakeup

open TimerManager

variable {γ : Type}

/-- Where a thread stands. -/
inductive Pc where
  | idle
  /-- `AddTimer`: the timer is made and the lock not yet taken. -/
  | insert (i : Nat)
  /-- `Reset`: behind the first test, before the lock. -/
  | reset (i : Nat) (ms : UInt64) (fromNow : Bool)
  /-- The lock is released and `OnTimerInsertedAtFront` will be called; `looks` is the
  count at the time of this decision. -/
  | notify (looks : Nat)
  deriving DecidableEq

structure State (γ : Type) where
  manager : TimerManager γ
  clock : UInt64
  pc : Nat → Pc
  /-- Timers that `AddTimer` has put into the set: callers may have them. -/
  published : List Nat
  looks : Nat
  seen : Option UInt64
  called : Bool

def State.new (now : UInt64) : State γ where
  manager := .new now
  clock := now
  pc := fun _ => .idle
  published := []
  looks := 0
  seen := none
  called := false

inductive Label (γ : Type) where
  | tick (now : UInt64)
  | construct (t addr : Nat) (ms : UInt64) (cb : γ) (recurring : Bool)
  | insert (t : Nat)
  | notify (t : Nat)
  | cancel (t i : Nat)
  | refresh (t i : Nat)
  | resetTest (t i : Nat) (ms : UInt64) (fromNow : Bool)
  | reset (t : Nat)
  | getNextTimer (t : Nat)

def State.goto (s : State γ) (t : Nat) (pc : Pc) : State γ :=
  { s with pc := Function.update s.pc t pc }

/-- Behind the lock, with the answer of `AddTimer(val, lock)`. -/
def State.unlock (s : State γ) (t : Nat) (notify : Bool) : State γ :=
  s.goto t (if notify then .notify s.looks else .idle)

def step (s : State γ) : Label γ → Option (State γ)
  | .tick now => if s.clock ≤ now then some { s with clock := now } else none
  | .construct t addr ms cb recurring =>
    if s.pc t = .idle ∧ ∀ i < s.manager.made, (s.manager.objects i).cb.isSome →
        (s.manager.objects i).addr ≠ addr then
      match make (.new addr ms (some cb) recurring s.clock) s.manager with
      | .ok i m => some ({ s with manager := m }.goto t (.insert i))
      | .error _ _ => none
    else none
  | .insert t =>
    match s.pc t with
    | .insert i =>
      match addTimerLocked i s.manager with
      | .ok notify m =>
        some ({ s with manager := m, published := s.published ++ [i] }.unlock t notify)
      | .error _ _ => none
    | _ => none
  | .notify t =>
    match s.pc t with
    | .notify looks => some ({ s with called := s.called || looks == s.looks }.goto t .idle)
    | _ => none
  | .cancel t i =>
    if s.pc t = .idle ∧ i ∈ s.published then
      match Timer.cancel i s.manager with
      | .ok _ m => some { s with manager := m }
      | .error _ _ => none
    else none
  | .refresh t i =>
    if s.pc t = .idle ∧ i ∈ s.published then
      match Timer.refresh i s.clock s.manager with
      | .ok _ m => some { s with manager := m }
      | .error _ _ => none
    else none
  | .resetTest t i ms fromNow =>
    if s.pc t = .idle ∧ i ∈ s.published then
      if ms = (s.manager.objects i).ms && !fromNow then some s
      else some (s.goto t (.reset i ms fromNow))
    else none
  | .reset t =>
    match s.pc t with
    | .reset i ms fromNow =>
      match Timer.resetLocked i ms fromNow s.clock s.manager with
      | .ok (_, notify) m => some ({ s with manager := m }.unlock t notify)
      | .error _ _ => none
    | _ => none
  | .getNextTimer t =>
    if s.pc t = .idle then
      match getNextTimer s.clock s.manager with
      | .ok _ m => some { s with
          manager := m
          looks := s.looks + 1
          seen := m.timers.head?.map fun i => (m.objects i).next
          called := false }
      | .error _ _ => none
    else none

/-- No addition of the step leaves the 64 bits. -/
def noOverflow (s : State γ) : Label γ → Bool
  | .construct _ _ ms _ _ => decide (s.clock.toNat + ms.toNat < 2 ^ 64)
  | .refresh _ i => decide (s.clock.toNat + (s.manager.objects i).ms.toNat < 2 ^ 64)
  | .reset t =>
    match s.pc t with
    | .reset i ms fromNow =>
      decide (((s.manager.objects i).start fromNow s.clock).toNat + ms.toNat < 2 ^ 64)
    | _ => true
  | _ => true

/-- The timer that a thread has made and not yet put into the set. -/
def State.Making (s : State γ) (i : Nat) : Prop := ∃ t, s.pc t = .insert i

/-- A timer's period has begun by `clock`. -/
def Begun (clock : UInt64) (timer : Timer γ) : Prop :=
  timer.ms.toNat ≤ timer.next.toNat ∧ timer.next.toNat ≤ clock.toNat + timer.ms.toNat

/-- No timer of the set is earlier than what the last `GetNextTimer` saw. -/
def State.NoneEarlier (s : State γ) : Prop :=
  ∀ i ∈ s.manager.timers, ∃ seen, s.seen = some seen ∧ seen ≤ (s.manager.objects i).next

/-- Since the last `GetNextTimer` a thread has called `OnTimerInsertedAtFront`, or will. -/
def State.Notified (s : State γ) : Prop := s.called = true ∨ ∃ t, s.pc t = .notify s.looks

structure Sound (s : State γ) : Prop where
  inv : Inv s.Making s.manager
  maker : ∀ t t' i, s.pc t = .insert i → s.pc t' = .insert i → t = t'
  begun : ∀ i, s.manager.Live i → Begun s.clock (s.manager.objects i)
  published : ∀ i ∈ s.published, i < s.manager.made ∧ ¬ s.Making i
  resets : ∀ t i ms fromNow, s.pc t = .reset i ms fromNow → i ∈ s.published
  silent : 0 < s.looks → s.manager.tickled = false → s.NoneEarlier
  told : 0 < s.looks → s.manager.tickled = true → s.Notified

theorem sound_new (now : UInt64) : Sound (State.new (γ := γ) now) := by
  refine ⟨⟨List.Pairwise.nil, fun i => ?_, ?_, ?_⟩, ?_, ?_, ?_, ?_, ?_, ?_⟩
  · simp [State.new, State.Making, TimerManager.new, Live]
  · rintro i ⟨t, making⟩
    cases making
  · rintro i j ⟨bound, -⟩
    exact absurd bound (Nat.not_lt_zero i)
  · intro t t' i making
    cases making
  · rintro i ⟨bound, -⟩
    exact absurd bound (Nat.not_lt_zero i)
  · simp [State.new]
  · intro t i ms fromNow resets
    cases resets
  · intro looked
    exact absurd looked (Nat.lt_irrefl 0)
  · intro looked
    exact absurd looked (Nat.lt_irrefl 0)

theorem begun_new {clock ms : UInt64} (fits : clock.toNat + ms.toNat < 2 ^ 64) (timer : Timer γ)
    (period : timer.ms = ms) (deadline : timer.next = clock + ms) : Begun clock timer := by
  have sum : timer.next.toNat = clock.toNat + ms.toNat := by
    rw [deadline, UInt64.toNat_add, Nat.mod_eq_of_lt fits]
  rw [Begun, sum, period]
  omega

theorem Begun.mono {clock now : UInt64} {timer : Timer γ} (begun : Begun clock timer)
    (later : clock ≤ now) : Begun now timer := by
  have := UInt64.le_iff_toNat_le.mp later
  exact ⟨begun.1, by have := begun.2; omega⟩

/-- Counted from the present, a timer is not earlier than it was. -/
theorem Begun.refresh {clock : UInt64} {timer : Timer γ} (begun : Begun clock timer)
    (fits : clock.toNat + timer.ms.toNat < 2 ^ 64) : timer.next ≤ clock + timer.ms := by
  rw [UInt64.le_iff_toNat_le, UInt64.toNat_add, Nat.mod_eq_of_lt fits]
  exact begun.2

/-- The start of a period is not in the future. -/
theorem Begun.start {clock : UInt64} {timer : Timer γ} (begun : Begun clock timer)
    (fromNow : Bool) : timer.start fromNow clock ≤ clock := by
  cases fromNow with
  | true => exact UInt64.le_refl clock
  | false =>
    obtain ⟨under, upper⟩ := begun
    rw [Timer.start, if_neg Bool.false_ne_true, UInt64.le_iff_toNat_le,
      UInt64.toNat_sub_of_le _ _ (UInt64.le_iff_toNat_le.mpr under)]
    omega

/-! ## One lemma for each kind of step -/

section Steps

variable {s s' : State γ} {t i : Nat}

theorem goto_pc (s : State γ) (t : Nat) (pc : Pc) (t' : Nat) :
    (s.goto t pc).pc t' = if t' = t then pc else s.pc t' := by
  simp [State.goto, Function.update_apply]

theorem sound_tick {now : UInt64} (sound : Sound s) (later : s.clock ≤ now) :
    Sound { s with clock := now } :=
  ⟨sound.inv, sound.maker, fun i live => (sound.begun i live).mono later, sound.published,
    sound.resets, sound.silent, sound.told⟩

theorem sound_construct {timer : Timer γ} (sound : Sound s) (idle : s.pc t = .idle)
    (live : timer.cb.isSome) (begun : Begun s.clock timer)
    (fresh : ∀ j, s.manager.Live j → (s.manager.objects j).addr ≠ timer.addr) :
    Sound ({ s with manager := { s.manager with
      objects := Function.update s.manager.objects s.manager.made timer
      made := s.manager.made + 1 } }.goto t (.insert s.manager.made)) := by
  -- the clock was read before the lock is taken, so the new timer waits outside of the set
  have not_made : ¬ s.Making s.manager.made := sound.inv.made_not_out
  have inv := sound.inv.make_live _ live fresh
  generalize grown : ({ s.manager with
    objects := Function.update s.manager.objects s.manager.made timer
    made := s.manager.made + 1 } : TimerManager γ) = m at inv ⊢
  have made : m.made = s.manager.made + 1 := by rw [← grown]
  have timers : m.timers = s.manager.timers := by rw [← grown]
  have tickled : m.tickled = s.manager.tickled := by rw [← grown]
  have new : m.objects s.manager.made = timer := by rw [← grown]; exact Function.update_self ..
  have old : ∀ j, j ≠ s.manager.made → m.objects j = s.manager.objects j := fun j ne => by
    rw [← grown]
    exact Function.update_of_ne ne ..
  have pc : ∀ t', ({ s with manager := m }.goto t (.insert s.manager.made)).pc t' =
    if t' = t then .insert s.manager.made else s.pc t' := goto_pc _ _ _
  refine ⟨inv.congr fun j => ?_, fun t₁ t₂ j first second => ?_, fun j is_live => ?_,
    fun j member => ?_, fun t' j ms fromNow resets => ?_, fun looked silent j member => ?_,
    fun looked told => ?_⟩
  · -- the objects that are being made are those of before and the new one
    constructor
    · rintro ⟨t', making⟩
      rw [pc] at making
      split at making
      next => exact .inr (Pc.insert.inj making).symm
      next => exact .inl ⟨t', making⟩
    · rintro (⟨t', making⟩ | rfl)
      · have ne : t' ≠ t := by
          rintro rfl
          rw [idle] at making
          cases making
        exact ⟨t', by rw [pc, if_neg ne, making]⟩
      · exact ⟨t, by rw [pc, if_pos rfl]⟩
  · rw [pc] at first second
    split at first <;> split at second
    next same same' => rw [same, same']
    next => exact absurd ⟨t₂, (Pc.insert.inj first).symm ▸ second⟩ not_made
    next => exact absurd ⟨t₁, (Pc.insert.inj second).symm ▸ first⟩ not_made
    next => exact sound.maker t₁ t₂ j first second
  · -- the deadline of the new timer was reckoned from a clock that has been
    by_cases same : j = s.manager.made
    · rw [same]
      exact new ▸ begun
    · have was_live : s.manager.Live j := by
        obtain ⟨bound, callback⟩ : j < m.made ∧ (m.objects j).cb.isSome := is_live
        exact ⟨by omega, old j same ▸ callback⟩
      exact old j same ▸ sound.begun j was_live
  · -- the set holds none that is being made
    obtain ⟨bound, not_making⟩ := sound.published j member
    have bound' : j < m.made := by omega
    refine ⟨bound', ?_⟩
    rintro ⟨t', making⟩
    rw [pc] at making
    split at making
    next => exact Nat.ne_of_gt bound (Pc.insert.inj making)
    next => exact not_making ⟨t', making⟩
  · rw [pc] at resets
    split at resets
    next => cases resets
    next => exact sound.resets t' j ms fromNow resets
  · have member' : j ∈ s.manager.timers := timers ▸ member
    have ne : j ≠ s.manager.made := by
      rintro rfl
      exact sound.inv.made_not_mem member'
    obtain ⟨seen, saw, before⟩ := sound.silent looked (tickled ▸ silent) j member'
    exact ⟨seen, saw, old j ne ▸ before⟩
  · rcases sound.told looked (tickled ▸ told) with called | ⟨t', notify⟩
    · exact .inl called
    · have ne : t' ≠ t := by
        rintro rfl
        rw [idle] at notify
        cases notify
      exact .inr ⟨t', by rw [pc, if_neg ne, notify]; rfl⟩

/-- A thread that releases the lock, with `m` as it leaves the manager. -/
theorem sound_unlock {m : TimerManager γ} {notify : Bool} {published : List Nat} (sound : Sound s)
    (quiet : ∀ looks, s.pc t ≠ .notify looks)
    (inv : Inv (fun j => s.Making j ∧ s.pc t ≠ .insert j) m)
    (begun : ∀ j, m.Live j → Begun s.clock (m.objects j))
    (known : ∀ j ∈ published, j < m.made ∧ (s.Making j → s.pc t = .insert j))
    (more : ∀ j ∈ s.published, j ∈ published)
    (tickled : m.tickled = (s.manager.tickled || notify))
    (later : s.manager.tickled = false → notify = false → ∀ j ∈ m.timers,
      ∃ k ∈ s.manager.timers, (s.manager.objects k).next ≤ (m.objects j).next) :
    Sound ({ s with manager := m, published := published }.unlock t notify) := by
  have pc : ∀ t', ({ s with manager := m, published := published }.unlock t notify).pc t' =
    if t' = t then if notify then .notify s.looks else .idle else s.pc t' := goto_pc _ _ _
  have pc_insert : ∀ t' j, ({ s with manager := m, published := published }.unlock t notify).pc t' =
      .insert j ↔ t' ≠ t ∧ s.pc t' = .insert j := by
    intro t' j
    rw [pc]
    split
    next same => cases notify <;> simp [same]
    next other => simp [other]
  refine ⟨inv.congr fun j => ?_, fun t₁ t₂ j first second => ?_, begun, fun j member => ?_,
    fun t' j ms fromNow resets => ?_, fun looked silent j member => ?_, fun looked told => ?_⟩
  · constructor
    · rintro ⟨t', making⟩
      obtain ⟨ne, making⟩ := (pc_insert t' j).mp making
      exact ⟨⟨t', making⟩, fun own => ne (sound.maker t' t j making own)⟩
    · rintro ⟨⟨t', making⟩, other⟩
      refine ⟨t', (pc_insert t' j).mpr ⟨?_, making⟩⟩
      rintro rfl
      exact other making
  · exact sound.maker t₁ t₂ j ((pc_insert t₁ j).mp first).2 ((pc_insert t₂ j).mp second).2
  · refine ⟨(known j member).1, ?_⟩
    rintro ⟨t', making⟩
    obtain ⟨ne, making⟩ := (pc_insert t' j).mp making
    exact ne (sound.maker t' t j making ((known j member).2 ⟨t', making⟩))
  · rw [pc] at resets
    split at resets
    next => cases notify <;> cases resets
    next => exact more j (sound.resets t' j ms fromNow resets)
  · -- nothing was put at the front, so what the last look saw is still the earliest
    have both : (s.manager.tickled || notify) = false := tickled ▸ silent
    rw [Bool.or_eq_false_iff] at both
    obtain ⟨k, inside, before⟩ := later both.1 both.2 j member
    obtain ⟨seen, saw, first⟩ := sound.silent looked both.1 k inside
    exact ⟨seen, saw, UInt64.le_trans first before⟩
  · have either : (s.manager.tickled || notify) = true := tickled ▸ told
    -- either this thread goes to notify, or the earlier one still does
    cases front : notify with
    | true => exact .inr ⟨t, by rw [← front, pc, if_pos rfl, if_pos front]; rfl⟩
    | false =>
      rw [front, Bool.or_false] at either
      rcases sound.told looked either with called | ⟨t', waiting⟩
      · exact .inl called
      · have ne : t' ≠ t := by
          rintro rfl
          exact quiet _ waiting
        exact .inr ⟨t', by rw [← front, pc, if_neg ne, waiting]; rfl⟩

theorem unlock_idle (idle : s.pc t = .idle) (m : TimerManager γ) :
    { s with manager := m, published := s.published }.unlock t false = { s with manager := m } := by
  simp [State.unlock, State.goto, ← idle]

/-- The locked part of an operation on a published timer. -/
theorem mem_or_dead (sound : Sound s) (published : i ∈ s.published) :
    i ∈ s.manager.timers ∨ (s.manager.objects i).cb = none := by
  obtain ⟨made, not_making⟩ := sound.published i published
  cases callback : (s.manager.objects i).cb with
  | none => exact .inr rfl
  | some cb =>
    exact .inl (((sound.inv.live i).mpr ⟨made, by simp [callback]⟩).resolve_right not_making)

theorem sound_insert (sound : Sound s) (holds : s.pc t = .insert i) :
    ∃ notify m, addTimerLocked i s.manager = .ok notify m ∧
      Sound ({ s with manager := m, published := s.published ++ [i] }.unlock t notify) := by
  have making : s.Making i := ⟨t, holds⟩
  obtain ⟨notify, m, ran, inv, added⟩ := addTimerLocked_out sound.inv making
  refine ⟨notify, m, ran, sound_unlock sound ?_ ?_ ?_ ?_ ?_ added.tickled ?_⟩
  · intro looks
    rw [holds]
    rintro ⟨⟩
  · apply inv.congr
    intro j
    rw [holds, ne_eq, Pc.insert.injEq, eq_comm]
  · intro j live
    rw [added.objects]
    apply sound.begun
    exact ⟨added.made ▸ live.1, added.objects ▸ live.2⟩
  · intro j member
    rw [added.made]
    rcases List.mem_append.mp member with member | last
    · obtain ⟨bound, not_making⟩ := sound.published j member
      exact ⟨bound, fun making => absurd making not_making⟩
    · -- only this thread was making it
      rw [List.mem_singleton.mp last]
      exact ⟨((sound.inv.live i).mp (.inr making)).1, fun _ => holds⟩
  · intro j member
    exact List.mem_append_left _ member
  · intro not_tickled silent j member
    rw [added.objects]
    rcases (added.mem j).mp member with member | rfl
    · exact ⟨j, member, UInt64.le_refl _⟩
    · -- the new timer is not at the front
      rcases added.silent silent with tickled | ⟨k, inside, before⟩
      · rw [not_tickled] at tickled
        cases tickled
      · refine ⟨k, inside, ?_⟩
        rcases before with earlier | ⟨same, -⟩
        · exact UInt64.le_of_lt earlier
        · exact same ▸ UInt64.le_refl _

theorem begun_update {m : TimerManager γ} {timer : Timer γ} (sound : Sound s)
    (objects : m.objects = Function.update s.manager.objects i timer)
    (made : m.made = s.manager.made) (begun : timer.cb.isSome → Begun s.clock timer) (j : Nat)
    (live : m.Live j) : Begun s.clock (m.objects j) := by
  obtain ⟨bound, callback⟩ := live
  rw [objects] at callback ⊢
  by_cases same : j = i
  · subst same
    rw [Function.update_self] at callback ⊢
    exact begun callback
  · rw [Function.update_of_ne same] at callback ⊢
    exact sound.begun j ⟨made ▸ bound, callback⟩

/-- The locked part of an operation that puts no new timer into the set. -/
theorem sound_locked {m : TimerManager γ} {notify : Bool} (sound : Sound s)
    (quiet : ∀ looks, s.pc t ≠ .notify looks) (no_timer : ∀ j, s.pc t ≠ .insert j)
    (inv : Inv s.Making m) (made : m.made = s.manager.made)
    (begun : ∀ j, m.Live j → Begun s.clock (m.objects j))
    (tickled : m.tickled = (s.manager.tickled || notify))
    (later : s.manager.tickled = false → notify = false → ∀ j ∈ m.timers,
      ∃ k ∈ s.manager.timers, (s.manager.objects k).next ≤ (m.objects j).next) :
    Sound ({ s with manager := m, published := s.published }.unlock t notify) := by
  refine sound_unlock sound quiet ?_ begun ?_ (fun _ member => member) tickled later
  · exact inv.congr fun j => and_iff_left (no_timer j)
  · intro j member
    obtain ⟨bound, not_making⟩ := sound.published j member
    exact ⟨made ▸ bound, fun making => absurd making not_making⟩

theorem sound_cancel (sound : Sound s) (idle : s.pc t = .idle) (published : i ∈ s.published) :
    ∃ result m, Timer.cancel i s.manager = .ok result m ∧ Sound { s with manager := m } := by
  rcases mem_or_dead sound published with member | dead
  · obtain ⟨m, ran, inv, objects, made, tickled, mem⟩ := Timer.cancel_live sound.inv member
    refine ⟨true, m, ran, unlock_idle idle m ▸ sound_locked sound ?_ ?_ inv made ?_ ?_ ?_⟩
    · simp [idle]
    · simp [idle]
    · exact begun_update sound objects made fun callback => absurd callback Bool.false_ne_true
    · rw [tickled, Bool.or_false]
    · intro _ _ j inside
      obtain ⟨inside, ne⟩ := (mem j).mp inside
      refine ⟨j, inside, ?_⟩
      rw [objects, Function.update_of_ne ne]
      exact UInt64.le_refl _
  · exact ⟨false, s.manager, Timer.cancel_dead dead, sound⟩

theorem sound_refresh (sound : Sound s) (idle : s.pc t = .idle) (published : i ∈ s.published)
    (fits : s.clock.toNat + (s.manager.objects i).ms.toNat < 2 ^ 64) :
    ∃ result m, Timer.refresh i s.clock s.manager = .ok result m ∧
      Sound { s with manager := m } := by
  rcases mem_or_dead sound published with member | dead
  · obtain ⟨m, ran, inv, objects, made, tickled, mem⟩ :=
      Timer.refresh_live sound.inv member s.clock
    refine ⟨true, m, ran, unlock_idle idle m ▸ sound_locked sound ?_ ?_ inv made ?_ ?_ ?_⟩
    · simp [idle]
    · simp [idle]
    · exact begun_update sound objects made fun _ => begun_new fits _ rfl rfl
    · rw [tickled, Bool.or_false]
    · intro _ _ j inside
      have inside := (mem j).mp inside
      refine ⟨j, inside, ?_⟩
      rw [objects]
      by_cases same : j = i
      · subst same
        rw [Function.update_self]
        exact (sound.begun j ((sound.inv.live j).mp (.inl inside))).refresh fits
      · rw [Function.update_of_ne same]
        exact UInt64.le_refl _
  · exact ⟨false, s.manager, Timer.refresh_dead dead s.clock, sound⟩

theorem sound_reset {ms : UInt64} {fromNow : Bool} (sound : Sound s)
    (holds : s.pc t = .reset i ms fromNow)
    (fits : ((s.manager.objects i).start fromNow s.clock).toNat + ms.toNat < 2 ^ 64) :
    ∃ result notify m, Timer.resetLocked i ms fromNow s.clock s.manager = .ok (result, notify) m ∧
      Sound ({ s with manager := m }.unlock t notify) := by
  have quiet : ∀ looks, s.pc t ≠ .notify looks := by simp [holds]
  have no_timer : ∀ j, s.pc t ≠ .insert j := by simp [holds]
  rcases mem_or_dead sound (sound.resets t i ms fromNow holds) with member | dead
  · obtain ⟨mid, notify, m, ran, inv, added, objects, made, tickled, mem⟩ :=
      Timer.resetLocked_live sound.inv member ms fromNow s.clock
    refine ⟨true, notify, m, ran, sound_locked sound quiet no_timer inv (added.made.trans made)
      ?_ (tickled ▸ added.tickled) ?_⟩
    · apply begun_update sound (added.objects.trans objects) (added.made.trans made)
      intro _
      have started := (sound.begun i ((sound.inv.live i).mp (.inl member))).start fromNow
      exact (begun_new fits _ rfl rfl).mono started
    · intro not_tickled silent j inside
      rw [added.objects, objects]
      rcases (added.mem j).mp inside with inside | rfl
      · obtain ⟨inside, ne⟩ := (mem j).mp inside
        refine ⟨j, inside, ?_⟩
        rw [Function.update_of_ne ne]
        exact UInt64.le_refl _
      · -- the timer is put back behind an earlier one
        rcases added.silent silent with ticked | ⟨k, inside, before⟩
        · rw [tickled, not_tickled] at ticked
          cases ticked
        · obtain ⟨inside, ne⟩ := (mem k).mp inside
          refine ⟨k, inside, ?_⟩
          simp only [Before, objects, Function.update_of_ne ne] at before
          rcases before with earlier | ⟨same, -⟩
          · exact UInt64.le_of_lt earlier
          · exact same ▸ UInt64.le_refl _
  · refine ⟨false, false, s.manager, Timer.resetLocked_dead dead ms fromNow s.clock,
      sound_locked sound quiet no_timer sound.inv rfl sound.begun (Bool.or_false _).symm ?_⟩
    intro _ _ j inside
    exact ⟨j, inside, UInt64.le_refl _⟩

/-- A thread that moves on without the lock. -/
theorem sound_goto {pc : Pc} (called : Bool) (sound : Sound s) (before : ∀ j, s.pc t ≠ .insert j)
    (after : ∀ j, pc ≠ .insert j) (resets : ∀ j ms fromNow, pc = .reset j ms fromNow →
      j ∈ s.published)
    (told : s.Notified → State.Notified ({ s with called := called }.goto t pc)) :
    Sound ({ s with called := called }.goto t pc) := by
  have goto_pc : ∀ t', ({ s with called := called }.goto t pc).pc t' =
    if t' = t then pc else s.pc t' := goto_pc _ _ _
  have goto_insert : ∀ t' j, ({ s with called := called }.goto t pc).pc t' = .insert j ↔
      s.pc t' = .insert j := by
    intro t' j
    rw [goto_pc]
    split
    next same =>
      rw [same]
      exact ⟨fun eq => absurd eq (after j), fun eq => absurd eq (before j)⟩
    next => exact Iff.rfl
  have making : ∀ j, State.Making ({ s with called := called }.goto t pc) j ↔ s.Making j :=
    fun j => exists_congr fun t' => goto_insert t' j
  refine ⟨sound.inv.congr making, fun t₁ t₂ j first second => ?_, sound.begun, fun j member => ?_,
    fun t' j ms fromNow at_reset => ?_, sound.silent,
    fun looked tickled => told (sound.told looked tickled)⟩
  · exact sound.maker t₁ t₂ j ((goto_insert t₁ j).mp first) ((goto_insert t₂ j).mp second)
  · obtain ⟨bound, not_making⟩ := sound.published j member
    exact ⟨bound, fun is_making => not_making ((making j).mp is_making)⟩
  · rw [goto_pc] at at_reset
    split at at_reset
    next => exact resets j ms fromNow at_reset
    next => exact sound.resets t' j ms fromNow at_reset

theorem sound_notify {looks : Nat} (sound : Sound s) (holds : s.pc t = .notify looks) :
    Sound ({ s with called := s.called || looks == s.looks }.goto t .idle) := by
  refine sound_goto _ sound (by simp [holds]) (by simp) (by simp) ?_
  rintro (called | ⟨t', waiting⟩)
  · exact .inl (by simp [State.goto, called])
  · by_cases same : t' = t
    · -- the call that was owed is made now
      rw [same, holds, Pc.notify.injEq] at waiting
      exact .inl (by simp [State.goto, waiting])
    · exact .inr ⟨t', by rw [goto_pc, if_neg same]; exact waiting⟩

theorem sound_resetTest {ms : UInt64} {fromNow : Bool} (sound : Sound s) (idle : s.pc t = .idle)
    (published : i ∈ s.published) : Sound (s.goto t (.reset i ms fromNow)) := by
  refine sound_goto s.called sound (by simp [idle]) (by simp) ?_ ?_
  · intro j _ _ same
    exact (Pc.reset.inj same).1 ▸ published
  · rintro (called | ⟨t', waiting⟩)
    · exact .inl called
    · have ne : t' ≠ t := by
        rintro rfl
        rw [idle] at waiting
        cases waiting
      exact .inr ⟨t', by rw [goto_pc, if_neg ne]; exact waiting⟩

theorem sound_getNextTimer (sound : Sound s) :
    Sound { s with
      manager := { s.manager with tickled := false }
      looks := s.looks + 1
      seen := s.manager.timers.head?.map fun i => (s.manager.objects i).next
      called := false } := by
  have inv := sound.inv
  refine ⟨⟨inv.sorted, inv.live, inv.apart, inv.distinct⟩, sound.maker, sound.begun,
    sound.published, sound.resets, fun _ _ j member => ?_, fun _ tickled => ?_⟩
  · -- the first timer of the set is the earliest
    have sorted := inv.sorted
    have member : j ∈ s.manager.timers := member
    cases timers : s.manager.timers with
    | nil =>
      rw [timers] at member
      cases member
    | cons front back =>
      rw [timers] at sorted member
      refine ⟨(s.manager.objects front).next, rfl, ?_⟩
      rcases List.mem_cons.mp member with rfl | member
      · exact UInt64.le_refl _
      · rcases (less_iff _ _ _).mp ((List.pairwise_cons.mp sorted).1 j member) with
          earlier | ⟨same, -⟩
        · exact UInt64.le_of_lt earlier
        · exact UInt64.le_of_eq same
  · cases tickled

theorem sound_step {label : Label γ} (sound : Sound s) (fits : noOverflow s label = true)
    (stepped : step s label = some s') : Sound s' := by
  cases label with
  | tick now =>
    simp only [step] at stepped
    split at stepped
    next later => exact Option.some.inj stepped ▸ sound_tick sound later
    next => cases stepped
  | construct t addr ms cb recurring =>
    simp only [step] at stepped
    split at stepped
    next can =>
      have begun : Begun s.clock (Timer.new addr ms (some cb) recurring s.clock) :=
        begun_new (of_decide_eq_true fits) _ rfl rfl
      have fresh : ∀ j, s.manager.Live j → (s.manager.objects j).addr ≠ addr :=
        fun j live => can.2 j live.1 live.2
      exact Option.some.inj stepped ▸ sound_construct sound can.1 rfl begun fresh
    next => cases stepped
  | insert t =>
    simp only [step] at stepped
    split at stepped
    next i holds =>
      obtain ⟨notify, m, ran, sound'⟩ := sound_insert sound holds
      rw [ran] at stepped
      exact Option.some.inj stepped ▸ sound'
    next => cases stepped
  -- the lock has been released; other threads may have come between
  | notify t =>
    simp only [step] at stepped
    split at stepped
    next looks holds => exact Option.some.inj stepped ▸ sound_notify sound holds
    next => cases stepped
  | cancel t i =>
    simp only [step] at stepped
    split at stepped
    next can =>
      obtain ⟨result, m, ran, sound'⟩ := sound_cancel sound can.1 can.2
      rw [ran] at stepped
      exact Option.some.inj stepped ▸ sound'
    next => cases stepped
  | refresh t i =>
    simp only [step] at stepped
    split at stepped
    next can =>
      obtain ⟨result, m, ran, sound'⟩ := sound_refresh sound can.1 can.2 (of_decide_eq_true fits)
      rw [ran] at stepped
      exact Option.some.inj stepped ▸ sound'
    next => cases stepped
  -- the first test of `Reset` is made without the lock
  | resetTest t i ms fromNow =>
    simp only [step] at stepped
    split at stepped
    next can =>
      split at stepped
      next => exact Option.some.inj stepped ▸ sound
      next => exact Option.some.inj stepped ▸ sound_resetTest sound can.1 can.2
    next => cases stepped
  | reset t =>
    simp only [step] at stepped
    split at stepped
    next i ms fromNow holds =>
      simp only [noOverflow, holds, decide_eq_true_eq] at fits
      obtain ⟨result, notify, m, ran, sound'⟩ := sound_reset sound holds fits
      rw [ran] at stepped
      exact Option.some.inj stepped ▸ sound'
    next => cases stepped
  | getNextTimer t =>
    simp only [step] at stepped
    split at stepped
    next =>
      obtain ⟨ms, ran⟩ := run_getNextTimer s.clock s.manager
      rw [ran] at stepped
      exact Option.some.inj stepped ▸ sound_getNextTimer sound
    next => cases stepped

end Steps

/-- In every state reached: no timer of the set is earlier than what the last
`GetNextTimer` saw, unless since then a thread has called `OnTimerInsertedAtFront` or is
about to. -/
theorem earlier_timer_notified {now : UInt64} {labels : List (Label γ)} {s : State γ}
    (steps : Run.Steps step (fun s label => noOverflow s label = true) (State.new now) labels s)
    (looked : 0 < s.looks) : s.NoneEarlier ∨ s.Notified := by
  have sound : Sound s :=
    steps.invariant (fun _ _ _ sound fits stepped => sound_step sound fits stepped) (sound_new now)
  cases tickled : s.manager.tickled with
  | true => exact .inr (sound.told looked tickled)
  | false => exact .inl (sound.silent looked tickled)

/-- Thread 1 sleeps until 100 when thread 2 adds a timer for 50 and has not yet called
`OnTimerInsertedAtFront`; a third timer for 20 is not notified again. -/
theorem earlier_timer_notified_twice :
    ∃ s, Run.Steps step (fun s label => noOverflow s label = true) (State.new 0)
        [.construct 0 10 100 'a' false, .insert 0, .notify 0, .getNextTimer 1,
          .construct 2 20 50 'b' false, .insert 2, .construct 3 30 20 'c' false, .insert 3] s ∧
      (s.NoneEarlier ∨ s.Notified) := by
  obtain ⟨s, steps⟩ := Run.Steps.of_admissible step (fun s label => noOverflow s label = true)
    (State.new 0) [.construct 0 10 100 'a' false, .insert 0, .notify 0, .getNextTimer 1,
      .construct 2 20 50 'b' false, .insert 2, .construct 3 30 20 'c' false, .insert 3]
    (by decide)
  have looked : (Run.run step (State.new 0) [.construct 0 10 100 'a' false, .insert 0, .notify 0,
      .getNextTimer 1, .construct 2 20 50 'b' false, .insert 2, .construct 3 30 20 'c' false,
      .insert 3]).map (·.looks) = some 1 := by decide
  rw [steps.run, Option.map_some, Option.some.injEq] at looked
  exact ⟨s, steps, earlier_timer_notified steps (by omega)⟩

end ServerFrame.Timers.Wakeup
