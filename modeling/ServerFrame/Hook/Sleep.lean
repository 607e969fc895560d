import Mathlib.Algebra.Order.Ring.Int
import Mathlib.Data.UInt
import ServerFrame.IOManager.Growth
import ServerFrame.Timer.OnTime

/-!
# The hooked `sleep`, `usleep` and `nanosleep`

With the hooks on, each of them adds a timer whose callback schedules the fiber again, and
yields. How long the fiber is away is the time until that timer is collected; the milliseconds
are computed in the types of the arguments before `AddTimer` gets them as 64 bits.
-/
namespace ServerFrame.Hook

open IOManager.Growth (toInt)
open Timers (NotBefore)

variable {γ : Type}

/-- The timer of `sleep`; `seconds * 1000` is an `unsigned int`. -/
def sleep (addr : Nat) (resume : γ) (seconds : UInt32) (now : UInt64) : Timers.Call γ :=
  .addTimer addr (seconds * 1000).toUInt64 resume false now

/-- The timer of `usleep`. -/
def usleep (addr : Nat) (resume : γ) (usec : UInt32) (now : UInt64) : Timers.Call γ :=
  .addTimer addr (usec / 1000).toUInt64 resume false now

/-- The timer of `nanosleep`: the milliseconds are computed as a `long`, which they may overflow,
and kept as an `int`. -/
def nanosleep (addr : Nat) (resume : γ) (tvSec tvNsec : Nat) (now : UInt64) :
    Option (Timers.Call γ) :=
  let timeoutMs := tvSec * 1000 + tvNsec / 1000 / 1000
  if timeoutMs < 2 ^ 63 then some (.addTimer addr (.ofInt (toInt timeoutMs)) resume false now)
  else none

/-- The fiber that adds this timer is away until `time` at least. -/
def AwayUntil (w : Timers.World γ) (call : Option (Timers.Call γ)) (time : Nat) : Prop :=
  ∃ c w', call = some c ∧ Timers.step w c = some w' ∧ NotBefore w' w.manager.made time

/-- The seconds fit into an `unsigned int` as milliseconds, and the deadline into 64 bits. -/
def SleepFits (seconds : UInt32) (now : UInt64) : Prop :=
  seconds.toNat ≤ 4294967 ∧ now.toNat + seconds.toNat * 1000 < 2 ^ 64

def UsleepFits (usec : UInt32) (now : UInt64) : Prop :=
  now.toNat + usec.toNat / 1000 < 2 ^ 64

/-- The milliseconds fit into an `int`, and the deadline into 64 bits; or the `int` is negative
and, without a sign, not far enough from 2^64 for the clock to reach beyond. -/
def NanosleepFits (tvSec tvNsec : Nat) (now : UInt64) : Prop :=
  let ms := tvSec * 1000 + tvNsec / 1000 / 1000
  ms < 2 ^ 31 ∧ now.toNat + ms < 2 ^ 64 ∨
    ms < 2 ^ 63 ∧ toInt ms < 0 ∧ now.toNat + toInt ms < 0

section Away

variable {w : Timers.World γ} {addr : Nat} {resume : γ} {now : UInt64}

/-- The fiber is away for a time exactly when the deadline of its timer is not earlier. -/
theorem awayUntil_iff (sound : Timers.Sound w)
    (fresh : ∀ i ∈ w.manager.timers, (w.manager.objects i).addr ≠ addr)
    (notBack : w.manager.previouseTime ≤ now) (ms : UInt64) {time : Nat}
    (later : now.toNat < time ∨ time ≤ (now + ms).toNat) :
    AwayUntil w (some (.addTimer addr ms resume false now)) time ↔ time ≤ (now + ms).toNat := by
  obtain ⟨notify, m', ran, -⟩ :=
    TimerManager.addTimer_spec sound.inv ms resume false now fresh
  have can : Timers.possible w.manager (.addTimer addr ms resume false now) = true := by
    simpa [Timers.possible] using fresh
  have stepped : Timers.step w (.addTimer addr ms resume false now) =
      some { w with manager := m', log := w.log ++ [.added w.manager.made] } := by
    rw [Timers.step, sound.fault, can, Timers.exec, EState.run_bind_ok ran]
    rfl
  obtain ⟨due, member⟩ := Timers.due_armed sound stepped rfl
  have notBack' : m'.previouseTime ≤ now := by
    rw [Timers.previouseTime_addTimer ran]
    exact notBack
  rw [← Timers.notBefore_iff due member notBack' later]
  constructor
  · rintro ⟨call, w', same, stepped', notBefore⟩
    cases same
    rw [stepped] at stepped'
    cases stepped'
    exact notBefore
  · intro notBefore
    exact ⟨_, _, rfl, stepped, notBefore⟩

end Away

/-! ## The milliseconds -/

section Milliseconds

variable (now : UInt64)

theorem sleep_le_iff (seconds : UInt32) :
    now.toNat + seconds.toNat * 1000 ≤ (now + (seconds * 1000).toUInt64).toNat ↔
      SleepFits seconds now := by
  rw [UInt64.toNat_add, UInt32.toNat_toUInt64, UInt32.toNat_mul, SleepFits,
    show (1000 : UInt32).toNat = 1000 from rfl]
  have now_lt := now.toNat_lt
  rcases Nat.lt_or_ge 4294967 seconds.toNat with large | small
  · have less : seconds.toNat * 1000 % 2 ^ 32 < 2 ^ 32 := Nat.mod_lt _ (by decide)
    have wraps := Nat.mod_le (now.toNat + seconds.toNat * 1000 % 2 ^ 32) (2 ^ 64)
    exact iff_of_false (by omega) (by omega)
  · rw [Nat.mod_eq_of_lt (a := seconds.toNat * 1000) (by omega)]
    omega

theorem usleep_le_iff (usec : UInt32) :
    now.toNat + usec.toNat / 1000 ≤ (now + (usec / 1000).toUInt64).toNat ↔
      UsleepFits usec now := by
  have ms : (usec / 1000).toUInt64.toNat = usec.toNat / 1000 := by
    rw [UInt32.toNat_toUInt64, UInt32.toNat_div]
    rfl
  rw [← ms, Timers.le_toNat_add_iff, UsleepFits, ms]

/-- An `int` as it is converted for `AddTimer`: the sign is extended. -/
theorem toNat_ofInt_toInt (ms : Nat) :
    (UInt64.ofInt (toInt ms)).toNat =
      if toInt ms < 0 then 2 ^ 64 - (2 ^ 32 - ms % 2 ^ 32) else ms % 2 ^ 32 := by
  rw [UInt64.ofInt, UInt64.toNat_ofNat']
  unfold toInt
  split <;> omega

theorem nanosleep_le_iff {ms : Nat} (long : ms < 2 ^ 63) :
    now.toNat + ms ≤ (now + .ofInt (toInt ms)).toNat ↔
      ms < 2 ^ 31 ∧ now.toNat + ms < 2 ^ 64 ∨
        ms < 2 ^ 63 ∧ toInt ms < 0 ∧ now.toNat + toInt ms < 0 := by
  have now_lt := now.toNat_lt
  rw [UInt64.toNat_add, toNat_ofInt_toInt]
  split
  next negative =>
    unfold toInt at *
    omega
  next positive =>
    unfold toInt at *
    omega

end Milliseconds

/-! ## The result -/

/-- After any calls on the timers. A call of `AddTimer`, `Refresh` or `Reset` from now on sets a
timer that does not fire early exactly when its deadline fits into 64 bits; and with a clock that
does not go back, the hooked functions keep the fiber away for what was asked for, in whole
milliseconds, exactly when the milliseconds and the deadline fit. -/
theorem on_time_iff {start : UInt64} {calls : List (Timers.Call γ)} {w : Timers.World γ}
    (ran : Run.run Timers.step (.new start) calls = some w) :
    (∀ call w' i ms now, Timers.step w call = some w' →
      Timers.arms w.manager call = some (i, ms, now) → w'.manager.previouseTime ≤ now →
      (NotBefore w' i (now.toNat + ms.toNat) ↔ now.toNat + ms.toNat < 2 ^ 64)) ∧
    ∀ addr (resume : γ) (now : UInt64),
      (∀ i ∈ w.manager.timers, (w.manager.objects i).addr ≠ addr) →
      w.manager.previouseTime ≤ now →
      (∀ seconds, AwayUntil w (some (sleep addr resume seconds now))
        (now.toNat + seconds.toNat * 1000) ↔ SleepFits seconds now) ∧
      (∀ usec, AwayUntil w (some (usleep addr resume usec now))
        (now.toNat + usec.toNat / 1000) ↔ UsleepFits usec now) ∧
      ∀ tvSec tvNsec, AwayUntil w (nanosleep addr resume tvSec tvNsec now)
        (now.toNat + (tvSec * 10 ^ 9 + tvNsec) / 10 ^ 6) ↔ NanosleepFits tvSec tvNsec now := by
  have sound : Timers.Sound w :=
    Run.run_invariant (fun _ _ _ => Timers.sound_step) (Timers.sound_new start) ran
  refine ⟨fun call w' i ms now stepped armed notBack =>
    Timers.armed_onTime_iff sound stepped armed notBack,
    fun addr resume now fresh notBack => ⟨fun seconds => ?_, fun usec => ?_,
      fun tvSec tvNsec => ?_⟩⟩
  · have later : now.toNat < now.toNat + seconds.toNat * 1000 ∨
        now.toNat + seconds.toNat * 1000 ≤ (now + (seconds * 1000).toUInt64).toNat := by
      rw [sleep_le_iff, SleepFits]
      have now_lt := now.toNat_lt
      omega
    rw [sleep, awayUntil_iff sound fresh notBack _ later, sleep_le_iff]
  · have later : now.toNat < now.toNat + usec.toNat / 1000 ∨
        now.toNat + usec.toNat / 1000 ≤ (now + (usec / 1000).toUInt64).toNat := by
      rw [usleep_le_iff, UsleepFits]
      have now_lt := now.toNat_lt
      omega
    rw [usleep, awayUntil_iff sound fresh notBack _ later, usleep_le_iff]
  · have whole : (tvSec * 10 ^ 9 + tvNsec) / 10 ^ 6 = tvSec * 1000 + tvNsec / 1000 / 1000 := by
      omega
    rw [whole, nanosleep, NanosleepFits]
    generalize tvSec * 1000 + tvNsec / 1000 / 1000 = ms
    split
    next long =>
      have later : now.toNat < now.toNat + ms ∨
          now.toNat + ms ≤ (now + .ofInt (toInt ms)).toNat := by
        rw [nanosleep_le_iff now long]
        have now_lt := now.toNat_lt
        omega
      rw [awayUntil_iff sound fresh notBack _ later, nanosleep_le_iff now long]
    next overflows =>
      constructor
      · rintro ⟨call, w', ⟨⟩, -⟩
      · omega

/-- Three seconds, while another timer is in the set. -/
theorem on_time_iff_three_seconds :
    ∃ w : Timers.World Nat, Run.run Timers.step (.new 0) [.addTimer 10 7 1 false 0] = some w ∧
      AwayUntil w (some (sleep 20 2 3 5)) 3005 := by
  have runs : (Run.run Timers.step (Timers.World.new (γ := Nat) 0)
      [.addTimer 10 7 1 false 0]).isSome = true := by decide
  obtain ⟨w, ran⟩ := Option.isSome_iff_exists.mp runs
  have state : (Run.run Timers.step (.new 0) [.addTimer 10 7 1 false 0]).map
      (fun w : Timers.World Nat => (w.manager.timers.map fun i => (w.manager.objects i).addr,
        w.manager.previouseTime)) = some ([10], 0) := by decide
  rw [ran, Option.map_some, Option.some.injEq, Prod.mk.injEq] at state
  obtain ⟨addrs, notBack⟩ := state
  have fresh : ∀ i ∈ w.manager.timers, (w.manager.objects i).addr ≠ 20 := by
    intro i member same
    have listed := List.mem_map_of_mem (f := fun i => (w.manager.objects i).addr) member
    rw [addrs, same] at listed
    exact absurd listed (by decide)
  have holds := (on_time_iff ran).2 20 2 5 fresh (by rw [notBack]; decide)
  exact ⟨w, ran, (holds.1 3).mpr ⟨by decide, by decide⟩⟩

/-- `AddTimer` of 2^64 - 1 ms at reading 1 fires at once; `sleep(4294968)` ends after 704 ms, and
`nanosleep` of 2147484 seconds at once. -/
theorem fires_early :
    (Run.run Timers.step (.new 1) [.addTimer 10 0xFFFFFFFFFFFFFFFF 1 false 1,
      .listExpiredCb 1 20]).map
      (fun w : Timers.World Nat => w.log) = some [.added 0, .listed [0] [some 1]] ∧
    (Run.run Timers.step (.new 0) [sleep 10 1 4294968 0, .listExpiredCb 704 20]).map
      (fun w : Timers.World Nat => w.log) = some [.added 0, .listed [0] [some 1]] ∧
    ∃ call, nanosleep 10 1 2147484 0 (2 ^ 40) = some call ∧
      (Run.run Timers.step (.new (2 ^ 40)) [call, .listExpiredCb (2 ^ 40) 20]).map
        (fun w : Timers.World Nat => w.log) = some [.added 0, .listed [0] [some 1]] := by
  refine ⟨by decide, by decide, ?_⟩
  refine ⟨.addTimer 10 (.ofInt (toInt 2147484000)) 1 false (2 ^ 40), ?_, by decide⟩
  rw [nanosleep, if_pos (by decide)]

end ServerFrame.Hook
