import Mathlib.Algebra.Order.Ring.Int
import Mathlib.Data.UInt
import ServerFrame.IOManager.Growth
import ServerFrame.Timer.Lifetime

/-!
# How long `Idle` waits

A turn of `Idle` asks `GetNextTimer`, in `Stopping`, for the time to the next deadline and
hands it to `epoll_wait`, again after every `EINTR`. On the way the number is 64 bits wide and
without a sign where it is kept, and an `int` where it is compared and where it is passed.
-/
namespace ServerFrame.IOManager

open Growth (toInt)

variable {γ : Type}

/-- `static const int MAX_TIMEOUT`. -/
def maxTimeout : Nat := 3000

/-- What a pass of the loop makes of `next_timeout`. -/
def clamp (nextTimeout : UInt64) : UInt64 :=
  if nextTimeout ≠ ~~~0 then
    if toInt nextTimeout.toNat > maxTimeout then .ofNat maxTimeout else nextTimeout
  else .ofNat maxTimeout

/-- The timeouts of the calls of `epoll_wait`: each that ends with `EINTR` is followed by
another one. -/
def epollWaits : Nat → UInt64 → List Int
  | 0, nextTimeout => [toInt (clamp nextTimeout).toNat]
  | interrupts + 1, nextTimeout =>
    toInt (clamp nextTimeout).toNat :: epollWaits interrupts (clamp nextTimeout)

/-- A turn of `Idle` up to the events. `idleStopping` is the rest of `Stopping`: no event is
pending and the scheduler is stopping. -/
def idleTurn (idleStopping : Bool) (now : UInt64) (interrupts : Nat) : TimerM γ (List Int) := do
  let nextTimeout ← TimerManager.getNextTimer now
  if nextTimeout = ~~~0 && idleStopping then pure []
  else pure (epollWaits interrupts nextTimeout)

/-! ## What the wait is for -/

def earliestDeadline (m : TimerManager γ) : Option Nat :=
  (m.timers.map fun i => (m.objects i).next.toNat).min?

/-- The time to the earliest deadline, or `MAX_TIMEOUT` when that is shorter. -/
def idleWait (m : TimerManager γ) (now : UInt64) : Nat :=
  match earliestDeadline m with
  | some deadline => min (deadline - now.toNat) maxTimeout
  | none => maxTimeout

/-- The time to the earliest deadline is an `int`, or what is left of it as one is not below
`MAX_TIMEOUT`, or it is the number that stands for no timer. -/
def WaitFits (m : TimerManager γ) (now : UInt64) : Prop :=
  ∀ deadline ∈ earliestDeadline m,
    deadline - now.toNat < 2 ^ 31 ∨
    maxTimeout ≤ toInt (deadline - now.toNat) ∨ deadline - now.toNat = 2 ^ 64 - 1

/-- The set is in the order of the deadlines. -/
theorem earliestDeadline_eq {m : TimerManager γ}
    (sorted : m.timers.Pairwise fun i j => m.less i j = true) :
    earliestDeadline m = m.timers.head?.map fun i => (m.objects i).next.toNat := by
  rw [earliestDeadline, List.min?_eq_head?, List.head?_map]
  apply List.pairwise_map.mpr
  apply sorted.imp
  intro i j before
  exact Nat.min_eq_left (UInt64.le_iff_toNat_le.mp (TimerManager.next_le_of_less before))

/-- `GetNextTimer` gives the time to the earliest deadline. -/
theorem getNextTimer_left {m : TimerManager γ} (now : UInt64)
    (sorted : m.timers.Pairwise fun i j => m.less i j = true) :
    TimerManager.getNextTimer now m =
      .ok (match earliestDeadline m with
        | some deadline => .ofNat (deadline - now.toNat)
        | none => ~~~0) { m with tickled := false } := by
  rw [earliestDeadline_eq sorted, TimerManager.getNextTimer,
    EState.run_bind_ok (EState.run_modify _ m), EState.run_bind_ok (EState.run_get _)]
  dsimp only
  cases m.timers with
  | nil => rfl
  | cons next rest =>
    dsimp only [List.head?_cons, Option.map_some]
    split
    next due =>
      have none_left : (m.objects next).next.toNat - now.toNat = 0 :=
        Nat.sub_eq_zero_of_le (UInt64.le_iff_toNat_le.mp due)
      rw [none_left]
      rfl
    next later =>
      have before : now ≤ (m.objects next).next := UInt64.le_of_lt (UInt64.not_le.mp later)
      have difference : (m.objects next).next - now =
          .ofNat ((m.objects next).next.toNat - now.toNat) := by
        rw [← UInt64.toNat_sub_of_le _ _ before, UInt64.ofNat_toNat]
      rw [difference]
      rfl

/-! ## The casts -/

/-- Passed as an `int`, the clamped value is the smaller of the two. -/
theorem toInt_clamp (nextTimeout : UInt64) :
    toInt (clamp nextTimeout).toNat =
      if nextTimeout = ~~~0 then (maxTimeout : Int) else min (toInt nextTimeout.toNat) maxTimeout := by
  have top : toInt (UInt64.ofNat maxTimeout).toNat = maxTimeout := by decide
  by_cases sentinel : nextTimeout = ~~~0
  · rw [clamp, if_neg (not_not_intro sentinel), if_pos sentinel, top]
  rw [clamp, if_pos sentinel, if_neg sentinel]
  split
  next above =>
    rw [top]
    exact (Int.min_eq_right (Int.le_of_lt above)).symm
  next below => exact (Int.min_eq_left (Int.not_lt.mp below)).symm

theorem clamp_clamp (nextTimeout : UInt64) : clamp (clamp nextTimeout) = clamp nextTimeout := by
  have top : clamp (.ofNat maxTimeout) = .ofNat maxTimeout := by decide
  by_cases sentinel : nextTimeout = ~~~0
  · rw [show clamp nextTimeout = .ofNat maxTimeout by rw [clamp, if_neg (not_not_intro sentinel)], top]
  by_cases above : toInt nextTimeout.toNat > maxTimeout
  · rw [show clamp nextTimeout = .ofNat maxTimeout by rw [clamp, if_pos sentinel, if_pos above], top]
  · have kept : clamp nextTimeout = nextTimeout := by rw [clamp, if_pos sentinel, if_neg above]
    rw [kept, kept]

/-- An interrupted wait is taken up with the timeout that it had. -/
theorem epollWaits_eq (interrupts : Nat) (nextTimeout : UInt64) :
    epollWaits interrupts nextTimeout =
      List.replicate (interrupts + 1) (toInt (clamp nextTimeout).toNat) := by
  induction interrupts generalizing nextTimeout with
  | zero => rfl
  | succ interrupts ih =>
    rw [epollWaits, ih, clamp_clamp]
    rfl

/-- The smaller one of time and bound comes out of the casts exactly when they keep the time, or
make more than the bound of a time above it. -/
theorem toInt_clamp_left_iff {left : Nat} (bounded : left < 2 ^ 64) :
    toInt (clamp (.ofNat left)).toNat = (min left maxTimeout : Nat) ↔
      left < 2 ^ 31 ∨ maxTimeout ≤ toInt left ∨ left = 2 ^ 64 - 1 := by
  have toNat : (UInt64.ofNat left).toNat = left := UInt64.toNat_ofNat_of_lt' bounded
  have sentinel : UInt64.ofNat left = ~~~0 ↔ left = 2 ^ 64 - 1 := by
    rw [← UInt64.toNat_inj, toNat]
    rfl
  rw [toInt_clamp, toNat]
  simp only [sentinel, maxTimeout]
  split
  next last => omega
  next before =>
    unfold toInt
    omega

/-! ## The result -/

/-- All the waits of a turn are one. -/
theorem epollWaits_bounded_iff {wait : Nat} (bounded : wait ≤ maxTimeout) (interrupts : Nat)
    (nextTimeout : UInt64) :
    (∀ timeout ∈ epollWaits interrupts nextTimeout,
      timeout = wait ∧ 0 ≤ timeout ∧ timeout ≤ maxTimeout) ↔
      toInt (clamp nextTimeout).toNat = wait := by
  rw [epollWaits_eq]
  constructor
  · intro all
    exact (all _ (List.mem_replicate.mpr ⟨Nat.succ_ne_zero _, rfl⟩)).1
  · intro same timeout member
    rw [List.eq_of_mem_replicate member, same]
    omega

theorem earliestDeadline_lt {m : TimerManager γ} {deadline : Nat}
    (earliest : earliestDeadline m = some deadline) : deadline < 2 ^ 64 := by
  obtain ⟨i, -, rfl⟩ := List.mem_map.mp (List.min?_mem earliest)
  exact UInt64.toNat_lt _

theorem idleWait_le (m : TimerManager γ) (now : UInt64) : idleWait m now ≤ maxTimeout := by
  unfold idleWait
  split
  · exact Nat.min_le_right _ _
  · exact Nat.le_refl _

/-- After any calls on the timers: every timeout that a turn of `Idle` gives to `epoll_wait` is
the time to the earliest deadline, 3000 at most, exactly when the time fits. -/
theorem idle_waits_iff {start : UInt64} {calls : List (Timers.Call γ)} {w : Timers.World γ}
    (ran : Run.run Timers.step (.new start) calls = some w) (idleStopping : Bool) (now : UInt64)
    (interrupts : Nat) :
    ∃ timeouts, idleTurn idleStopping now interrupts w.manager =
        .ok timeouts { w.manager with tickled := false } ∧
      ((∀ timeout ∈ timeouts,
          timeout = idleWait w.manager now ∧ 0 ≤ timeout ∧ timeout ≤ maxTimeout) ↔
        WaitFits w.manager now) := by
  have sound : Timers.Sound w :=
    Run.run_invariant (fun _ _ _ => Timers.sound_step) (Timers.sound_new start) ran
  have all_iff := epollWaits_bounded_iff (idleWait_le w.manager now) interrupts
  rw [idleTurn, EState.run_bind_ok (getNextTimer_left now sound.inv.sorted)]
  unfold WaitFits
  cases earliest : earliestDeadline w.manager with
  | none =>
    -- no timer: `Idle` waits for as long as it may, or ends
    have wait : idleWait w.manager now = maxTimeout := by rw [idleWait, earliest]
    cases idleStopping with
    | true => exact ⟨[], rfl, iff_of_true (by simp) (by simp)⟩
    | false =>
      refine ⟨_, rfl, iff_of_true ((all_iff _).mpr ?_) (by simp)⟩
      rw [toInt_clamp, if_pos rfl, wait]
  | some deadline =>
    have left_lt : deadline - now.toNat < 2 ^ 64 :=
      Nat.lt_of_le_of_lt (Nat.sub_le _ _) (earliestDeadline_lt earliest)
    have wait : idleWait w.manager now = min (deadline - now.toNat) maxTimeout := by
      rw [idleWait, earliest]
    simp only [Option.mem_some_iff, forall_eq']
    split
    next ends =>
      -- the deadline is so far away that it reads as no timer
      have sentinel := of_decide_eq_true (Bool.and_eq_true_iff.mp ends).1
      have last : deadline - now.toNat = 2 ^ 64 - 1 := by
        rw [← UInt64.toNat_ofNat_of_lt' left_lt, sentinel]
        rfl
      exact ⟨[], rfl, iff_of_true (by simp) (.inr (.inr last))⟩
    next =>
      refine ⟨_, rfl, (all_iff _).trans ?_⟩
      rw [wait]
      exact toInt_clamp_left_iff left_lt

/-- A timer 5 ms ahead, with one interruption. -/
theorem idle_waits_iff_five :
    let calls : List (Timers.Call Nat) := [.addTimer 10 7 1 false 0, .addTimer 20 5 2 true 0]
    ∃ w, Run.run Timers.step (.new 0) calls = some w ∧ WaitFits w.manager 0 ∧
      ∃ timeouts, idleTurn false 0 1 w.manager = .ok timeouts { w.manager with tickled := false } ∧
        ∀ timeout ∈ timeouts, timeout = idleWait w.manager 0 ∧ 0 ≤ timeout ∧ timeout ≤ 3000 := by
  intro calls
  have runs : (Run.run Timers.step (.new 0) calls).isSome = true := by decide
  obtain ⟨w, ran⟩ := Option.isSome_iff_exists.mp runs
  have earliest : (Run.run Timers.step (.new 0) calls).map (fun w => earliestDeadline w.manager) =
    some (some 5) := by decide
  rw [ran, Option.map_some, Option.some.injEq] at earliest
  have fits : WaitFits w.manager 0 := by
    intro deadline is
    rw [earliest, Option.mem_some_iff] at is
    subst is
    exact .inl (by decide)
  obtain ⟨timeouts, turned, iff⟩ := idle_waits_iff ran false 0 1
  exact ⟨w, ran, fits, timeouts, turned, iff.mpr fits⟩

/-- A timer of 2^31 ms makes `Idle` wait without a limit. -/
theorem idle_waits_forever :
    let calls : List (Timers.Call Nat) := [.addTimer 10 (2 ^ 31) 1 false 0]
    ∃ w m', Run.run Timers.step (.new 0) calls = some w ∧
      idleTurn false 0 0 w.manager = .ok [-2 ^ 31] m' ∧ idleWait w.manager 0 = 3000 := by
  intro calls
  have runs : (Run.run Timers.step (.new 0) calls).isSome = true := by decide
  obtain ⟨w, ran⟩ := Option.isSome_iff_exists.mp runs
  have sound : Timers.Sound w :=
    Run.run_invariant (fun _ _ _ => Timers.sound_step) (Timers.sound_new 0) ran
  have earliest : (Run.run Timers.step (.new 0) calls).map (fun w => earliestDeadline w.manager) =
    some (some (2 ^ 31)) := by decide
  rw [ran, Option.map_some, Option.some.injEq] at earliest
  refine ⟨w, { w.manager with tickled := false }, ran, ?_, ?_⟩
  · have wait : toInt (clamp (2 ^ 31)).toNat = -2 ^ 31 := by decide
    rw [idleTurn, EState.run_bind_ok (getNextTimer_left 0 sound.inv.sorted), earliest,
      Bool.and_false, if_neg Bool.false_ne_true, ← wait]
    rfl
  · rw [idleWait, earliest]
    decide

end ServerFrame.IOManager
