import ServerFrame.Timer.Operations

/-!
# Collecting the expired timers

`ListExpiredCb` cuts the set behind the last timer that is not later than the clock.
Where `lower_bound` stops among the timers that are due at this very moment depends on
addresses, but the loop behind it goes over the rest of them, so the cut does not.
-/
namespace ServerFrame

variable {γ : Type}

/-- What collecting does to a timer. -/
def Timer.collected (now : UInt64) (timer : Timer γ) : Timer γ :=
  if timer.recurring then { timer with next := now + timer.ms } else { timer with cb := none }

namespace TimerManager

/-- The test of `DetectClockRollover`. -/
def rollover (m : TimerManager γ) (now : UInt64) : Bool :=
  decide (now < m.previouseTime) && decide (now < m.previouseTime - 60 * 60 * 1000)

/-- The timers that are due, in the order of the set. -/
def due (m : TimerManager γ) (now : UInt64) : List Nat :=
  m.timers.filter fun i => decide ((m.objects i).next ≤ now)

def expired (m : TimerManager γ) (now : UInt64) : List Nat :=
  if m.rollover now then m.timers else m.due now

/-- What is true after the timers `expired` were collected. -/
structure Collected (now : UInt64) (expired : List Nat) (m m' : TimerManager γ) : Prop where
  inv : Inv (fun _ => False) m'
  made : m.made ≤ m'.made
  collected : ∀ i ∈ expired, m'.objects i = (m.objects i).collected now
  others : ∀ i, i < m.made → i ∉ expired → m'.objects i = m.objects i

variable {m : TimerManager γ} {now : UInt64}

/-! ## The cut -/

theorem next_le_of_less {i j : Nat} (less : m.less i j = true) :
    (m.objects i).next ≤ (m.objects j).next := by
  rcases (m.less_iff i j).mp less with earlier | ⟨same, -⟩
  · exact UInt64.le_of_lt earlier
  · exact UInt64.le_of_eq same

/-- The loop behind `lower_bound` stops where the later timers begin. -/
theorem takeWhile_now {timers : List Nat} (sorted : timers.Pairwise fun i j => m.less i j = true)
    (from_now : ∀ i ∈ timers, now ≤ (m.objects i).next) :
    ∃ same later, timers = same ++ later ∧
      (timers.takeWhile fun i => (m.objects i).next == now) = same ∧
      (∀ i ∈ same, (m.objects i).next = now) ∧ ∀ i ∈ later, now < (m.objects i).next := by
  induction timers with
  | nil => exact ⟨[], [], rfl, rfl, by simp, by simp⟩
  | cons i timers ih =>
    obtain ⟨before, sorted⟩ := List.pairwise_cons.mp sorted
    by_cases at_now : (m.objects i).next = now
    · obtain ⟨same, later, rfl, took, all_now, all_later⟩ :=
        ih sorted fun j member => from_now j (List.mem_cons_of_mem i member)
      refine ⟨i :: same, later, rfl, ?_, ?_, all_later⟩
      · rw [List.takeWhile_cons, if_pos (beq_iff_eq.mpr at_now), took]
      · intro j member
        rcases List.mem_cons.mp member with rfl | member
        · exact at_now
        · exact all_now j member
    · have first : now < (m.objects i).next :=
        UInt64.lt_of_le_of_ne (from_now i (by simp)) (Ne.symm at_now)
      refine ⟨[], i :: timers, rfl, ?_, by simp, ?_⟩
      · rw [List.takeWhile_cons, if_neg fun same => at_now (beq_iff_eq.mp same)]
      · intro j member
        rcases List.mem_cons.mp member with rfl | member
        · exact first
        · exact UInt64.lt_of_lt_of_le first (next_le_of_less (before j member))

/-- The expired range holds the timers that are due, wherever the probe was allocated. -/
theorem take_expiredEnd (sorted : m.timers.Pairwise fun i j => m.less i j = true) {probe : Nat}
    (next : (m.objects probe).next = now) : m.timers.take (expiredEnd now probe m) = m.due now := by
  obtain ⟨pre, post, split, before, behind⟩ := OrderedSet.split_at m.less_trans sorted probe
  rw [split] at sorted
  obtain ⟨-, sorted, -⟩ := List.pairwise_append.mp sorted
  have pre_due : ∀ i ∈ pre, (m.objects i).next ≤ now := fun i member =>
    next ▸ next_le_of_less (before i member)
  have from_now : ∀ i ∈ post, now ≤ (m.objects i).next := by
    intro i member
    by_contra earlier
    have less : m.less i probe = true :=
      (m.less_iff i probe).mpr (.inl (by rw [next]; exact UInt64.not_le.mp earlier))
    rw [behind i member] at less
    exact Bool.false_ne_true less
  obtain ⟨same, later, rfl, took, all_now, all_later⟩ := takeWhile_now sorted from_now
  have stops : expiredEnd now probe m = (pre ++ same).length := by
    rw [expiredEnd, split, OrderedSet.lowerBound_append before behind, List.drop_left, took,
      List.length_append]
  rw [stops, due, split, ← List.append_assoc, List.take_left, List.filter_append]
  have front : ((pre ++ same).filter fun i => decide ((m.objects i).next ≤ now)) = pre ++ same := by
    rw [List.filter_eq_self]
    intro i member
    rcases List.mem_append.mp member with member | member
    · exact decide_eq_true (pre_due i member)
    · exact decide_eq_true (UInt64.le_of_eq (all_now i member))
  have back : (later.filter fun i => decide ((m.objects i).next ≤ now)) = [] := by
    rw [List.filter_eq_nil_iff]
    intro i member early
    exact UInt64.not_lt.mpr (of_decide_eq_true early) (all_later i member)
  rw [front, back, List.append_nil]

/-- Nothing is due before the first timer of the set. -/
theorem due_of_front_later {front : Nat} {back : List Nat}
    (sorted : m.timers.Pairwise fun i j => m.less i j = true) (timers : m.timers = front :: back)
    (later : now < (m.objects front).next) : m.due now = [] := by
  rw [timers] at sorted
  rw [due, timers, List.filter_eq_nil_iff]
  intro i member early
  have bound : (m.objects front).next ≤ (m.objects i).next := by
    rcases List.mem_cons.mp member with rfl | member
    · exact UInt64.le_refl _
    · exact next_le_of_less ((List.pairwise_cons.mp sorted).1 i member)
  exact UInt64.not_lt.mpr (of_decide_eq_true early) (UInt64.lt_of_lt_of_le later bound)

theorem mem_timers_of_expired {i : Nat} (member : i ∈ m.expired now) : i ∈ m.timers := by
  rw [expired] at member
  split at member
  · exact member
  · exact (List.mem_filter.mp member).1

/-! ## The loop -/

theorem collectOne_out {out : Nat → Prop} {i : Nat} (inv : Inv out m) (is_out : out i)
    (now : UInt64) :
    ∃ m', collectOne now i m = .ok (m.objects i).cb m' ∧ Inv (fun j => out j ∧ j ≠ i) m' ∧
      m'.objects = Function.update m.objects i ((m.objects i).collected now) ∧
      m'.made = m.made := by
  cases recurs : (m.objects i).recurring with
  | true =>
    have moved := inv.write_out is_out { m.objects i with
      next := now + (m.objects i).ms } rfl rfl
    obtain ⟨pre, post, split, inserted, -, -, inv'⟩ := moved.insert is_out
    have put := run_insert i (m.write i { m.objects i with next := now + (m.objects i).ms })
    rw [inserted] at put
    refine ⟨_, ?_, inv', ?_, rfl⟩
    · have next := run_setNext (inv.apart i is_out) (now + (m.objects i).ms)
      rw [collectOne, EState.run_bind_ok (EState.run_get m)]
      dsimp only
      rw [if_pos recurs, EState.run_bind_ok next, EState.run_bind_ok (EState.run_discard_ok put),
        EState.run_pure]
    · rw [Timer.collected, if_pos recurs]
      rfl
  | false =>
    refine ⟨_, ?_, inv.kill is_out, ?_, rfl⟩
    · rw [collectOne, EState.run_bind_ok (EState.run_get m)]
      simp [recurs, setCb, EState.run_bind]
    · rw [Timer.collected, if_neg (by simp [recurs])]
      rfl

/-- The loop over the expired timers puts the recurring ones back. -/
theorem collect_out {expired : List Nat} (once : expired.Nodup) (inv : Inv (· ∈ expired) m) :
    ∃ m', collect now expired m = .ok (expired.map fun i => (m.objects i).cb) m' ∧
      Collected now expired m m' := by
  induction expired generalizing m with
  | nil => exact ⟨m, rfl, inv.congr fun _ => by simp, Nat.le_refl _, by simp, fun _ _ _ => rfl⟩
  | cons i expired ih =>
    obtain ⟨not_mem, once⟩ := List.nodup_cons.mp once
    obtain ⟨mid, ran, inv', objects, made⟩ := collectOne_out inv (i := i) (by simp) now
    have rest : Inv (· ∈ expired) mid := inv'.congr fun j => by
      by_cases same : j = i
      · subst same
        simp [not_mem]
      · simp [same]
    obtain ⟨m', ran', did⟩ := ih once rest
    -- the objects of the other timers are as they were
    have others : ∀ j, j ≠ i → mid.objects j = m.objects j := fun j ne => by
      rw [objects, Function.update_of_ne ne]
    have ne_of_mem : ∀ j ∈ expired, j ≠ i := fun j member same => not_mem (same ▸ member)
    have live : i < mid.made := made ▸ ((inv.live i).mp (.inr (by simp))).1
    refine ⟨m', ?_, did.inv, made ▸ did.made, fun j member => ?_, fun j bound left => ?_⟩
    · have cbs : (expired.map fun j => (mid.objects j).cb) = expired.map fun j => (m.objects j).cb :=
        List.map_congr_left fun j member => by rw [others j (ne_of_mem j member)]
      rw [cbs] at ran'
      rw [collect, EState.run_bind_ok ran, EState.run_bind_ok ran', EState.run_pure, List.map_cons]
    · rcases List.mem_cons.mp member with rfl | member
      · -- a recurring timer that is due again at once is not collected twice
        rw [did.others j live not_mem, objects, Function.update_self]
      · rw [did.collected j member, others j (ne_of_mem j member)]
    · rw [List.mem_cons, not_or] at left
      rw [did.others j (made ▸ bound) left.2, others j left.1]

theorem takeExpired_spec (inv : Inv (fun _ => False) m) (now : UInt64) (rollover : Bool)
    (addr : Nat) :
    let taken := if rollover then m.timers else m.due now
    ∃ m', takeExpired now rollover addr m = .ok (taken, taken.map fun i => (m.objects i).cb) m' ∧
      Collected now taken m m' := by
  intro taken
  -- the object that `lower_bound` is given has no callback and is never in the set
  have inv' := inv.make_dead (.ofNext addr now) rfl
  generalize grown : ({ m with
    objects := Function.update m.objects m.made (.ofNext addr now)
    made := m.made + 1 } : TimerManager γ) = mid at inv'
  have made : make (.ofNext addr now) m = .ok m.made mid := grown ▸ rfl
  have timers : mid.timers = m.timers := grown ▸ rfl
  have more : mid.made = m.made + 1 := grown ▸ rfl
  have objects : mid.objects = Function.update m.objects m.made (.ofNext addr now) := by
    rw [← grown]
  have same : ∀ i, i < m.made → mid.objects i = m.objects i := fun i bound => by
    rw [objects, Function.update_of_ne (Nat.ne_of_lt bound)]
  have bound : ∀ i ∈ m.timers, i < m.made := fun i member => ((inv.live i).mp (.inl member)).1
  have probe : (mid.objects m.made).next = now := by rw [objects, Function.update_self]; rfl
  generalize place : (if rollover then mid.timers.length else expiredEnd now m.made mid) = it
  have front : mid.timers.take it = taken := by
    rw [← place]
    cases rollover with
    | true => simp [taken, timers]
    | false =>
      have dues : mid.due now = m.due now := by
        rw [due, due, timers]
        exact List.filter_congr fun i member => by rw [same i (bound i member)]
      simpa [taken, dues] using take_expiredEnd inv'.sorted probe
  have inside : ∀ i ∈ taken, i ∈ m.timers := fun i member =>
    timers ▸ List.mem_of_mem_take (front ▸ member)
  have once := inv'.nodup.sublist (List.take_sublist it mid.timers)
  have out := inv'.take_front it
  rw [front] at once out
  obtain ⟨m', ran, did⟩ := @collect_out γ _ now taken once out
  refine ⟨m', ?_, did.inv, ?_, fun i member => ?_, fun i made' left => ?_⟩
  · -- the object that was made for the search has changed none of the callbacks
    have cbs : (taken.map fun i => (mid.objects i).cb) = taken.map fun i => (m.objects i).cb :=
      List.map_congr_left fun i member => by rw [same i (bound i (inside i member))]
    dsimp only at ran
    rw [cbs] at ran
    rw [takeExpired, EState.run_bind_ok made, EState.run_bind_ok (EState.run_get mid), place,
      EState.run_bind_ok (EState.run_set _ _), front, EState.run_bind_ok ran, EState.run_pure]
  · have grows : mid.made ≤ m'.made := did.made
    omega
  · rw [did.collected i member]
    dsimp only
    rw [same i (bound i (inside i member))]
  · rw [did.others i (by dsimp only; omega) left]
    exact same i made'

theorem listExpiredCb_spec (inv : Inv (fun _ => False) m) (now : UInt64) (addr : Nat) :
    ∃ m', listExpiredCb now addr m =
        .ok (m.expired now, (m.expired now).map fun i => (m.objects i).cb) m' ∧
      Collected now (m.expired now) m m' := by
  cases timers : m.timers with
  | nil =>
    have none_expired : m.expired now = [] := by simp [expired, due, timers]
    rw [none_expired]
    refine ⟨m, ?_, inv, Nat.le_refl _, by simp, fun _ _ _ => rfl⟩
    simp [listExpiredCb, EState.run_bind, timers]
  | cons front back =>
    obtain ⟨mid, later⟩ : ∃ mid, mid = { m with previouseTime := now } := ⟨_, rfl⟩
    have timed : Inv (fun _ => False) mid := by
      rw [later]
      exact ⟨inv.sorted, inv.live, inv.apart, inv.distinct⟩
    have objects : mid.objects = m.objects := by rw [later]
    have made : mid.made = m.made := by rw [later]
    -- only the time of the last look changes before the first test
    have ran : detectClockRollover now m = .ok (m.rollover now) mid := later ▸ rfl
    have unfolded : listExpiredCb now addr m =
        (if !m.rollover now && decide (now < (m.objects front).next) then pure ([], [])
          else takeExpired now (m.rollover now) addr) mid := by
      rw [listExpiredCb, EState.run_bind_ok (EState.run_get m), timers]
      dsimp only
      rw [EState.run_bind_ok ran, EState.run_bind_ok (EState.run_get _), objects]
    rw [unfolded]
    split
    next early =>
      rw [Bool.and_eq_true, Bool.not_eq_true', decide_eq_true_iff] at early
      have none_expired : m.expired now = [] := by
        rw [expired, if_neg (by simp [early.1]), due_of_front_later inv.sorted timers early.2]
      rw [none_expired]
      exact ⟨mid, rfl, timed, Nat.le_of_eq made.symm, by simp, fun i _ _ => by rw [objects]⟩
    next =>
      obtain ⟨m', ran', did⟩ := takeExpired_spec timed now (m.rollover now) addr
      have taken : (if m.rollover now then mid.timers else mid.due now) = m.expired now := by
        rw [expired, later]
        rfl
      rw [taken] at ran' did
      rw [objects] at ran'
      exact ⟨m', ran', did.inv, made ▸ did.made,
        fun i member => by rw [did.collected i member, objects],
        fun i bound left => by rw [did.others i (made ▸ bound) left, objects]⟩

/-! ## `ListExpiredCb` -/

/-- `ListExpiredCb` returns the callbacks of the timers that are due, in the order of
their deadlines, or of all timers when the clock was turned back. The timers it returns
lose their callback and leave the set or, when they recur, are in it with a new deadline;
the others are as before. -/
theorem listExpiredCb_exact (inv : Inv (fun _ => False) m) (now : UInt64) (addr : Nat) :
    ∃ expired m',
      listExpiredCb now addr m = .ok (expired, expired.map fun i => (m.objects i).cb) m' ∧
      (m.rollover now = false → expired = m.timers.filter fun i => (m.objects i).next ≤ now) ∧
      (m.rollover now = true → expired = m.timers) ∧
      expired.Pairwise (fun i j => (m.objects i).next ≤ (m.objects j).next) ∧
      Inv (fun _ => False) m' ∧
      (∀ i ∈ expired, (m.objects i).recurring = false →
        i ∉ m'.timers ∧ m'.objects i = { m.objects i with cb := none }) ∧
      (∀ i ∈ expired, (m.objects i).recurring = true →
        i ∈ m'.timers ∧ m'.objects i = { m.objects i with next := now + (m.objects i).ms } ∧
        (now.toNat + (m.objects i).ms.toNat < 2 ^ 64 →
          (m'.objects i).next.toNat = now.toNat + (m.objects i).ms.toNat)) ∧
      ∀ i, i < m.made → i ∉ expired →
        m'.objects i = m.objects i ∧ (i ∈ m'.timers ↔ i ∈ m.timers) := by
  obtain ⟨m', ran, did⟩ := listExpiredCb_spec inv now addr
  -- with nothing outside, the set is what has a callback
  have set' : ∀ i, i ∈ m'.timers ↔ m'.Live i := fun i => by simpa using did.inv.live i
  have set : ∀ i, i ∈ m.timers ↔ m.Live i := fun i => by simpa using inv.live i
  refine ⟨m.expired now, m', ran, ?_, ?_, ?_, did.inv, ?_, ?_, ?_⟩
  · intro steady
    rw [expired, if_neg (by simp [steady]), due]
  · intro turned
    rw [expired, if_pos turned]
  · have sorted : m.timers.Pairwise fun i j => (m.objects i).next ≤ (m.objects j).next :=
      inv.sorted.imp next_le_of_less
    rw [expired]
    split
    · exact sorted
    · exact sorted.sublist List.filter_sublist
  · intro i member one_shot
    have after : m'.objects i = { m.objects i with cb := none } := by
      rw [did.collected i member, Timer.collected, if_neg (by simp [one_shot])]
    refine ⟨fun inside => ?_, after⟩
    -- a timer without a callback is not in the set
    have live := ((set' i).mp inside).2
    rw [after] at live
    exact Bool.false_ne_true live
  · intro i member recurs
    have after : m'.objects i = { m.objects i with next := now + (m.objects i).ms } := by
      rw [did.collected i member, Timer.collected, if_pos recurs]
    have live := (set i).mp (mem_timers_of_expired member)
    refine ⟨(set' i).mpr ⟨Nat.lt_of_lt_of_le live.1 did.made, ?_⟩, after, fun fits => ?_⟩
    · rw [after]
      exact live.2
    · rw [after]
      exact (UInt64.toNat_add _ _).trans (Nat.mod_eq_of_lt fits)
  · intro i bound left
    have after := did.others i bound left
    refine ⟨after, ?_⟩
    rw [set', set, Live, Live, after]
    have bound' := Nat.lt_of_lt_of_le bound did.made
    simp [bound, bound']

/-- Two timers are due at once, one on each side of the probe, and the one that recurs
without delay is due again. -/
theorem listExpiredCb_exact_around_probe :
    let timer : Nat → Timer Nat
      | 0 => ⟨20, true, 0, 5, some 1⟩
      | 1 => ⟨10, false, 5, 5, some 2⟩
      | _ => ⟨40, false, 9, 9, some 3⟩
    let m : TimerManager Nat := ⟨timer, 3, [1, 0, 2], false, 4⟩
    ∃ m', listExpiredCb 5 15 m = .ok ([1, 0], [some 2, some 1]) m' ∧
      1 ∉ m'.timers ∧ 0 ∈ m'.timers ∧ (m'.objects 0).next = 5 ∧ m'.objects 2 = m.objects 2 := by
  intro timer m
  have inv : Inv (fun _ => False) m := by
    refine ⟨by decide, fun i => ?_, fun _ impossible => impossible.elim, fun i j left right => ?_⟩
    · match i with
      | 0 | 1 | 2 => decide
      | n + 3 => exact iff_of_false (by simp [m]) fun live => absurd live.1 (by simp [m])
    · have apart : ∀ i < 3, ∀ j < 3, (m.objects i).addr = (m.objects j).addr → i = j := by decide
      exact apart i left.1 j right.1
  obtain ⟨expired, m', ran, steady, -, -, -, ended, put, others⟩ := listExpiredCb_exact inv 5 15
  have found : expired = [1, 0] := (steady (by decide)).trans (by decide)
  subst found
  refine ⟨m', ran, (ended 1 (by decide) rfl).1, (put 0 (by decide) rfl).1, ?_,
    (others 2 (by decide) (by decide)).1⟩
  rw [(put 0 (by decide) rfl).2.1]
  rfl

end TimerManager
end ServerFrame
