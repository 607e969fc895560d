import Mathlib.Algebra.Order.Ring.Int
import Mathlib.Data.UInt

/-!
# `ReadFixSize` and `WriteFixSize`

The loops of `Stream` around the virtual `Read` and `Write`. What these return is given call
by call; a result above zero is the number of bytes that were moved. The versions for a
`ByteArray` move bytes at its position, which `Read` and `Write` advance, and the others move
them at an offset that the loop keeps.
-/
namespace ServerFrame.Stream

/-- `results` are what the calls return, in their order. `bytes` is the buffer of the caller, or
the content of the `ByteArray` whose position is `position`. The calls and the lengths that they
asked for are recorded. -/
@[ext] structure State where
  results : Nat → Int
  calls : Nat
  asked : List Nat
  incoming : Nat → UInt8
  received : Nat
  sent : List UInt8
  bytes : Nat → UInt8
  position : Nat

/-- `Read(start, n)`. -/
def read (start n : Nat) (s : State) : Int × State :=
  let len := s.results s.calls
  (len, { s with
    calls := s.calls + 1
    asked := s.asked ++ [n]
    received := s.received + len.toNat
    bytes := fun i =>
      if start ≤ i ∧ i < start + len.toNat then s.incoming (s.received + (i - start))
      else s.bytes i })

/-- `Write(start, n)`. -/
def write (start n : Nat) (s : State) : Int × State :=
  let len := s.results s.calls
  (len, { s with
    calls := s.calls + 1
    asked := s.asked ++ [n]
    sent := s.sent ++ (List.range len.toNat).map fun i => s.bytes (start + i) })

/-- `Read(ba, n)` or `Write(ba, n)`: at the position, which goes on by what was moved. -/
def atPosition (call : Nat → Nat → State → Int × State) (n : Nat) (s : State) : Int × State :=
  let (len, s') := call s.position n s
  (len, { s' with position := s.position + len.toNat })

/-- `int64_t left = length`. -/
def asInt64 (length : UInt64) : Int :=
  if length.toNat < 2 ^ 63 then length.toNat else length.toNat - 2 ^ 64

/-- `return length`. -/
def asInt (length : UInt64) : Int := Int.bmod length.toNat (2 ^ 32)

/-- `while (left > 0)`. A call that moves nothing is what the function returns. Each of the
others takes one at least from `left`, so that `left` passes are enough. -/
def loop (call : Nat → Nat → State → Int × State) :
    Nat → Nat → Int → State → Option Int × State
  | 0, _, _, s => (none, s)
  | fuel + 1, offset, left, s =>
    if 0 < left then
      let (len, s') := call offset left.toNat s
      if len ≤ 0 then (some len, s')
      else loop call fuel (offset + len.toNat) (left - len) s'
    else (none, s)

def fixSize (call : Nat → Nat → State → Int × State) (length : UInt64) (s : State) : Int × State :=
  let (stopped, s') := loop call (asInt64 length).toNat 0 (asInt64 length) s
  (stopped.getD (asInt length), s')

/-- `ReadFixSize(void*, size_t)`. -/
def readFixSize : UInt64 → State → Int × State := fixSize read

/-- `ReadFixSize(ByteArray::ptr, size_t)`. -/
def readFixSizeArray : UInt64 → State → Int × State := fixSize fun _ => atPosition read

/-- `WriteFixSize(const void*, size_t)`. -/
def writeFixSize : UInt64 → State → Int × State := fixSize write

/-- `WriteFixSize(ByteArray::ptr, size_t)`; here `len` is an `int` as the result of `Write` is. -/
def writeFixSizeArray : UInt64 → State → Int × State := fixSize fun _ => atPosition write

/-! ## What the functions are for -/

namespace State

variable (s : State)

/-- What the first `k` calls move. -/
def amount : Nat → Nat
  | 0 => 0
  | k + 1 => amount k + (s.results (s.calls + k)).toNat

/-- The first `k` results are positive and add up to `length`. -/
structure Completes (length k : Nat) : Prop where
  positive : ∀ j < k, 0 < s.results (s.calls + j)
  total : s.amount k = length

/-- A result that is not positive comes before the others add up to `length`. -/
structure Stops (length k : Nat) : Prop where
  positive : ∀ j < k, 0 < s.results (s.calls + j)
  short : s.amount k < length
  last : s.results (s.calls + k) ≤ 0

/-- A result is an `int`, and at most what was asked for. -/
structure Honest (length : Nat) : Prop where
  int : ∀ k, -2 ^ 31 ≤ s.results k ∧ s.results k < 2 ^ 31
  asked : ∀ k, (∀ j < k, 0 < s.results (s.calls + j)) → s.amount k < length →
    s.results (s.calls + k) ≤ (length - s.amount k : Nat)

/-- The bytes that were read in `k` calls stand one behind the other from `start` on, and each
call asked for what was missing of `length`. -/
def afterRead (start length k : Nat) : State :=
  { s with
    calls := s.calls + k
    asked := s.asked ++ (List.range k).map fun j => length - s.amount j
    received := s.received + s.amount k
    bytes := fun i =>
      if start ≤ i ∧ i < start + s.amount k then s.incoming (s.received + (i - start))
      else s.bytes i }

/-- The bytes from `start` on were written in `k` calls, one behind the other. -/
def afterWrite (start length k : Nat) : State :=
  { s with
    calls := s.calls + k
    asked := s.asked ++ (List.range k).map fun j => length - s.amount j
    sent := s.sent ++ (List.range (s.amount k)).map fun i => s.bytes (start + i) }

/-- The position has gone on by what `k` calls move. -/
def movedOn (after : Nat → Nat → Nat → State) (length k : Nat) : State :=
  { after s.position length k with position := s.position + s.amount k }

end State

/-- The length comes back exactly when all of it was moved. When a call moves nothing before that,
its result comes back, and what the calls before it moved stays moved. -/
structure FullLength (s : State) (length : Nat) (after : Nat → State) (out : Int × State) : Prop where
  positive : 0 < out.1 ↔ 0 < length ∧ ∃ k, s.Completes length k
  complete : ∀ k, s.Completes length k → out = ((length : Int), after k)
  stopped : ∀ k, s.Stops length k → out = (s.results (s.calls + k), after (k + 1))

/-- The length is an `int`, or at least an `int64_t` and a call moves nothing before it is reached. -/
def Fits (s : State) (length : Nat) : Prop :=
  length < 2 ^ 31 ∨ length < 2 ^ 63 ∧ ∃ k, s.Stops length k

/-! ## The loop -/

section Loop

variable {s : State} {length k k' : Nat}

theorem State.amount_mono (s : State) {j k : Nat} (le : j ≤ k) : s.amount j ≤ s.amount k := by
  induction le with
  | refl => exact Nat.le_refl _
  | step _ ih => exact Nat.le_trans ih (Nat.le_add_right ..)

/-- Positive results move something. -/
theorem State.amount_lt {s : State} {j k : Nat} (before : j < k)
    (positive : 0 < s.results (s.calls + j)) : s.amount j < s.amount k := by
  have next : s.amount (j + 1) ≤ s.amount k := s.amount_mono before
  rw [State.amount] at next
  omega

theorem State.Completes.unique (first : s.Completes length k) (second : s.Completes length k') :
    k = k' := by
  rcases Nat.lt_trichotomy k k' with before | same | before
  · have := State.amount_lt before (second.positive k before)
    rw [first.total, second.total] at this
    exact absurd this (Nat.lt_irrefl _)
  · exact same
  · have := State.amount_lt before (first.positive k' before)
    rw [first.total, second.total] at this
    exact absurd this (Nat.lt_irrefl _)

theorem State.Stops.unique (first : s.Stops length k) (second : s.Stops length k') : k = k' := by
  rcases Nat.lt_trichotomy k k' with before | same | before
  · exact absurd (second.positive k before) (Int.not_lt.mpr first.last)
  · exact same
  · exact absurd (first.positive k' before) (Int.not_lt.mpr second.last)

theorem State.Stops.not_completes (stops : s.Stops length k) : ¬ s.Completes length k' := by
  intro completes
  rcases Nat.lt_or_ge k k' with before | before
  · exact absurd (completes.positive k before) (Int.not_lt.mpr stops.last)
  · have short := stops.short
    have := s.amount_mono before
    rw [completes.total] at this
    omega

variable {call : Nat → Nat → State → Int × State} {after : Nat → State}

/-- The loop behind `k` calls. -/
theorem loop_spec (honest : s.Honest length)
    (steps : ∀ k, call (s.amount k) (length - s.amount k) (after k) =
      (s.results (s.calls + k), after (k + 1)))
    (positive : ∀ j < k, 0 < s.results (s.calls + j)) (le : s.amount k ≤ length) {fuel : Nat}
    (enough : length - s.amount k ≤ fuel) :
    (∃ k', s.Completes length k' ∧
      loop call fuel (s.amount k) (length - s.amount k : Nat) (after k) = (none, after k')) ∨
    ∃ k', s.Stops length k' ∧
      loop call fuel (s.amount k) (length - s.amount k : Nat) (after k) =
        (some (s.results (s.calls + k')), after (k' + 1)) := by
  induction fuel generalizing k with
  | zero => exact .inl ⟨k, ⟨positive, by omega⟩, rfl⟩
  | succ fuel ih =>
    by_cases more : s.amount k < length
    · have left_pos : (0 : Int) < (length - s.amount k : Nat) := by omega
      rw [loop, if_pos left_pos, Int.toNat_natCast, steps]
      by_cases last : s.results (s.calls + k) ≤ 0
      · refine .inr ⟨k, ⟨positive, more, last⟩, ?_⟩
        simp only [if_pos last]
      · have asked := honest.asked k positive more
        have amount_eq : s.amount (k + 1) = s.amount k + (s.results (s.calls + k)).toNat := rfl
        have left_eq : ((length - s.amount k : Nat) : Int) - s.results (s.calls + k) =
            (length - s.amount (k + 1) : Nat) := by omega
        simp only [if_neg last]
        rw [left_eq, ← amount_eq]
        refine ih (fun j before => ?_) (by omega) (by omega)
        rcases Nat.lt_succ_iff_lt_or_eq.mp before with earlier | rfl
        · exact positive j earlier
        · omega
    · have none_left : ((length - s.amount k : Nat) : Int) = 0 := by omega
      refine .inl ⟨k, ⟨positive, by omega⟩, ?_⟩
      rw [loop, none_left, if_neg (by decide)]

end Loop

/-! ## The results -/

section FixSize

variable {s : State} {n k : Nat} {length : UInt64} {call : Nat → Nat → State → Int × State} {after : Nat → State}

theorem asInt_small (small : length.toNat < 2 ^ 31) : asInt length = length.toNat := by
  unfold asInt
  exact Int.bmod_eq_of_le (by omega) (by omega)

theorem asInt_lt (length : UInt64) : asInt length < 2 ^ 31 := by
  unfold asInt
  rw [Int.bmod_def]
  split <;> omega

theorem fixSize_of_loop {stopped : Option Int} {s' : State}
    (ran : loop call (asInt64 length).toNat 0 (asInt64 length) s = (stopped, s')) :
    fixSize call length s = (stopped.getD (asInt length), s') := by
  rw [fixSize, ran]

/-- From `2 ^ 63` on the loop is not entered. -/
theorem fixSize_large (large : 2 ^ 63 ≤ length.toNat) (s : State) :
    fixSize call length s = (asInt length, s) := by
  have negative : (asInt64 length).toNat = 0 := by
    have bound := length.toNat_lt
    unfold asInt64
    rw [if_neg (by omega)]
    omega
  have not_entered : loop call (asInt64 length).toNat 0 (asInt64 length) s = (none, s) := by
    rw [negative, loop]
  rw [fixSize_of_loop not_entered, Option.getD_none]

/-- All of the length was moved: it comes back if it is an `int`. -/
theorem complete_iff (completes : s.Completes length.toNat k) :
    FullLength s length.toNat after (asInt length, after k) ↔ Fits s length.toNat := by
  have below := asInt_lt length
  constructor
  · intro full
    have same := congrArg Prod.fst (full.complete k completes)
    dsimp only at same
    exact .inl (by omega)
  · rintro (small | ⟨-, k', stops⟩)
    · rw [asInt_small small]
      refine ⟨⟨fun pos => ⟨Int.natCast_pos.mp pos, k, completes⟩, fun pos => Int.natCast_pos.mpr pos.1⟩,
        fun k' completes' => ?_, fun k' stops => absurd completes stops.not_completes⟩
      rw [completes'.unique completes]
    · exact absurd completes stops.not_completes

/-- A call moved nothing: its result comes back. -/
theorem stopped_full (stops : s.Stops n k) :
    FullLength s n after (s.results (s.calls + k), after (k + 1)) := by
  refine ⟨⟨fun pos => absurd pos (Int.not_lt.mpr stops.last), fun completes => ?_⟩,
    fun k' completes => absurd completes stops.not_completes, fun k' stops' => ?_⟩
  · obtain ⟨-, k', completes⟩ := completes
    exact absurd completes stops.not_completes
  · rw [stops'.unique stops]

/-- A function whose calls follow `after` transfers in full exactly under the condition. -/
theorem fixSize_iff (honest : s.Honest length.toNat) (start : after 0 = s)
    (calls : ∀ k, (after k).calls = s.calls + k)
    (steps : ∀ k, call (s.amount k) (length.toNat - s.amount k) (after k) =
      (s.results (s.calls + k), after (k + 1))) :
    FullLength s length.toNat after (fixSize call length s) ↔ Fits s length.toNat := by
  have ends := @loop_spec s length.toNat 0 call after honest steps (fun j before => by omega)
    (Nat.zero_le _) length.toNat (Nat.sub_le ..)
  have whole : length.toNat - s.amount 0 = length.toNat := Nat.sub_zero _
  rw [whole, start] at ends
  by_cases large : 2 ^ 63 ≤ length.toNat
  · -- no call was made, and one of the two ends is missed
    rw [fixSize_large large]
    refine ⟨fun full => ?_, fun fits => by rw [Fits] at fits; omega⟩
    rcases ends with ⟨k, completes, -⟩ | ⟨k, stops, -⟩
    · have below := asInt_lt length
      have same := congrArg Prod.fst (full.complete k completes)
      dsimp only at same
      omega
    · have same := congrArg (fun out => out.2.calls) (full.stopped k stops)
      dsimp only at same
      rw [calls] at same
      omega
  · have left_eq : asInt64 length = length.toNat := if_pos (by omega)
    have fuel_eq : (asInt64 length).toNat = length.toNat := by rw [left_eq, Int.toNat_natCast]
    have start_eq : s.amount 0 = 0 := rfl
    rw [← left_eq, start_eq] at ends
    rcases ends with ⟨k, completes, ran⟩ | ⟨k, stops, ran⟩
    · rw [← fuel_eq] at ran
      rw [fixSize_of_loop ran, Option.getD_none]
      exact complete_iff completes
    · rw [← fuel_eq] at ran
      rw [fixSize_of_loop ran, Option.getD_some]
      exact ⟨fun _ => .inr ⟨by omega, k, stops⟩, fun _ => stopped_full stops⟩

end FixSize

/-! ## The four functions -/

section Functions

variable (s : State) (start length k : Nat)

theorem read_after :
    read (start + s.amount k) (length - s.amount k) (s.afterRead start length k) =
      (s.results (s.calls + k), s.afterRead start length (k + 1)) := by
  refine Prod.ext rfl (State.ext rfl rfl ?_ rfl (Nat.add_assoc ..) rfl ?_ rfl)
  · simp [read, State.afterRead, List.range_succ]
  · have next : s.amount (k + 1) = s.amount k + (s.results (s.calls + k)).toNat := rfl
    funext i
    dsimp only [read, State.afterRead]
    split
    next here =>
      have place : s.received + s.amount k + (i - (start + s.amount k)) = s.received + (i - start) := by
        omega
      rw [if_pos (by omega), place]
    next elsewhere =>
      split
      next before => rw [if_pos (by omega)]
      next outside => rw [if_neg (by omega)]

theorem write_after :
    write (start + s.amount k) (length - s.amount k) (s.afterWrite start length k) =
      (s.results (s.calls + k), s.afterWrite start length (k + 1)) := by
  refine Prod.ext rfl (State.ext rfl rfl ?_ rfl rfl ?_ rfl rfl)
  · simp [write, State.afterWrite, List.range_succ]
  · simp [write, State.afterWrite, State.amount, List.range_add, Nat.add_assoc, Function.comp_def]

/-- A call at the position follows what the same call at a start follows. -/
theorem position_after {call : Nat → Nat → State → Int × State} {after : Nat → Nat → Nat → State}
    (ignores : ∀ start n t m, call start n { t with position := m } =
      ((call start n t).1, { (call start n t).2 with position := m }))
    (steps : call (s.position + s.amount k) (length - s.amount k) (after s.position length k) =
      (s.results (s.calls + k), after s.position length (k + 1))) :
    atPosition call (length - s.amount k) (s.movedOn after length k) =
      (s.results (s.calls + k), s.movedOn after length (k + 1)) := by
  rw [atPosition, State.movedOn]
  dsimp only
  rw [ignores, steps]
  dsimp only [State.movedOn]
  rw [Nat.add_assoc]
  rfl

theorem afterRead_zero : s.afterRead start length 0 = s := by
  refine State.ext rfl rfl (List.append_nil _) rfl rfl rfl ?_ rfl
  funext i
  exact if_neg (by rw [State.amount]; omega)

theorem afterWrite_zero : s.afterWrite start length 0 = s :=
  State.ext rfl rfl (List.append_nil _) rfl rfl (List.append_nil _) rfl rfl

theorem movedOn_zero {after : Nat → Nat → Nat → State} (same : after s.position length 0 = s) :
    s.movedOn after length 0 = s := by
  rw [State.movedOn, same]
  rfl

end Functions

/-- The four functions transfer in full exactly under the condition. -/
theorem full_length_iff {s : State} {length : UInt64} (honest : s.Honest length.toNat) :
    (FullLength s length.toNat (s.afterRead 0 length.toNat) (readFixSize length s) ↔
      Fits s length.toNat) ∧
    (FullLength s length.toNat (s.movedOn s.afterRead length.toNat) (readFixSizeArray length s) ↔
      Fits s length.toNat) ∧
    (FullLength s length.toNat (s.afterWrite 0 length.toNat) (writeFixSize length s) ↔
      Fits s length.toNat) ∧
    (FullLength s length.toNat (s.movedOn s.afterWrite length.toNat) (writeFixSizeArray length s) ↔
      Fits s length.toNat) := by
  have reads := fun k => read_after s 0 length.toNat k
  have writes := fun k => write_after s 0 length.toNat k
  simp only [Nat.zero_add] at reads writes
  refine ⟨?_, ?_, ?_, ?_⟩
  · exact fixSize_iff honest (afterRead_zero ..) (fun _ => rfl) reads
  · exact fixSize_iff honest (movedOn_zero s _ (afterRead_zero ..)) (fun _ => rfl)
      fun k => position_after s _ k (fun _ _ _ _ => rfl) (read_after s s.position _ k)
  · exact fixSize_iff honest (afterWrite_zero ..) (fun _ => rfl) writes
  · exact fixSize_iff honest (movedOn_zero s _ (afterWrite_zero ..)) (fun _ => rfl)
      fun k => position_after s _ k (fun _ _ _ _ => rfl) (write_after s s.position _ k)

/-- Nothing was moved yet; the calls return `first` and `second`, and then nothing more. -/
def twoCalls (first second : Int) : State where
  results := fun k => if k = 0 then first else if k = 1 then second else 0
  calls := 0
  asked := []
  incoming := fun i => i.toUInt8
  received := 0
  sent := []
  bytes := fun _ => 0
  position := 0

theorem honest_twoCalls {m n : Nat} (small : m < 2 ^ 31 ∧ n < 2 ^ 31) :
    (twoCalls m n).Honest (m + n) := by
  constructor
  · intro k
    dsimp only [twoCalls]
    split
    · omega
    · split <;> omega
  · intro k _ short
    match k with
    | 0 =>
      have first : (twoCalls m n).results ((twoCalls m n).calls + 0) = m := rfl
      rw [first, State.amount]
      omega
    | 1 =>
      have moved : (twoCalls m n).amount 1 = m := by simp [State.amount, twoCalls]
      have second : (twoCalls m n).results ((twoCalls m n).calls + 1) = n := rfl
      rw [second, moved]
      omega
    | k + 2 =>
      have last : (twoCalls m n).results ((twoCalls m n).calls + (k + 2)) = 0 := by simp [twoCalls]
      rw [last]
      omega

theorem full_length_iff_three :
    let s := twoCalls 2 1
    FullLength s 3 (s.afterRead 0 3) (readFixSize 3 s) ∧
    FullLength s 3 (s.movedOn s.afterRead 3) (readFixSizeArray 3 s) ∧
    FullLength s 3 (s.afterWrite 0 3) (writeFixSize 3 s) ∧
    FullLength s 3 (s.movedOn s.afterWrite 3) (writeFixSizeArray 3 s) ∧
    (readFixSize 3 s).1 = 3 ∧ (writeFixSizeArray 3 s).2.sent = [0, 0, 0] := by
  have fits : Fits (twoCalls 2 1) 3 := .inl (by decide)
  have full := @full_length_iff (twoCalls 2 1) 3 (honest_twoCalls (m := 2) (n := 1) (by decide))
  exact ⟨full.1.mpr fits, full.2.1.mpr fits, full.2.2.1.mpr fits, full.2.2.2.mpr fits, by decide,
    by decide⟩

/-- All of `2 ^ 31` bytes are read, and the result is below zero. -/
theorem large_transfer_fails :
    let s := twoCalls (2 ^ 30) (2 ^ 30)
    s.Honest (2 ^ 31) ∧ s.Completes (2 ^ 31) 2 ∧ (readFixSize (2 ^ 31) s).1 = -2 ^ 31 ∧
      ¬ FullLength s (2 ^ 31) (s.afterRead 0 (2 ^ 31)) (readFixSize (2 ^ 31) s) := by
  have completes : (twoCalls (2 ^ 30) (2 ^ 30)).Completes (2 ^ 31) 2 := by
    refine ⟨?_, by decide⟩
    decide
  have below : (readFixSize (2 ^ 31) (twoCalls (2 ^ 30) (2 ^ 30))).1 = -2 ^ 31 := by decide +kernel
  refine ⟨honest_twoCalls (m := 2 ^ 30) (n := 2 ^ 30) (by decide), completes, below, fun full => ?_⟩
  have same := congrArg Prod.fst (full.complete 2 completes)
  rw [below] at same
  exact absurd same (by decide)

end ServerFrame.Stream
