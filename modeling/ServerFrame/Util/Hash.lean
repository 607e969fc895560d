import ServerFrame.Lib.Horner
import Mathlib.Data.FinEnum
import Mathlib.Data.Int.Lemmas
import Mathlib.RingTheory.Coprime.Lemmas
import Mathlib.Tactic.NormNum

/-!
# `quick_hash`, `murmur3_hash` and `murmur3_hash64`

Each for a C string, and for a pointer and a size. A pointer is the bytes that can be read from it
on, or `none` if it is null; a read behind these bytes gives no result. An `int` is an `Int`, as far
as it does not overflow.
-/
namespace ServerFrame.HashUtil

open Finset Horner

/-- The byte `i` places on. -/
def byteAt (str : List UInt8) (i : Int) : Option UInt8 :=
  if 0 ≤ i then str[i.toNat]? else none

/-- A `char`, signed here, as it is converted for `+`. -/
def charToUInt (c : UInt8) : UInt32 := c.toInt8.toInt32.toUInt32

/-- `strlen`. -/
def strlen : List UInt8 → Option Nat
  | [] => none
  | c :: str => if c = 0 then some 0 else (strlen str).map (· + 1)

/-- `c_str()` and `data()` of a string: its bytes and a NUL. -/
def cStr (s : List UInt8) : List UInt8 := s ++ [0]

/-- Both return, and return the same. -/
def Agree {α : Type} (x y : Option α) : Prop := ∃ a, x = some a ∧ y = some a

/-! ## `quick_hash` -/

/-- `h = 31 * h + *str`. -/
def quickStep (h : UInt32) (c : UInt8) : UInt32 := 31 * h + charToUInt c

/-- The loop of `quick_hash(const char*)`. -/
def quickHashLoop : List UInt8 → UInt32 → Option UInt32
  | [], _ => none
  | c :: str, h => if c = 0 then some h else quickHashLoop str (quickStep h c)

/-- `quick_hash(const char*)`. -/
def quickHash (str : List UInt8) : Option UInt32 := quickHashLoop str 0

/-- The loop of `quick_hash(const void*, uint32_t)`, with the passes that are left. `str` stays
where it is. -/
def quickHashSizedLoop (str : List UInt8) : Nat → UInt32 → Option UInt32
  | 0, h => some h
  | n + 1, h => do quickHashSizedLoop str n (quickStep h (← byteAt str 0))

/-- `quick_hash(const void*, uint32_t)`. -/
def quickHashSized (tmp : List UInt8) (size : UInt32) : Option UInt32 :=
  quickHashSizedLoop tmp size.toNat 0

/-! ## `murmur3_hash` -/

/-- `ROTL`. -/
def rotl (x r : UInt32) : UInt32 := (x <<< r) ||| (x >>> (32 - r))

/-- `fmix32`. -/
def fmix32 (h : UInt32) : UInt32 :=
  let h := h ^^^ h >>> 16
  let h := h * 0x85ebca6b
  let h := h ^^^ h >>> 13
  let h := h * 0xc2b2ae35
  h ^^^ h >>> 16

/-- What is done to `s` before it goes into `h`. -/
def mix (s : UInt32) : UInt32 := rotl (s * 0xcc9e2d51) 15 * 0x1b873593

/-- `ptr[i]`: four bytes, the lowest first. -/
def wordAt (str : List UInt8) (i : Nat) : Option UInt32 := do
  let b0 ← byteAt str (4 * i)
  let b1 ← byteAt str (4 * i + 1)
  let b2 ← byteAt str (4 * i + 2)
  let b3 ← byteAt str (4 * i + 3)
  return b0.toUInt32 ||| b1.toUInt32 <<< 8 ||| b2.toUInt32 <<< 16 ||| b3.toUInt32 <<< 24

/-- The blocks from `i` on, with the passes that are left. -/
def blocks (str : List UInt8) : Nat → Nat → UInt32 → Option UInt32
  | 0, _, h => some h
  | n + 1, i, h => do
    let s ← wordAt str i
    blocks str n (i + 1) (rotl (h ^^^ mix s) 13 * 5 + 0xe6546b64)

/-- The cases of the switch, each of which goes on into the next. -/
def tailWord (str : List UInt8) (tail : Int) : Nat → UInt32 → Option UInt32
  | 3, s => do
    -- no `break`
    let b ← byteAt str (tail + 2)
    tailWord str tail 2 (s ||| b.toUInt32 <<< 16)
  | 2, s => do
    let b ← byteAt str (tail + 1)
    tailWord str tail 1 (s ||| b.toUInt32 <<< 8)
  | 1, s => do
    let b ← byteAt str tail
    return s ||| b.toUInt32
  | _, s => some s

/-- The switch, with `len & 3`. At 0 nothing is done. -/
def mixTail (str : List UInt8) (tail : Int) (k : Nat) (h : UInt32) : Option UInt32 :=
  if k = 0 then some h else (tailWord str tail k 0).map fun s => h ^^^ mix s

/-- Both bodies, behind the test of the pointer: they differ in where `len` comes from. -/
def murmur3 (str : List UInt8) (len : Int) (seed : UInt32) : Option UInt32 := do
  let blk := len.tdiv 4
  let h ← blocks str blk.toNat 0 seed
  let h ← mixTail str (blk * 4) (len % 4).toNat h
  return fmix32 (h ^^^ UInt32.ofInt len)

/-- `murmur3_hash(const void*, const uint32_t&, const uint32_t&)`. -/
def murmur3HashSized (data : Option (List UInt8)) (size seed : UInt32) : Option UInt32 :=
  match data with
  | none => some 0
  | some str => murmur3 str size.toInt32.toInt seed

/-- `murmur3_hash(const char*, const uint32_t&)`. -/
def murmur3Hash (str : Option (List UInt8)) (seed : UInt32) : Option UInt32 :=
  match str with
  | none => some 0
  | some str => do murmur3 str (Int32.ofNat (← strlen str)).toInt seed

/-- The two halves of a `murmur3_hash64`. -/
def halves (high low : Option UInt32) : Option UInt64 := do
  return (← high).toUInt64 <<< 32 ||| (← low).toUInt64

/-- `murmur3_hash64(const void*, const uint32_t&, const uint32_t&, const uint32_t&)`. -/
def murmur3Hash64Sized (str : Option (List UInt8)) (size seed seed2 : UInt32) : Option UInt64 :=
  halves (murmur3HashSized str size seed) (murmur3HashSized str size seed2)

/-- `murmur3_hash64(const char*, const uint32_t&, const uint32_t&)`. -/
def murmur3Hash64 (str : Option (List UInt8)) (seed seed2 : UInt32) : Option UInt64 :=
  halves (murmur3Hash str seed) (murmur3Hash str seed2)

/-! ## The length of a string -/

section
variable {s : List UInt8}

theorem strlen_cStr (noNul : 0 ∉ s) : strlen (cStr s) = some s.length := by
  induction s with
  | nil => rfl
  | cons c s ih =>
    obtain ⟨first, later⟩ := List.ne_and_not_mem_of_not_mem_cons noNul
    have counted : strlen (s ++ [0]) = some s.length := ih later
    rw [cStr, List.cons_append, strlen, if_neg (Ne.symm first), counted]
    rfl

theorem toNat_size (small : s.length < 2 ^ 31) : (UInt32.ofNat s.length).toNat = s.length :=
  UInt32.toNat_ofNat_of_lt' (by rw [UInt32.size]; omega)

theorem toInt_size (small : s.length < 2 ^ 31) :
    (UInt32.ofNat s.length).toInt32.toInt = s.length := by
  rw [UInt32.toInt32_ofNat', Int32.toInt_ofNat_of_lt small]

/-! ## What the two loops of `quick_hash` compute -/

theorem quickHashLoop_cStr (noNul : 0 ∉ s) (h : UInt32) :
    quickHashLoop (cStr s) h = some (s.foldl quickStep h) := by
  induction s generalizing h with
  | nil => rfl
  | cons c s ih =>
    obtain ⟨first, later⟩ := List.ne_and_not_mem_of_not_mem_cons noNul
    have counted := ih later (quickStep h c)
    rw [cStr] at counted
    rw [cStr, List.cons_append, quickHashLoop, if_neg (Ne.symm first), counted, List.foldl_cons]

/-- The pointer does not move: it is the first byte in each pass. -/
theorem quickHashSizedLoop_eq {str : List UInt8} {c : UInt8} (first : byteAt str 0 = some c)
    (n : Nat) (h : UInt32) :
    quickHashSizedLoop str n h = some ((List.replicate n c).foldl quickStep h) := by
  induction n generalizing h with
  | zero => rfl
  | succ n ih =>
    rw [quickHashSizedLoop, first, List.replicate_succ, List.foldl_cons]
    exact ih (quickStep h c)

/-- The value of the `char` at a place. -/
def charAt (s : List UInt8) (i : Nat) : ℤ := (s.getD i 0).toInt8.toInt

theorem charToUInt_modEq : ∀ c : UInt8,
    ((charToUInt c).toNat : ℤ) % 4294967296 = c.toInt8.toInt % 4294967296 := by
  decide +kernel

theorem quickStep_modEq (h : UInt32) (c : UInt8) :
    ((quickStep h c).toNat : ℤ) ≡ 31 * (h.toNat : ℤ) + c.toInt8.toInt [ZMOD 4294967296] := by
  have wrapped : ((quickStep h c).toNat : ℤ) =
      (31 * (h.toNat : ℤ) + (charToUInt c).toNat) % 4294967296 := by
    rw [quickStep, UInt32.toNat_add, UInt32.toNat_mul]
    push_cast
    simp
  rw [wrapped]
  exact (Int.mod_modEq _ _).trans (Int.ModEq.add_left _ (charToUInt_modEq c))

/-- Two runs end alike if the polynomials do. -/
theorem quick_foldl_eq_iff (s t : List UInt8) :
    s.foldl quickStep 0 = t.foldl quickStep 0 ↔
      (2 ^ 32 : ℤ) ∣ eval 31 0 (s.map fun c => c.toInt8.toInt) -
        eval 31 0 (t.map fun c => c.toInt8.toInt) := by
  -- the words of both runs are the two values, modulo their size
  have left := foldl_modEq (fun h : UInt32 => (h.toNat : ℤ)) _ quickStep_modEq 0 s
  have right := foldl_modEq (fun h : UInt32 => (h.toNat : ℤ)) _ quickStep_modEq 0 t
  have same_nat : s.foldl quickStep 0 = t.foldl quickStep 0 ↔
      ((s.foldl quickStep 0).toNat : ℤ) ≡ (t.foldl quickStep 0).toNat [ZMOD 4294967296] := by
    have := (s.foldl quickStep 0).toNat_lt
    have := (t.foldl quickStep 0).toNat_lt
    rw [← UInt32.toNat_inj, Int.ModEq]
    omega
  rw [same_nat, show (2 ^ 32 : ℤ) = 4294967296 by norm_num, ← Int.modEq_iff_dvd]
  constructor
  · intro same
    exact (right.symm.trans same.symm).trans left
  · intro same
    exact (left.trans same.symm).trans right.symm

/-- By how much the characters differ from the first of them, each with the weight of its place. -/
def offFirst (s : List UInt8) : ℤ :=
  ∑ i ∈ range s.length, (charAt s i - charAt s 0) * 31 ^ (s.length - 1 - i)

theorem byteAt_cStr_zero (s : List UInt8) : byteAt (cStr s) 0 = some (s.getD 0 0) := by
  cases s <;> rfl

/-- The two forms of `quick_hash` agree where the weighted differences vanish. -/
theorem quick_iff (noNul : 0 ∉ s) (small : s.length < 2 ^ 31) :
    Agree (quickHash (cStr s)) (quickHashSized (cStr s) (UInt32.ofNat s.length)) ↔
      (2 ^ 32 : ℤ) ∣ offFirst s := by
  have counted : quickHash (cStr s) = some (s.foldl quickStep 0) := quickHashLoop_cStr noNul 0
  have sized : quickHashSized (cStr s) (UInt32.ofNat s.length) =
      some ((List.replicate s.length (s.getD 0 0)).foldl quickStep 0) := by
    rw [quickHashSized, toNat_size small, quickHashSizedLoop_eq (byteAt_cStr_zero s)]
  have agree : Agree (quickHash (cStr s)) (quickHashSized (cStr s) (UInt32.ofNat s.length)) ↔
      s.foldl quickStep 0 = (List.replicate s.length (s.getD 0 0)).foldl quickStep 0 := by
    rw [counted, sized]
    constructor
    · rintro ⟨h, left, right⟩
      exact (Option.some.inj left).trans (Option.some.inj right).symm
    · intro same
      exact ⟨_, rfl, congrArg some same.symm⟩
  -- the polynomial of the one, less that of the other
  have off := eval_sub_replicate (31 : ℤ) 0 (charAt s 0) (s.map fun c => c.toInt8.toInt)
  have digit : ∀ i, (s.map fun c => c.toInt8.toInt).getD i 0 = charAt s i := fun i =>
    List.getD_map s 0 fun c => c.toInt8.toInt
  rw [agree, quick_foldl_eq_iff, List.map_replicate]
  simp only [digit, List.length_map] at off
  exact iff_of_eq (congrArg _ off)

end

/-! ## `murmur3_hash` -/

section
variable {str : List UInt8}

theorem byteAt_some (str : List UInt8) {i : Int} (positive : 0 ≤ i) (inside : i < str.length) :
    ∃ b, byteAt str i = some b := by
  have there : i.toNat < str.length := by omega
  exact ⟨str[i.toNat], by rw [byteAt, if_pos positive, List.getElem?_eq_getElem there]⟩

theorem wordAt_some (str : List UInt8) {i : Nat} (inside : 4 * (i + 1) ≤ str.length) :
    ∃ s, wordAt str i = some s := by
  obtain ⟨b0, first⟩ := byteAt_some str (i := 4 * i) (by omega) (by omega)
  obtain ⟨b1, second⟩ := byteAt_some str (i := 4 * i + 1) (by omega) (by omega)
  obtain ⟨b2, third⟩ := byteAt_some str (i := 4 * i + 2) (by omega) (by omega)
  obtain ⟨b3, fourth⟩ := byteAt_some str (i := 4 * i + 3) (by omega) (by omega)
  simp [wordAt, first, second, third, fourth]

theorem blocks_some (str : List UInt8) {n i : Nat} (inside : 4 * (i + n) ≤ str.length) (h : UInt32) :
    ∃ h', blocks str n i h = some h' := by
  induction n generalizing i h with
  | zero => exact ⟨h, rfl⟩
  | succ n ih =>
    obtain ⟨s, word⟩ := wordAt_some str (i := i) (by omega)
    rw [blocks, word]
    exact ih (by omega) _

theorem tailWord_some (str : List UInt8) {tail : Int} {k : Nat} (positive : 0 ≤ tail) (few : k < 4)
    (inside : tail + k ≤ str.length) (s : UInt32) : ∃ s', tailWord str tail k s = some s' := by
  match k, few with
  | 0, _ => exact ⟨s, by simp [tailWord]⟩
  | 1, _ =>
    obtain ⟨b0, first⟩ := byteAt_some str positive (by omega)
    simp [tailWord, first]
  | 2, _ =>
    obtain ⟨b0, first⟩ := byteAt_some str positive (by omega)
    obtain ⟨b1, second⟩ := byteAt_some str (i := tail + 1) (by omega) (by omega)
    simp [tailWord, first, second]
  | 3, _ =>
    obtain ⟨b0, first⟩ := byteAt_some str positive (by omega)
    obtain ⟨b1, second⟩ := byteAt_some str (i := tail + 1) (by omega) (by omega)
    obtain ⟨b2, third⟩ := byteAt_some str (i := tail + 2) (by omega) (by omega)
    simp [tailWord, first, second, third]

/-- Within the bytes that are there, the hash is computed. -/
theorem murmur3_some {len : Nat} (inside : len ≤ str.length) (seed : UInt32) :
    ∃ h, murmur3 str len seed = some h := by
  -- `len` is not negative, so that `len / 4` and `len & 3` are what they are for numbers
  have blk : (len : Int).tdiv 4 = ((len / 4 : Nat) : Int) := by
    rw [Int.tdiv_eq_ediv_of_nonneg (by omega)]
    omega
  obtain ⟨h, mixed⟩ := blocks_some str (n := len / 4) (i := 0) (by omega) seed
  have behind : ((len / 4 : Nat) : Int) * 4 + ((len : Int) % 4).toNat ≤ str.length := by omega
  obtain ⟨s, last⟩ := tailWord_some str (by omega) (by omega) behind 0
  rw [murmur3, blk, Int.toNat_natCast, mixed]
  simp only [Option.bind_eq_bind, Option.bind_some, mixTail]
  split
  · exact ⟨_, rfl⟩
  · rw [last]
    exact ⟨_, rfl⟩

end

theorem murmur3Hash_some {s : List UInt8} (noNul : 0 ∉ s) (small : s.length < 2 ^ 31) (seed : UInt32) :
    ∃ h, murmur3Hash (some (cStr s)) seed = some h ∧ murmur3 (cStr s) s.length seed = some h := by
  have inside : s.length ≤ (cStr s).length := by simp [cStr]
  obtain ⟨h, computed⟩ := murmur3_some inside seed
  refine ⟨h, ?_, computed⟩
  rw [murmur3Hash, strlen_cStr noNul, ← computed, ← Int32.toInt_ofNat_of_lt small]
  rfl

/-- With a size that fits an `int`, the two forms have the same `len`. -/
theorem murmur3Hash_agree {s : List UInt8} (noNul : 0 ∉ s) (small : s.length < 2 ^ 31)
    (seed : UInt32) :
    Agree (murmur3Hash (some (cStr s)) seed)
      (murmur3HashSized (some (cStr s)) (UInt32.ofNat s.length) seed) := by
  obtain ⟨h, counted, computed⟩ := murmur3Hash_some noNul small seed
  refine ⟨h, counted, ?_⟩
  rw [murmur3HashSized, toInt_size small, computed]

/-- `hello`: one block, and a tail of one byte. -/
example : murmur3Hash (some (cStr [104, 101, 108, 108, 111])) 0 = some 0x248bfa47 := by
  decide +kernel

/-- Where all four arguments are written out, the two forms of `murmur3_hash64` agree. -/
theorem murmur3Hash64_agree {s : List UInt8} (noNul : 0 ∉ s) (small : s.length < 2 ^ 31)
    (seed seed2 : UInt32) :
    Agree (murmur3Hash64 (some (cStr s)) seed seed2)
      (murmur3Hash64Sized (some (cStr s)) (UInt32.ofNat s.length) seed seed2) := by
  obtain ⟨h, high, high'⟩ := murmur3Hash_agree noNul small seed
  obtain ⟨l, low, low'⟩ := murmur3Hash_agree noNul small seed2
  refine ⟨h.toUInt64 <<< 32 ||| l.toUInt64, ?_, ?_⟩
  · rw [murmur3Hash64, high, low]
    rfl
  · rw [murmur3Hash64Sized, high', low']
    rfl

/-! ## What the calls come to -/

/-- The default of `seed2`. -/
def defaultSeed2 : UInt32 := 1050126127

/-- `murmur3_hash64(s.c_str(), seed)`. -/
def hash64OfCStr (s : List UInt8) (seed : UInt32) : Option UInt64 :=
  murmur3Hash64 (some (cStr s)) seed defaultSeed2

/-- `murmur3_hash64(s.data(), s.size(), seed)`. What `data()` gives is a pointer to `char`, for which
the overload for C strings is the better match: it takes the size for `seed` and the seed for `seed2`. -/
def hash64OfData (s : List UInt8) (seed : UInt32) : Option UInt64 :=
  murmur3Hash64 (some (cStr s)) (UInt32.ofNat s.length) seed

/-- The calls for a string and those for its bytes and their number agree, for every seed. -/
structure CallsAgree (s : List UInt8) : Prop where
  quick : Agree (quickHash (cStr s)) (quickHashSized (cStr s) (UInt32.ofNat s.length))
  murmur : ∀ seed, Agree (murmur3Hash (some (cStr s)) seed)
    (murmur3HashSized (some (cStr s)) (UInt32.ofNat s.length) seed)
  murmur64 : ∀ seed, Agree (hash64OfCStr s seed) (hash64OfData s seed)

/-! ## A string has another hash for each seed -/

section
variable {x y : UInt32}

theorem xorShift_inj {k : UInt32} (near : k = 16 ∨ k = 13) (same : x ^^^ x >>> k = y ^^^ y >>> k) :
    x = y := by
  have bits := congrArg UInt32.toBitVec same
  simp only [UInt32.toBitVec_xor, UInt32.toBitVec_shiftRight] at bits
  have bit : ∀ i, (x.toBitVec ^^^ x.toBitVec >>> (k.toBitVec % 32)).getLsbD i =
      (y.toBitVec ^^^ y.toBitVec >>> (k.toBitVec % 32)).getLsbD i := fun i => by
    simpa using congrArg (fun b => b.getLsbD i) bits
  -- from the highest bit downwards
  apply UInt32.toBitVec_inj.mp
  apply BitVec.eq_of_getLsbD_eq
  intro i inside
  rcases near with rfl | rfl <;> simp at bit <;> grind

theorem mul_inj {c d : UInt32} (inverse : c * d = 1) (same : x * c = y * c) : x = y :=
  calc x = x * c * d := by rw [UInt32.mul_assoc, inverse, UInt32.mul_one]
    _ = y * c * d := by rw [same]
    _ = y := by rw [UInt32.mul_assoc, inverse, UInt32.mul_one]

theorem rotl_inj (same : rotl x 13 = rotl y 13) : x = y := by
  have bits := congrArg UInt32.toBitVec same
  simp only [rotl] at bits
  have bit := fun i => congrArg (fun b => b.getLsbD i) bits
  simp at bit
  apply UInt32.toBitVec_inj.mp
  apply BitVec.eq_of_getLsbD_eq
  intro i inside
  by_cases low : i < 19
  · have here := bit (i + 13)
    grind
  · have here := bit (i - 19)
    grind

theorem fmix32_inj (same : fmix32 x = fmix32 y) : x = y := by
  have last := xorShift_inj (.inl rfl) same
  have third := mul_inj (d := 2127672349) (by decide) last
  have second := xorShift_inj (.inr rfl) third
  exact xorShift_inj (.inl rfl) (mul_inj (d := 2781581891) (by decide) second)

theorem xor_inj {z : UInt32} (same : x ^^^ z = y ^^^ z) : x = y := UInt32.xor_left_inj z |>.mp same

/-- A pass of the loop over the blocks. -/
theorem block_inj {s : UInt32}
    (same : rotl (x ^^^ s) 13 * 5 + 0xe6546b64 = rotl (y ^^^ s) 13 * 5 + 0xe6546b64) : x = y :=
  xor_inj (rotl_inj (mul_inj (d := 3435973837) (by decide) (UInt32.add_left_inj _ |>.mp same)))

theorem blocks_inj {str : List UInt8} {n i : Nat} {h : UInt32} (left : blocks str n i x = some h)
    (right : blocks str n i y = some h) : x = y := by
  induction n generalizing i x y with
  | zero => exact Option.some.inj (left.trans right.symm)
  | succ n ih =>
    obtain ⟨s, word, left⟩ := Option.bind_eq_some_iff.mp left
    obtain ⟨s', word', right⟩ := Option.bind_eq_some_iff.mp right
    obtain rfl := Option.some.inj (word.symm.trans word')
    exact block_inj (ih left right)

theorem mixTail_inj {str : List UInt8} {tail : Int} {k : Nat} {h : UInt32}
    (left : mixTail str tail k x = some h) (right : mixTail str tail k y = some h) : x = y := by
  rw [mixTail] at left right
  split at left
  next none_ =>
    rw [if_pos none_] at right
    exact Option.some.inj (left.trans right.symm)
  next some_ =>
    rw [if_neg some_] at right
    obtain ⟨s, word, rfl⟩ := Option.map_eq_some_iff.mp left
    obtain ⟨s', word', same⟩ := Option.map_eq_some_iff.mp right
    obtain rfl := Option.some.inj (word.symm.trans word')
    exact (xor_inj same).symm

theorem murmur3_inj {str : List UInt8} {len : Int} {h : UInt32} (left : murmur3 str len x = some h)
    (right : murmur3 str len y = some h) : x = y := by
  obtain ⟨a, blocks_x, left⟩ := Option.bind_eq_some_iff.mp left
  obtain ⟨b, blocks_y, right⟩ := Option.bind_eq_some_iff.mp right
  obtain ⟨a', tail_x, left⟩ := Option.bind_eq_some_iff.mp left
  obtain ⟨b', tail_y, right⟩ := Option.bind_eq_some_iff.mp right
  have mixed : a' = b' :=
    xor_inj (fmix32_inj ((Option.some.inj left).trans (Option.some.inj right).symm))
  have same : a = b := mixTail_inj tail_x (mixed ▸ tail_y)
  exact blocks_inj blocks_x (same ▸ blocks_y)

theorem halves_inj {a b a' b' : UInt32}
    (same : a.toUInt64 <<< 32 ||| b.toUInt64 = a'.toUInt64 <<< 32 ||| b'.toUInt64) : a = a' ∧ b = b' := by
  have bits := congrArg UInt64.toBitVec same
  simp only [UInt64.toBitVec_or, UInt64.toBitVec_shiftLeft] at bits
  constructor
  · apply UInt32.toBitVec_inj.mp
    apply BitVec.eq_of_getLsbD_eq
    intro i inside
    have here := congrArg (fun b => b.getLsbD (i + 32)) bits
    simp at here
    grind
  · apply UInt32.toBitVec_inj.mp
    apply BitVec.eq_of_getLsbD_eq
    intro i inside
    have here := congrArg (fun b => b.getLsbD i) bits
    simp at here
    grind

end

/-- The two calls of `murmur3_hash64` agree for one seed and one length only. -/
theorem hash64_agree_iff {s : List UInt8} (noNul : 0 ∉ s) (small : s.length < 2 ^ 31) (seed : UInt32) :
    Agree (hash64OfCStr s seed) (hash64OfData s seed) ↔
      seed = defaultSeed2 ∧ UInt32.ofNat s.length = defaultSeed2 := by
  obtain ⟨a, of_seed, computed_a⟩ := murmur3Hash_some noNul small seed
  obtain ⟨b, of_default, computed_b⟩ := murmur3Hash_some noNul small defaultSeed2
  obtain ⟨c, of_size, computed_c⟩ := murmur3Hash_some noNul small (UInt32.ofNat s.length)
  have left : hash64OfCStr s seed = some (a.toUInt64 <<< 32 ||| b.toUInt64) := by
    rw [hash64OfCStr, murmur3Hash64, of_seed, of_default]
    rfl
  have right : hash64OfData s seed = some (c.toUInt64 <<< 32 ||| a.toUInt64) := by
    rw [hash64OfData, murmur3Hash64, of_size, of_seed]
    rfl
  rw [left, right]
  constructor
  · rintro ⟨h, is, is'⟩
    obtain ⟨high, low⟩ := halves_inj ((Option.some.inj is).trans (Option.some.inj is').symm)
    -- each half has its seed back
    have size_eq := murmur3_inj computed_a (high ▸ computed_c)
    have default_eq := murmur3_inj computed_a (low ▸ computed_b)
    exact ⟨default_eq, size_eq.symm.trans default_eq⟩
  · rintro ⟨rfl, size_eq⟩
    rw [size_eq] at computed_c
    obtain rfl := Option.some.inj (computed_a.symm.trans computed_b)
    obtain rfl := Option.some.inj (computed_a.symm.trans computed_c)
    exact ⟨_, rfl, rfl⟩

/-- The two forms of `murmur3_hash` agree, those of `murmur3_hash64` for one seed and one length only:
there is no string for which all three do. -/
theorem calls_never_agree (s : List UInt8) (noNul : 0 ∉ s) (small : s.length < 2 ^ 31) :
    (∀ seed, Agree (murmur3Hash (some (cStr s)) seed)
      (murmur3HashSized (some (cStr s)) (UInt32.ofNat s.length) seed)) ∧
    (∀ seed, Agree (hash64OfCStr s seed) (hash64OfData s seed) ↔
      seed = defaultSeed2 ∧ UInt32.ofNat s.length = defaultSeed2) ∧
    ¬ CallsAgree s := by
  refine ⟨murmur3Hash_agree noNul small, hash64_agree_iff noNul small, fun agree => ?_⟩
  obtain ⟨zero, -⟩ := (hash64_agree_iff noNul small 0).mp (agree.murmur64 0)
  exact absurd zero (by decide)

theorem calls_never_agree_ab : 0 ∉ ([97, 98] : List UInt8) ∧ ([97, 98] : List UInt8).length < 2 ^ 31 ∧
    ¬ CallsAgree [97, 98] :=
  ⟨by decide, by decide, (calls_never_agree [97, 98] (by decide) (by decide)).2.2⟩

/-- For `aa` and the seed 7 the two calls of `murmur3_hash64` differ, and `ab` is hashed by the one
`quick_hash` as if it were `aa`. -/
theorem calls_differ :
    ¬ (∀ s : List UInt8, 0 ∉ s → s.length < 2 ^ 31 → CallsAgree s) ∧
      ¬ Agree (hash64OfCStr [97, 97] 7) (hash64OfData [97, 97] 7) ∧
      quickHash (cStr [97, 98]) = some (31 * 97 + 98) ∧
      quickHashSized (cStr [97, 98]) 2 = some (31 * 97 + 97) := by
  have first : quickHash (cStr [97, 98]) = some (31 * 97 + 98) := by decide
  have second : quickHashSized (cStr [97, 98]) 2 = some (31 * 97 + 97) := by decide
  refine ⟨fun all => ?_, fun agree => ?_, first, second⟩
  · obtain ⟨h, counted, sized⟩ := (all [97, 98] (by decide) (by decide)).quick
    have same := (first.symm.trans counted).trans (sized.symm.trans second)
    exact absurd same (by decide)
  · obtain ⟨is_default, -⟩ := (hash64_agree_iff (s := [97, 97]) (by decide) (by decide) 7).mp agree
    exact absurd is_default (by decide)

/-! ## Strings on which `quick_hash` agrees with itself, and on which it does not -/

theorem offFirst_constant {s : List UInt8} (constant : ∀ i < s.length, charAt s i = charAt s 0) :
    offFirst s = 0 := by
  apply sum_eq_zero
  intro i inside
  rw [constant i (mem_range.mp inside), sub_self, zero_mul]

theorem charAt_bounds (s : List UInt8) (i : Nat) : -128 ≤ charAt s i ∧ charAt s i < 128 := by
  have char : ∀ c : UInt8, -128 ≤ c.toInt8.toInt ∧ c.toInt8.toInt < 128 := by decide +kernel
  exact char _

/-- One character that is not the first one is enough, if it is the only one. -/
theorem not_dvd_offFirst {s : List UInt8} {i : Nat} (inside : i < s.length)
    (differs : charAt s i ≠ charAt s 0)
    (others : ∀ j < s.length, j ≠ i → charAt s j = charAt s 0) :
    ¬ (2 ^ 32 : ℤ) ∣ offFirst s := by
  have only : offFirst s = (charAt s i - charAt s 0) * 31 ^ (s.length - 1 - i) := by
    apply sum_eq_single i
    · intro j within other
      rw [others j (mem_range.mp within) other, sub_self, zero_mul]
    · intro outside
      exact absurd (mem_range.mpr inside) outside
  rw [only]
  intro divides
  -- 31 is odd, so that its powers do not help
  have odd : IsCoprime (2 ^ 32 : ℤ) (31 ^ (s.length - 1 - i)) :=
    IsCoprime.pow (Int.isCoprime_iff_gcd_eq_one.mpr (by decide))
  have difference := odd.dvd_of_dvd_mul_right divides
  have here := charAt_bounds s i
  have first := charAt_bounds s 0
  -- two characters are less than 256 apart
  have zero := Int.eq_zero_of_abs_lt_dvd difference (by rw [abs_lt]; omega)
  omega

/-- A string of one character comes out right, whatever its length. -/
theorem quick_constant {s : List UInt8} (noNul : 0 ∉ s) (small : s.length < 2 ^ 31)
    (constant : ∀ i < s.length, charAt s i = charAt s 0) :
    Agree (quickHash (cStr s)) (quickHashSized (cStr s) (UInt32.ofNat s.length)) := by
  rw [quick_iff noNul small, offFirst_constant constant]
  exact dvd_zero _

/-- A string with one odd character out does not. -/
theorem quick_odd_one_out {s : List UInt8} (noNul : 0 ∉ s) (small : s.length < 2 ^ 31) {i : Nat}
    (inside : i < s.length) (differs : charAt s i ≠ charAt s 0)
    (others : ∀ j < s.length, j ≠ i → charAt s j = charAt s 0) :
    ¬ Agree (quickHash (cStr s)) (quickHashSized (cStr s) (UInt32.ofNat s.length)) := by
  rw [quick_iff noNul small]
  exact not_dvd_offFirst inside differs others

end ServerFrame.HashUtil
