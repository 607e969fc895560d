import ServerFrame.Lib.BitGroups
import Mathlib.Data.FinEnum

/-!
# `base64encode` and `base64decode`

Three bytes are four groups of six bits. The decoder writes into a string that is allocated before
and cut to what was written at the end.
-/
namespace ServerFrame.HashUtil

open BitGroups

/-- The characters of `base64`. -/
def base64Chars : List UInt8 :=
  "ABCDEFGHIJKLMNOPQRSTUVWXYZabcdefghijklmnopqrstuvwxyz0123456789+/".toList.map fun c =>
    c.toNat.toUInt8

/-- `base64[i]`. -/
def base64 (i : Nat) : UInt8 := base64Chars.getD i 0

/-- What the inner loops count. `packed` has 24 bits at most, so that the `int` does for it. -/
structure Group where
  i : Nat
  padding : Nat
  packed : Nat
  deriving DecidableEq, Repr

/-! ## The encoder -/

/-- `for (; i < 3 && ptr < end; ++i, ++ptr)`, with the passes that are left. -/
def readBytes : Nat → Group → List UInt8 → Group × List UInt8
  | 0, g, ptr => (g, ptr)
  | _ + 1, g, [] => (g, [])
  | n + 1, g, c :: ptr =>
    readBytes n { g with i := g.i + 1, packed := g.packed <<< 8 ||| c.toNat } ptr

/-- `for (; i < 3; ++i)`. -/
def fill : Nat → Nat → Nat
  | 0, packed => packed
  | n + 1, packed => fill n (packed <<< 8)

/-- What a round appends for the bytes that it has read. -/
def encodeGroup (g : Group) : List UInt8 :=
  let padding := if g.i = 2 then 1 else if g.i = 1 then 2 else 0
  let packed := fill (3 - g.i) g.packed
  [base64 (packed >>> 18), base64 (packed >>> 12 &&& 0x3f)] ++
    (if padding ≠ 2 then [base64 (packed >>> 6 &&& 0x3f)] else []) ++
    (if padding = 0 then [base64 (packed &&& 0x3f)] else []) ++ List.replicate padding 61

theorem readBytes_length (n : Nat) (g : Group) (c : UInt8) (ptr : List UInt8) :
    (readBytes (n + 1) g (c :: ptr)).2.length < (c :: ptr).length := by
  induction n generalizing g c ptr with
  | zero => exact Nat.lt_succ_self _
  | succ n ih =>
    cases ptr with
    | nil => exact Nat.lt_succ_self _
    | cons c' ptr => exact (ih _ c' ptr).trans (Nat.lt_succ_self _)

/-- `base64encode(const void*, size_t)`, and with the bytes of a string the other one. -/
def base64encode : List UInt8 → List UInt8
  | [] => []
  | c :: ptr =>
    let round := readBytes 3 ⟨0, 0, 0⟩ (c :: ptr)
    encodeGroup round.1 ++ base64encode round.2
termination_by data => data.length
decreasing_by exact readBytes_length 2 _ c ptr

/-! ## The decoder -/

/-- `val`, unless the character is invalid. A `char` above 127 is negative and in no range. -/
def base64Val (c : UInt8) : Option Nat :=
  if 65 ≤ c ∧ c ≤ 90 then some (c.toNat - 65)
  else if 97 ≤ c ∧ c ≤ 122 then some (c.toNat - 97 + 26)
  else if 48 ≤ c ∧ c ≤ 57 then some (c.toNat - 48 + 52)
  else if c = 43 then some 62
  else if c = 47 then some 63
  else none

/-- `for (; i < 4 && ptr < end; ++i, ++ptr)`, with the passes that are left. There is no result
where the function returns the empty string. -/
def readChars : Nat → Group → List UInt8 → Option (Group × List UInt8)
  | 0, g, ptr => some (g, ptr)
  | _ + 1, g, [] => some (g, [])
  | n + 1, g, c :: ptr =>
    if c = 61 then
      readChars n { g with i := g.i + 1, padding := g.padding + 1, packed := g.packed <<< 6 } ptr
    -- padding with "=" only
    else if 0 < g.padding then none
    else
      match base64Val c with
      | none => none
      | some val => readChars n { g with i := g.i + 1, packed := g.packed <<< 6 ||| val } ptr

/-- The inner loop and the tests behind it. -/
def readGroup (ptr : List UInt8) : Option (Group × List UInt8) :=
  match readChars 4 ⟨0, 0, 0⟩ ptr with
  | none => none
  | some (g, ptr) =>
    if g.i ≠ 4 then none
    else if 0 < g.padding ∧ ptr ≠ [] then none
    else if 2 < g.padding then none
    else some (g, ptr)

/-- `result` and how far `writeBuf` is in it. -/
structure WriteBuf where
  result : List UInt8
  writeBuf : Nat

namespace WriteBuf

/-- `*writeBuf++ = (char)c`. Behind the end of `result` there is nothing to write to. -/
def put (w : WriteBuf) (c : Nat) : Option WriteBuf :=
  if w.writeBuf < w.result.length then
    some ⟨w.result.set w.writeBuf (UInt8.ofNat c), w.writeBuf + 1⟩
  else none

def putGroup (w : WriteBuf) (g : Group) : Option WriteBuf := do
  let w ← w.put (g.packed >>> 16 &&& 0xff)
  let w ← if g.padding ≠ 2 then w.put (g.packed >>> 8 &&& 0xff) else some w
  if g.padding = 0 then w.put (g.packed &&& 0xff) else some w

/-- `result.resize(writeBuf - result.c_str())`. -/
def written (w : WriteBuf) : List UInt8 := w.result.take w.writeBuf

end WriteBuf

theorem readChars_length {n : Nat} {g g' : Group} {ptr ptr' : List UInt8}
    (read : readChars n g ptr = some (g', ptr')) :
    ptr'.length ≤ ptr.length ∧ (0 < n → ptr ≠ [] → ptr'.length < ptr.length) := by
  induction n generalizing g ptr with
  | zero =>
    cases read
    exact ⟨Nat.le_refl _, fun pos => absurd pos (Nat.lt_irrefl 0)⟩
  | succ n ih =>
    cases ptr with
    | nil =>
      cases read
      exact ⟨Nat.le_refl _, fun _ some_ => absurd rfl some_⟩
    | cons c ptr =>
      have shorter : ptr'.length ≤ ptr.length := by
        rw [readChars] at read
        split at read
        · exact (ih read).1
        · split at read
          · cases read
          · split at read
            · cases read
            · exact (ih read).1
      exact ⟨Nat.le_succ_of_le shorter, fun _ _ => Nat.lt_succ_of_le shorter⟩

theorem readGroup_spec {g : Group} {ptr ptr' : List UInt8} :
    readGroup ptr = some (g, ptr') ↔ readChars 4 ⟨0, 0, 0⟩ ptr = some (g, ptr') ∧
      g.i = 4 ∧ (g.padding = 0 ∨ ptr' = []) ∧ g.padding ≤ 2 := by
  rw [readGroup]
  cases read : readChars 4 ⟨0, 0, 0⟩ ptr with
  | none => simp
  | some round =>
    obtain ⟨g', ptr''⟩ := round
    dsimp only
    split
    next short =>
      simp only [reduceCtorEq, Option.some.injEq, Prod.mk.injEq, false_iff]
      rintro ⟨⟨rfl, -⟩, whole, -⟩
      exact short whole
    next whole =>
      split
      next behind =>
        simp only [reduceCtorEq, Option.some.injEq, Prod.mk.injEq, false_iff]
        rintro ⟨⟨rfl, rfl⟩, -, none_ | none_, -⟩
        · omega
        · exact behind.2 none_
      next end_ =>
        split
        next much =>
          simp only [reduceCtorEq, Option.some.injEq, Prod.mk.injEq, false_iff]
          rintro ⟨⟨rfl, -⟩, -, -, few⟩
          omega
        next few =>
          simp only [Option.some.injEq, Prod.mk.injEq]
          constructor
          · rintro ⟨rfl, rfl⟩
            refine ⟨⟨rfl, rfl⟩, by omega, ?_, by omega⟩
            by_cases none_ : ptr'' = []
            · exact .inr none_
            · exact .inl (by_contra fun some_ => end_ ⟨Nat.pos_of_ne_zero some_, none_⟩)
          · exact fun facts => facts.1

/-- `while (ptr < end)`. Without a result something would be written behind the end of what is
allocated. -/
def decodeLoop (ptr : List UInt8) (w : WriteBuf) : Option (List UInt8) :=
  if ptr = [] then some w.written
  else
    match _ : readGroup ptr with
    | none => some []
    | some (g, ptr') =>
      match w.putGroup g with
      | none => none
      | some w => decodeLoop ptr' w
termination_by ptr.length
decreasing_by
  have read : readGroup ptr = some (g, ptr') := ‹_›
  exact (readChars_length (readGroup_spec.mp read).1).2 (by decide) ‹_›

/-- `base64decode`. -/
def base64decode (src : List UInt8) : Option (List UInt8) :=
  decodeLoop src ⟨List.replicate (src.length * 3 / 4) 0, 0⟩

/-! ## The alphabet -/

theorem alphabet :
    (∀ v < 64, base64Val (base64 v) = some v ∧ base64 v ≠ 61) ∧
      ∀ c : UInt8, ∀ v ∈ base64Val c, v < 64 ∧ base64 v = c := by
  decide +kernel

theorem length_base64Chars : base64Chars.length = 64 := rfl

theorem mem_base64Chars (c : UInt8) : c ∈ base64Chars ↔ ∃ v < 64, base64 v = c := by
  rw [List.mem_iff_getElem, ← length_base64Chars]
  constructor
  · rintro ⟨v, inside, rfl⟩
    exact ⟨v, inside, List.getD_eq_getElem base64Chars 0 inside⟩
  · rintro ⟨v, inside, rfl⟩
    exact ⟨v, inside, (List.getD_eq_getElem base64Chars 0 inside).symm⟩

/-! ## A group of the encoder -/

/-- The groups of six bits of three bytes, or of fewer with `p` missing. -/
def sextets (p : Nat) (xs : List UInt8) : List Nat :=
  unpack 6 (4 - p) (pack 8 0 (xs.map UInt8.toNat) * 2 ^ (2 * p))

theorem length_sextets {p : Nat} (few : p ≤ 2) (xs : List UInt8) :
    (sextets p xs).length + p = 4 := by
  rw [sextets, length_unpack]
  omega

theorem toNat_lt_of_mem (xs : List UInt8) : ∀ g ∈ xs.map UInt8.toNat, g < 2 ^ 8 := by
  intro g member
  obtain ⟨c, -, rfl⟩ := List.mem_map.mp member
  exact c.toNat_lt

theorem readBytes_append (xs : List UInt8) (n : Nat) (g : Group) (rest : List UInt8) :
    readBytes (xs.length + n) g (xs ++ rest) =
      readBytes n ⟨g.i + xs.length, g.padding, pack 8 g.packed (xs.map UInt8.toNat)⟩ rest := by
  induction xs generalizing g with
  | nil => simp
  | cons c xs ih =>
    have passes : (c :: xs).length + n = xs.length + n + 1 := by simp only [List.length_cons]; omega
    rw [passes, List.cons_append, readBytes, ih]
    simp only [List.map_cons, pack_cons, List.length_cons, Nat.add_assoc, Nat.add_comm 1]

theorem readBytes_stop {n : Nat} {rest : List UInt8} (stop : n = 0 ∨ rest = []) (g : Group) :
    readBytes n g rest = (g, rest) := by
  rcases stop with rfl | rfl
  · rfl
  · cases n <;> rfl

theorem and_sextet (x : Nat) : x &&& 0x3f = x % 64 := Nat.and_two_pow_sub_one_eq_mod x 6

theorem and_octet (x : Nat) : x &&& 0xff = x % 256 := Nat.and_two_pow_sub_one_eq_mod x 8

/-- The characters of a group are its sextets; the places that are missing are filled up. -/
theorem encodeGroup_eq {p X : Nat} (few : p ≤ 2) (small : X < 2 ^ (8 * (3 - p))) :
    encodeGroup ⟨3 - p, 0, X⟩ =
      (unpack 6 (4 - p) (X * 2 ^ (2 * p))).map base64 ++ List.replicate p 61 := by
  -- one shift fewer for each place that is missing, and the same number below it
  obtain rfl | rfl | rfl : p = 0 ∨ p = 1 ∨ p = 2 := by omega
  all_goals
    simp [encodeGroup, fill, unpack, and_sextet, Nat.shiftLeft_eq, Nat.shiftRight_eq_div_pow]
      at small ⊢
  · exact congrArg base64 (by omega)
  · exact ⟨congrArg base64 (by omega), congrArg base64 (by omega), congrArg base64 (by omega)⟩
  · exact ⟨congrArg base64 (by omega), congrArg base64 (by omega)⟩

theorem base64encode_eq {data : List UInt8} (some_ : data ≠ []) :
    base64encode data = encodeGroup (readBytes 3 ⟨0, 0, 0⟩ data).1 ++
      base64encode (readBytes 3 ⟨0, 0, 0⟩ data).2 := by
  cases data with
  | nil => exact absurd rfl some_
  | cons c ptr => rw [base64encode]

/-- One round of the encoder. Fewer than three bytes are the last ones. -/
theorem encode_group {xs rest : List UInt8} {p : Nat} (size : xs.length + p = 3) (few : p ≤ 2)
    (last : p = 0 ∨ rest = []) : base64encode (xs ++ rest) =
      (sextets p xs).map base64 ++ List.replicate p 61 ++ base64encode rest := by
  have some_ : xs ++ rest ≠ [] := by
    intro none_
    rw [List.append_eq_nil_iff] at none_
    simp only [none_.1, List.length_nil] at size
    omega
  have round := readBytes_append xs p ⟨0, 0, 0⟩ rest
  rw [size, readBytes_stop last] at round
  have count : xs.length = 3 - p := by omega
  have small := pack_lt (w := 8) (toNat_lt_of_mem xs)
  rw [List.length_map, count] at small
  rw [base64encode_eq some_, round]
  simp only [Nat.zero_add, count, encodeGroup_eq few small, sextets]

/-- Behind a group with a place missing nothing is encoded. -/
theorem encode_last {p : Nat} {rest : List UInt8} (last : p = 0 ∨ rest = []) :
    p = 0 ∨ base64encode rest = [] := by
  rcases last with whole | rfl
  · exact .inl whole
  · exact .inr (by rw [base64encode])

/-- Bytes are groups of three, and the last one may have fewer. -/
theorem group_induction {P : List UInt8 → Prop} (nil : P [])
    (group : ∀ xs rest p, xs.length + p = 3 → p ≤ 2 → (p = 0 ∨ rest = []) → P rest → P (xs ++ rest))
    (data : List UInt8) : P data := by
  match data with
  | [] => exact nil
  | [a] => exact group [a] [] 2 rfl (by decide) (.inr rfl) nil
  | [a, b] => exact group [a, b] [] 1 rfl (by decide) (.inr rfl) nil
  | a :: b :: c :: rest =>
    exact group [a, b, c] rest 0 rfl (by decide) (.inl rfl) (group_induction nil group rest)

/-! ## A group of the decoder -/

/-- The bytes of four values, or of fewer with `p` missing. -/
def octets (p : Nat) (vs : List Nat) : List UInt8 :=
  (unpack 8 (3 - p) (pack 6 0 vs / 2 ^ (2 * p))).map UInt8.ofNat

theorem readChars_base64 {vs : List Nat} (small : ∀ v ∈ vs, v < 64) (n i packed : Nat)
    (rest : List UInt8) : readChars (vs.length + n) ⟨i, 0, packed⟩ (vs.map base64 ++ rest) =
      readChars n ⟨i + vs.length, 0, pack 6 packed vs⟩ rest := by
  induction vs generalizing i packed with
  | nil => simp
  | cons v vs ih =>
    have value := small v List.mem_cons_self
    have others := fun v member => small v (List.mem_cons_of_mem _ member)
    have passes : (v :: vs).length + n = vs.length + n + 1 := by simp only [List.length_cons]; omega
    rw [passes, List.map_cons, List.cons_append, readChars, if_neg (alphabet.1 v value).2,
      if_neg (Nat.lt_irrefl 0)]
    simp only [(alphabet.1 v value).1]
    rw [ih others]
    simp only [pack_cons, List.length_cons, Nat.add_assoc, Nat.add_comm 1]

theorem readChars_padding (p n i padding packed : Nat) (rest : List UInt8) :
    readChars (p + n) ⟨i, padding, packed⟩ (List.replicate p 61 ++ rest) =
      readChars n ⟨i + p, padding + p, packed * 2 ^ (6 * p)⟩ rest := by
  induction p generalizing i padding packed with
  | zero => simp
  | succ p ih =>
    have passes : p + 1 + n = p + n + 1 := by omega
    have shifted : packed <<< 6 * 2 ^ (6 * p) = packed * 2 ^ (6 * (p + 1)) := by
      rw [Nat.shiftLeft_eq, Nat.mul_assoc, ← pow_add, Nat.mul_succ, Nat.add_comm]
    rw [passes, List.replicate_succ, List.cons_append, readChars, if_pos rfl]
    dsimp only
    rw [ih, shifted]
    simp only [Nat.add_assoc, Nat.add_comm 1]

theorem readChars_stop {n : Nat} {rest : List UInt8} (stop : n = 0 ∨ rest = []) (g : Group) :
    readChars n g rest = some (g, rest) := by
  rcases stop with rfl | rfl
  · rfl
  · cases n <;> rfl

theorem readGroup_eq {vs : List Nat} {p : Nat} {rest : List UInt8} (size : vs.length + p = 4)
    (few : p ≤ 2) (small : ∀ v ∈ vs, v < 64) (last : p = 0 ∨ rest = []) :
    readGroup (vs.map base64 ++ (List.replicate p 61 ++ rest)) =
      some (⟨4, p, pack 6 0 vs * 2 ^ (6 * p)⟩, rest) := by
  rw [readGroup_spec]
  refine ⟨?_, rfl, last, few⟩
  have values := readChars_base64 small p 0 0 (List.replicate p 61 ++ rest)
  have padding := readChars_padding p 0 vs.length 0 (pack 6 0 vs) rest
  rw [size, Nat.zero_add] at values
  rw [Nat.add_zero] at padding
  rw [values, padding, readChars_stop (.inl rfl), size, Nat.zero_add]

namespace WriteBuf

variable {w : WriteBuf}

theorem put_written {c : Nat} (room : w.writeBuf < w.result.length) :
    ∃ w', w.put c = some w' ∧ w'.result.length = w.result.length ∧
      w'.writeBuf = w.writeBuf + 1 ∧ w'.written = w.written ++ [UInt8.ofNat c] := by
  refine ⟨_, if_pos room, List.length_set, rfl, ?_⟩
  simp only [written]
  rw [List.take_add_one, List.getElem?_set_self room, List.take_set_of_le (Nat.le_refl _)]
  rfl

/-- Several characters, one after the other. -/
theorem putAll_written {cs : List Nat} (room : w.writeBuf + cs.length ≤ w.result.length) :
    ∃ w', cs.foldlM put w = some w' ∧ w'.result.length = w.result.length ∧
      w'.writeBuf = w.writeBuf + cs.length ∧ w'.written = w.written ++ cs.map UInt8.ofNat := by
  induction cs generalizing w with
  | nil => exact ⟨w, by simp⟩
  | cons c cs ih =>
    rw [List.length_cons] at room
    obtain ⟨w₁, first, size₁, pos₁, written₁⟩ := put_written (w := w) (c := c) (by omega)
    obtain ⟨w₂, others, size₂, pos₂, written₂⟩ := ih (w := w₁) (by omega)
    refine ⟨w₂, ?_, by omega, ?_, ?_⟩
    · simp [first, others]
    · rw [pos₂, pos₁, List.length_cons]; omega
    · simp [written₂, written₁]

theorem putGroup_eq {p V : Nat} (few : p ≤ 2) (small : V < 2 ^ (6 * (4 - p))) (w : WriteBuf) :
    w.putGroup ⟨4, p, V * 2 ^ (6 * p)⟩ = (unpack 8 (3 - p) (V / 2 ^ (2 * p))).foldlM put w := by
  -- three bytes, two or one; the shifts of the padding are undone by those of `putGroup`
  obtain rfl | rfl | rfl : p = 0 ∨ p = 1 ∨ p = 2 := by omega
  all_goals
    simp [putGroup, unpack, and_octet, Nat.shiftRight_eq_div_pow] at small ⊢
  · have high : V * 64 / 65536 % 256 = V / 4 / 256 % 256 := by omega
    have low : V * 64 / 256 % 256 = V / 4 % 256 := by omega
    rw [high, low]
  · have top : V * 4096 / 65536 % 256 = V / 16 % 256 := by omega
    rw [top]

end WriteBuf

/-- One round of the decoder. -/
theorem decode_group {vs : List Nat} {p : Nat} {rest : List UInt8} {w : WriteBuf}
    (size : vs.length + p = 4) (few : p ≤ 2) (small : ∀ v ∈ vs, v < 64) (last : p = 0 ∨ rest = [])
    (room : w.writeBuf + (3 - p) ≤ w.result.length) :
    ∃ w', decodeLoop (vs.map base64 ++ (List.replicate p 61 ++ rest)) w = decodeLoop rest w' ∧
      w'.result.length = w.result.length ∧ w'.writeBuf = w.writeBuf + (3 - p) ∧
      w'.written = w.written ++ octets p vs := by
  have some_ : vs.map base64 ++ (List.replicate p 61 ++ rest) ≠ [] := by
    intro none_
    rw [List.append_eq_nil_iff, List.map_eq_nil_iff] at none_
    simp only [none_.1, List.length_nil] at size
    omega
  have count : vs.length = 4 - p := by omega
  have fits := pack_lt (w := 6) small
  rw [count] at fits
  have room' : w.writeBuf + (unpack 8 (3 - p) (pack 6 0 vs / 2 ^ (2 * p))).length ≤
      w.result.length := by
    rwa [length_unpack]
  obtain ⟨w', put, facts⟩ := WriteBuf.putAll_written room'
  rw [length_unpack] at facts
  refine ⟨w', ?_, facts⟩
  rw [decodeLoop, if_neg some_]
  split
  next read =>
    rw [readGroup_eq size few small last] at read
    cases read
  next g ptr' read =>
    rw [readGroup_eq size few small last] at read
    obtain ⟨rfl, rfl⟩ := Prod.mk.inj (Option.some.inj read)
    rw [WriteBuf.putGroup_eq few fits, put]

/-! ## Groups there and back -/

section Groups

variable {p : Nat}

/-- A place that is missing takes two bits of the next group with it. -/
theorem octets_sextets {xs : List UInt8} (size : xs.length + p = 3) (few : p ≤ 2) :
    octets p (sextets p xs) = xs := by
  have small := pack_lt (w := 8) (toNat_lt_of_mem xs)
  have count : (xs.map UInt8.toNat).length = 3 - p := by rw [List.length_map]; omega
  have fits : pack 8 0 (xs.map UInt8.toNat) * 2 ^ (2 * p) < 2 ^ (6 * (4 - p)) := by
    have bits : 6 * (4 - p) = 8 * (3 - p) + 2 * p := by omega
    rw [bits, pow_add, ← count]
    exact Nat.mul_lt_mul_of_pos_right small (Nat.two_pow_pos _)
  rw [octets, sextets, pack_zero_unpack fits, Nat.mul_div_cancel _ (Nat.two_pow_pos _), ← count,
    unpack_pack (toNat_lt_of_mem xs), List.map_map]
  have same : UInt8.ofNat ∘ UInt8.toNat = id := funext fun _ => UInt8.ofNat_toNat
  rw [same, List.map_id]

theorem map_toNat_ofNat {gs : List Nat} (small : ∀ g ∈ gs, g < 2 ^ 8) :
    (gs.map UInt8.ofNat).map UInt8.toNat = gs := by
  have same : gs.map (UInt8.toNat ∘ UInt8.ofNat) = gs.map id :=
    List.map_congr_left fun g member => UInt8.toNat_ofNat_of_lt' (small g member)
  rw [List.map_map, same, List.map_id]

/-- The last value loses the bits that are no part of a whole byte. -/
theorem sextets_octets {us : List Nat} {v : Nat} (size : us.length + 1 + p = 4) (few : p ≤ 2)
    (small : ∀ u ∈ us ++ [v], u < 2 ^ 6) :
    sextets p (octets p (us ++ [v])) = us ++ [v / 4 ^ p * 4 ^ p] := by
  have count : (us ++ [v]).length = 4 - p := by rw [List.length_append, List.length_singleton]; omega
  have fits := pack_lt small
  rw [count] at fits
  have whole : pack 6 0 (us ++ [v]) / 2 ^ (2 * p) < 2 ^ (8 * (3 - p)) := by
    have bits : 6 * (4 - p) = 8 * (3 - p) + 2 * p := by omega
    rw [bits, pow_add] at fits
    exact Nat.div_lt_of_lt_mul (by rwa [Nat.mul_comm])
  have last : v < 64 := small v (by simp)
  -- cutting `2 * p` bits off the whole number clears them in its last group only
  have cleared : v / 4 ^ p * 4 ^ p < 64 := (Nat.div_mul_le_self v (4 ^ p)).trans_lt last
  have packed : pack 6 0 (us ++ [v]) / 2 ^ (2 * p) * 2 ^ (2 * p) =
      pack 6 0 (us ++ [v / 4 ^ p * 4 ^ p]) := by
    have four : (2 : Nat) ^ (2 * p) = 4 ^ p := pow_mul 2 2 p
    rw [pack_append, pack_append, pack_cons, pack_cons, pack_nil, pack_nil, shiftLeft_or last,
      shiftLeft_or cleared, four]
    obtain rfl | rfl | rfl : p = 0 ∨ p = 1 ∨ p = 2 := by omega
    all_goals omega
  have bounded : ∀ u ∈ us ++ [v / 4 ^ p * 4 ^ p], u < 2 ^ 6 := by
    intro u member
    rcases List.mem_append.mp member with front | back
    · exact small u (List.mem_append_left _ front)
    · exact List.mem_singleton.mp back ▸ cleared
  have count' : (us ++ [v / 4 ^ p * 4 ^ p]).length = 4 - p := by
    rw [List.length_append, List.length_singleton]; omega
  rw [sextets, octets, map_toNat_ofNat (fun _ => unpack_lt), pack_zero_unpack whole, packed, ← count',
    unpack_pack bounded]

theorem length_octets (p : Nat) (vs : List Nat) : (octets p vs).length = 3 - p := by
  rw [octets, List.length_map, length_unpack]

end Groups

/-! ## Whole strings -/

/-- The decoder writes `x` for `s`, wherever it stands in a string with room for it. -/
structure Decodes (s x : List UInt8) : Prop where
  fits : 4 * x.length ≤ 3 * s.length
  loop : ∀ w : WriteBuf, w.writeBuf + x.length ≤ w.result.length →
    decodeLoop s w = some (w.written ++ x)

theorem Decodes.nil : Decodes [] [] where
  fits := Nat.le_refl _
  loop w _ := by rw [decodeLoop, if_pos rfl, List.append_nil]

theorem Decodes.group {vs : List Nat} {p : Nat} {rest x : List UInt8} (size : vs.length + p = 4)
    (few : p ≤ 2) (small : ∀ v ∈ vs, v < 64) (last : p = 0 ∨ rest = []) (decodes : Decodes rest x) :
    Decodes (vs.map base64 ++ (List.replicate p 61 ++ rest)) (octets p vs ++ x) := by
  have fits := decodes.fits
  refine ⟨?_, fun w room => ?_⟩
  · simp only [List.length_append, List.length_map, List.length_replicate, length_octets]
    omega
  · rw [List.length_append, length_octets] at room
    obtain ⟨w', round, size', pos, written⟩ :=
      decode_group (w := w) size few small last (by omega)
    rw [round, decodes.loop w' (by omega), written, List.append_assoc]

/-- There is room for what is decoded: three bytes for each four characters. -/
theorem Decodes.decoded {s x : List UInt8} (decodes : Decodes s x) : base64decode s = some x := by
  have fits := decodes.fits
  rw [base64decode, decodes.loop]
  · simp [WriteBuf.written]
  · rw [List.length_replicate, Nat.zero_add]
    omega

/-- Round by round, what the encoder makes of a group is read as that group. -/
theorem decodes_encode (x : List UInt8) : Decodes (base64encode x) x := by
  induction x using group_induction with
  | nil =>
    rw [base64encode]
    exact .nil
  | group xs rest p size few last ih =>
    have count := length_sextets few xs
    have group := Decodes.group count few (fun _ => unpack_lt) (encode_last last) ih
    rwa [octets_sextets size few, ← List.append_assoc, ← encode_group size few last] at group

/-! ## What is accepted -/

/-- Characters of the alphabet, and up to two equals signs at the very end. -/
structure Padded (s : List UInt8) : Prop where
  size : s.length % 4 = 0
  shape : ∃ body p, s = body ++ List.replicate p 61 ∧ (∀ c ∈ body, c ∈ base64Chars) ∧ p ≤ 2

theorem Padded.nil : Padded [] := ⟨rfl, [], 0, by simp⟩

theorem exists_values {body : List UInt8} (chars : ∀ c ∈ body, c ∈ base64Chars) :
    ∃ vs : List Nat, body = vs.map base64 ∧ ∀ v ∈ vs, v < 64 := by
  induction body with
  | nil => exact ⟨[], by simp⟩
  | cons c body ih =>
    obtain ⟨v, small, rfl⟩ := (mem_base64Chars c).mp (chars c List.mem_cons_self)
    obtain ⟨vs, rfl, others⟩ := ih fun c member => chars c (List.mem_cons_of_mem _ member)
    exact ⟨v :: vs, rfl, by simpa [small] using others⟩

theorem chars_of_values {vs : List Nat} (small : ∀ v ∈ vs, v < 64) :
    ∀ c ∈ vs.map base64, c ∈ base64Chars := by
  intro c member
  obtain ⟨v, inside, rfl⟩ := List.mem_map.mp member
  exact (mem_base64Chars _).mpr ⟨v, small v inside, rfl⟩

/-- What the inner loop has read: characters, and behind the first equals sign nothing else. -/
theorem readChars_shape {n i padding packed : Nat} {g : Group} {ptr ptr' : List UInt8}
    (read : readChars n ⟨i, padding, packed⟩ ptr = some (g, ptr')) :
    ∃ body k, ptr = body ++ (List.replicate k 61 ++ ptr') ∧ (∀ c ∈ body, c ∈ base64Chars) ∧
      (padding ≠ 0 → body = []) ∧ g.i = i + body.length + k ∧ g.padding = padding + k := by
  induction n generalizing i padding packed ptr with
  | zero =>
    cases read
    exact ⟨[], 0, by simp⟩
  | succ n ih =>
    cases ptr with
    | nil =>
      cases read
      exact ⟨[], 0, by simp⟩
    | cons c ptr =>
      rw [readChars] at read
      split at read
      next pad =>
        -- an equals sign: from here on `padding` is not 0, so there are no characters behind it
        obtain ⟨body, k, rfl, -, none_, count, paddings⟩ := ih read
        obtain rfl := none_ (Nat.succ_ne_zero _)
        refine ⟨[], k + 1, ?_, by simp, fun _ => rfl, ?_, ?_⟩
        · simp [pad, List.replicate_succ]
        · simp only [List.length_nil] at count ⊢
          omega
        · simp only at paddings
          omega
      next =>
        split at read
        next => cases read
        next none_ =>
          -- a character, which is refused behind an equals sign
          have first : padding = 0 := by simpa using none_
          split at read
          next => cases read
          next val value =>
            obtain ⟨body, k, rfl, chars, -, count, paddings⟩ := ih read
            obtain ⟨small, char⟩ := alphabet.2 c val value
            refine ⟨c :: body, k, rfl, ?_, fun some_ => absurd first some_, ?_, paddings⟩
            · intro b member
              rcases List.mem_cons.mp member with rfl | later
              · exact (mem_base64Chars b).mpr ⟨val, small, char⟩
              · exact chars b later
            · simp only [List.length_cons] at count ⊢
              omega

theorem readGroup_shape {g : Group} {ptr ptr' : List UInt8} (read : readGroup ptr = some (g, ptr')) :
    ∃ (vs : List Nat) (p : Nat), ptr = vs.map base64 ++ (List.replicate p 61 ++ ptr') ∧
      vs.length + p = 4 ∧ p ≤ 2 ∧ (∀ v ∈ vs, v < 64) ∧ (p = 0 ∨ ptr' = []) := by
  obtain ⟨chars, whole, last, few⟩ := readGroup_spec.mp read
  obtain ⟨body, k, rfl, members, -, count, paddings⟩ := readChars_shape chars
  obtain ⟨vs, rfl, small⟩ := exists_values members
  rw [List.length_map] at count
  rw [Nat.zero_add] at paddings
  exact ⟨vs, k, rfl, by omega, by omega, small, paddings ▸ last⟩

/-- A string is accepted group by group. -/
theorem padded_iff {s : List UInt8} (some_ : s ≠ []) :
    Padded s ↔ ∃ g rest, readGroup s = some (g, rest) ∧ Padded rest := by
  constructor
  · rintro ⟨size, body, p, rfl, chars, few⟩
    have pos := List.length_pos_iff.mpr some_
    rw [List.length_append, List.length_replicate] at size pos
    by_cases one : body.length + p = 4
    · -- the last group
      obtain ⟨vs, rfl, small⟩ := exists_values chars
      rw [List.length_map] at one
      have read := readGroup_eq one few small (.inr rfl)
      rw [List.append_nil] at read
      exact ⟨_, _, read, .nil⟩
    · -- another group stands in front of the one with the padding
      obtain ⟨vs, values, small⟩ := exists_values fun c (member : c ∈ body.take 4) =>
        chars c (List.mem_of_mem_take member)
      have count : vs.length + 0 = 4 := by
        rw [Nat.add_zero, ← List.length_map (f := base64), ← values, List.length_take]
        omega
      have cut : body = vs.map base64 ++ body.drop 4 := by rw [← values, List.take_append_drop]
      have behind : (0 : Nat) = 0 ∨ body.drop 4 ++ List.replicate p 61 = [] := .inl rfl
      have read := readGroup_eq count (Nat.zero_le 2) small behind
      rw [List.replicate_zero, List.nil_append, ← List.append_assoc, ← cut] at read
      have size' : (body.drop 4 ++ List.replicate p 61).length % 4 = 0 := by
        simp only [List.length_append, List.length_drop, List.length_replicate]
        omega
      exact ⟨_, _, read, size', _, p, rfl, fun c member => chars c (List.mem_of_mem_drop member), few⟩
  · rintro ⟨g, rest, read, padded⟩
    -- a group with padding is the last one, so that all padding is that of the rest, or its own
    obtain ⟨vs, p, rfl, count, few, small, whole | rfl⟩ := readGroup_shape read
    · obtain ⟨size, body, q, rfl, chars, few'⟩ := padded
      refine ⟨?_, vs.map base64 ++ body, q, ?_, ?_, few'⟩
      · simp only [List.length_append, List.length_map, List.length_replicate] at size ⊢
        omega
      · simp [whole]
      · intro c member
        rcases List.mem_append.mp member with front | back
        · exact chars_of_values small c front
        · exact chars c back
    · refine ⟨?_, vs.map base64, p, by simp, chars_of_values small, few⟩
      simp only [List.length_append, List.length_map, List.length_replicate, List.length_nil]
      omega

/-- What is not accepted is not decoded in part: the result is empty. -/
theorem decodeLoop_of_not_padded {s : List UInt8} (refused : ¬Padded s) {w : WriteBuf}
    (room : w.writeBuf + 3 * (s.length / 4) ≤ w.result.length) : decodeLoop s w = some [] := by
  -- the groups that are read in front of the bad one are written, and thrown away with the result
  induction size : s.length using Nat.strong_induction_on generalizing s w with
  | _ n ih =>
    have some_ : s ≠ [] := fun none_ => refused (none_ ▸ .nil)
    cases read : readGroup s with
    | none =>
      rw [decodeLoop, if_neg some_]
      split
      next => rfl
      next read' => cases read.symm.trans read'
    | some round =>
      obtain ⟨g, rest⟩ := round
      have refused' : ¬Padded rest := fun padded =>
        refused ((padded_iff some_).mpr ⟨g, rest, read, padded⟩)
      obtain ⟨vs, p, rfl, count, few, small, last⟩ := readGroup_shape read
      simp only [List.length_append, List.length_map, List.length_replicate] at room size
      obtain ⟨w', round, size', pos, -⟩ := decode_group (w := w) count few small last (by omega)
      rw [round]
      exact ih rest.length (by omega) refused' (by omega) rfl

/-- A character without its low bits, two for each byte that is missing. -/
def clearLow (p : Nat) (c : UInt8) : UInt8 := base64 ((base64Val c).getD 0 / 4 ^ p * 4 ^ p)

theorem reencode {us : List Nat} {v p n : Nat} (size : us.length + 1 + p = 4 * (n + 1)) (few : p ≤ 2)
    (small : ∀ u ∈ us ++ [v], u < 64) :
    ∃ x, Decodes ((us ++ [v]).map base64 ++ List.replicate p 61) x ∧ x ≠ [] ∧
      base64encode x = (us ++ [v / 4 ^ p * 4 ^ p]).map base64 ++ List.replicate p 61 := by
  induction n generalizing us with
  | zero =>
    have count : (us ++ [v]).length + p = 4 := by rw [List.length_append, List.length_singleton]; omega
    have bytes : (octets p (us ++ [v])).length + p = 3 := by rw [length_octets]; omega
    refine ⟨octets p (us ++ [v]), ?_, ?_, ?_⟩
    · simpa using Decodes.group count few small (.inr rfl) .nil
    · rw [← List.length_pos_iff]
      omega
    · have group := encode_group bytes few (.inr rfl)
      rwa [List.append_nil, sextets_octets (by omega) few small, base64encode, List.append_nil] at group
  | succ n ih =>
    -- the first four values are a group of their own
    obtain ⟨front, u, back, rfl, four⟩ : ∃ front u back, us = front ++ u :: back ∧ front.length = 3 := by
      have three : 3 < us.length := by omega
      refine ⟨us.take 3, us[3], us.drop 4, ?_, ?_⟩
      · rw [← List.drop_eq_getElem_cons three, List.take_append_drop]
      · rw [List.length_take]; omega
    have cut : ∀ v, front ++ u :: back ++ [v] = (front ++ [u]) ++ (back ++ [v]) := by simp
    rw [cut] at small
    have first : ∀ w ∈ front ++ [u], w < 64 := fun w member => small w (List.mem_append_left _ member)
    simp only [List.length_append, List.length_cons] at size
    have others : ∀ w ∈ back ++ [v], w < 64 := fun w member =>
      small w (List.mem_append_right _ member)
    obtain ⟨x, decodes, -, again⟩ := ih (by omega) others
    have count : (front ++ [u]).length + 0 = 4 := by simp [four]
    have bytes : (octets 0 (front ++ [u])).length + 0 = 3 := by rw [length_octets]
    have same : u / 4 ^ 0 * 4 ^ 0 = u := by simp
    refine ⟨octets 0 (front ++ [u]) ++ x, ?_, ?_, ?_⟩
    · have group := Decodes.group count (Nat.zero_le 2) first (.inl rfl) decodes
      rw [cut, List.map_append, List.append_assoc]
      simpa using group
    · rw [← List.length_pos_iff, List.length_append]
      omega
    · rw [encode_group bytes (Nat.zero_le 2) (.inl rfl), again,
        sextets_octets (by omega) (Nat.zero_le 2) first, same, cut]
      simp

theorem accepted {body : List UInt8} {c : UInt8} {p : Nat}
    (chars : ∀ b ∈ body ++ [c], b ∈ base64Chars) (few : p ≤ 2)
    (size : (body ++ c :: List.replicate p 61).length % 4 = 0) :
    ∃ x, base64decode (body ++ c :: List.replicate p 61) = some x ∧ x ≠ [] ∧
      base64encode x = body ++ clearLow p c :: List.replicate p 61 := by
  obtain ⟨us, rfl, small⟩ := exists_values fun b member => chars b (List.mem_append_left _ member)
  obtain ⟨v, below, rfl⟩ := (mem_base64Chars c).mp (chars c (by simp))
  simp only [List.length_append, List.length_map, List.length_cons, List.length_replicate] at size
  have values : ∀ u ∈ us ++ [v], u < 64 := by
    intro u member
    rcases List.mem_append.mp member with front | back
    · exact small u front
    · exact List.mem_singleton.mp back ▸ below
  obtain ⟨x, decodes, some_, again⟩ :=
    reencode (n := (us.length + 1 + p) / 4 - 1) (by omega) few values
  have cut : ∀ w, (us ++ [w]).map base64 ++ List.replicate p 61 =
      us.map base64 ++ base64 w :: List.replicate p 61 := by simp
  rw [cut] at decodes again
  refine ⟨x, decodes.decoded, some_, ?_⟩
  rw [again, clearLow, (alphabet.1 v below).1, Option.getD_some]

/-! ## The results -/

theorem length_base64encode (x : List UInt8) :
    (base64encode x).length = 4 * ((x.length + 2) / 3) := by
  induction x using group_induction with
  | nil =>
    rw [base64encode]
    rfl
  | group xs rest p size few last ih =>
    have count := length_sextets few xs
    rw [encode_group size few last]
    simp only [List.length_append, List.length_map, List.length_replicate, ih]
    -- a group with a place missing is the last one
    rcases last with rfl | rfl
    · omega
    · simp only [List.length_nil]
      omega

/-- There is padding at the end only. -/
theorem padded_base64encode (x : List UInt8) : Padded (base64encode x) := by
  induction x using group_induction with
  | nil =>
    rw [base64encode]
    exact .nil
  | group xs rest p size few last ih =>
    have count := length_sextets few xs
    have values : ∀ v ∈ sextets p xs, v < 64 := fun _ => unpack_lt
    rw [encode_group size few last, List.append_assoc]
    have some_ : (sextets p xs).map base64 ++ (List.replicate p 61 ++ base64encode rest) ≠ [] := by
      rw [← List.length_pos_iff, List.length_append, List.length_map]
      omega
    apply (padded_iff some_).mpr
    exact ⟨_, _, readGroup_eq count few values (encode_last last), ih⟩

/-- What is encoded comes back. -/
theorem base64decode_base64encode (x : List UInt8) :
    base64decode (base64encode x) = some x ∧
      (base64encode x).length = 4 * ((x.length + 2) / 3) ∧ Padded (base64encode x) := by
  have decodes := decodes_encode x
  exact ⟨decodes.decoded, length_base64encode x, padded_base64encode x⟩

/-- Padded Base64 is accepted, and nothing else is. What the decoder gives is encoded to the same
string again, but for the bits of the last character that stand for no byte. -/
theorem base64decode_spec (s : List UInt8) :
    ∃ x, base64decode s = some x ∧ (x ≠ [] ↔ s ≠ [] ∧ Padded s) ∧
      ∀ body c p, s = body ++ c :: List.replicate p 61 → (∀ b ∈ body ++ [c], b ∈ base64Chars) →
        p ≤ 2 → s.length % 4 = 0 →
          base64encode x = body ++ clearLow p c :: List.replicate p 61 := by
  by_cases padded : Padded s
  · by_cases none_ : s = []
    · subst none_
      exact ⟨[], Decodes.nil.decoded, by simp, fun body c p shape => by simp at shape⟩
    · -- a string that is not empty has a character in front of its padding
      obtain ⟨size, body, p, rfl, chars, few⟩ := padded
      have some_ : body ≠ [] := by
        rintro rfl
        rw [List.nil_append, List.length_replicate] at size
        obtain rfl : p = 0 := by omega
        exact none_ rfl
      obtain ⟨front, c, rfl⟩ : ∃ front c, body = front ++ [c] :=
        ⟨_, _, (List.dropLast_append_getLast some_).symm⟩
      have shape : front ++ [c] ++ List.replicate p 61 = front ++ c :: List.replicate p 61 := by simp
      have padded' : Padded (front ++ [c] ++ List.replicate p 61) := ⟨size, _, p, rfl, chars, few⟩
      rw [shape] at size padded' none_ ⊢
      obtain ⟨x, decoded, bytes, -⟩ := accepted chars few size
      refine ⟨x, decoded, iff_of_true bytes ⟨none_, padded'⟩, ?_⟩
      -- whichever way the string is told apart, it is the same string
      intro body' c' p' shape' chars' few' size'
      rw [shape'] at decoded size'
      obtain ⟨x', decoded', -, again⟩ := accepted chars' few' size'
      rw [decoded, Option.some.injEq] at decoded'
      rw [decoded', again]
  · have room : 0 + 3 * (s.length / 4) ≤ (List.replicate (s.length * 3 / 4) (0 : UInt8)).length := by
      rw [List.length_replicate]
      omega
    refine ⟨[], decodeLoop_of_not_padded padded room, by simp [padded], ?_⟩
    intro body c p shape chars few size
    refine absurd ⟨size, body ++ [c], p, ?_, chars, few⟩ padded
    simpa using shape

end ServerFrame.HashUtil
