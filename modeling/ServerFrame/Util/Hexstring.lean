import Mathlib.Algebra.Order.Ring.Nat
import Mathlib.Data.FinEnum
import Mathlib.Data.List.Basic

/-!
# `hexstring_from_data` and `data_from_hexstring`

A byte is written as two digits, the high one first. The decoder takes letters of both cases; it has
a switch for the high digit and another for the low one.
-/
namespace ServerFrame.HashUtil

/-! ## Writing -/

/-- `c = (c > 9) ? c + 'a' - 10 : c + '0'`. -/
def hexDigit (c : UInt8) : UInt8 := if 9 < c then c + 97 - 10 else c + 48

/-- `hexstring_from_data(const void*, size_t, char*)`: what is written to `output`. -/
def hexstringLoop : List UInt8 → List UInt8
  | [] => []
  | byte :: buf => hexDigit (byte >>> 4 &&& 0xf) :: hexDigit (byte &&& 0xf) :: hexstringLoop buf

/-- `hexstring_from_data(const void*, size_t)`, and with the bytes of a string the other one. -/
def hexstringFromData (data : List UInt8) : List UInt8 :=
  if data.length = 0 then [] else hexstringLoop data

/-! ## Reading -/

/-- `std::invalid_argument` with its text. -/
inductive HexError where
  | invalidArgument (what : String)
  deriving DecidableEq, Repr

/-- The switch for the first digit. A `case` goes through `'a'` to `'f'`, `'A'` to `'F'` or `'0'` to
`'9'`; the shift is made in `int`, and the assignment keeps the low byte. -/
def highDigit (c : UInt8) : Except HexError UInt8 :=
  if 97 ≤ c ∧ c ≤ 102 then .ok ((c - 97 + 10) <<< 4)
  else if 65 ≤ c ∧ c ≤ 70 then .ok ((c - 65 + 10) <<< 4)
  else if 48 ≤ c ∧ c ≤ 57 then .ok ((c - 48) <<< 4)
  else .error (.invalidArgument "data_from_hexstring invalid hexstring")

/-- The switch for the second digit: what `byte |=` takes. -/
def lowDigit (c : UInt8) : Except HexError UInt8 :=
  if 97 ≤ c ∧ c ≤ 102 then .ok (c - 97 + 10)
  else if 65 ≤ c ∧ c ≤ 70 then .ok (c - 65 + 10)
  else if 48 ≤ c ∧ c ≤ 57 then .ok (c - 48)
  else .error (.invalidArgument "data_from_hexstring invalid hexstring")

/-- The rounds of `data_from_hexstring(const char*, size_t, void*)`. The index goes on by two. -/
def dataLoop : List UInt8 → Except HexError (List UInt8)
  | [] => .ok []
  | [c] => do
    -- only for an odd length: the second switch is given the NUL behind the string
    let byte ← highDigit c
    let low ← lowDigit 0
    return [byte ||| low]
  | c :: c' :: hexstring => do
    let byte ← highDigit c
    let low ← lowDigit c'
    let buf ← dataLoop hexstring
    return (byte ||| low) :: buf

/-- `data_from_hexstring(const char*, size_t, void*)`. -/
def dataFromHexstringTo (hexstring : List UInt8) : Except HexError (List UInt8) :=
  if hexstring.length % 2 ≠ 0 then
    .error (.invalidArgument "data_from_hexstring length % 2 != 0")
  else dataLoop hexstring

/-- `data_from_hexstring(const char*, size_t)`, and with the bytes of a string the other one. -/
def dataFromHexstring (hexstring : List UInt8) : Except HexError (List UInt8) :=
  if hexstring.length % 2 ≠ 0 then
    .error (.invalidArgument "data_from_hexstring length % 2 != 0")
  else if hexstring.length = 0 then .ok []
  else dataFromHexstringTo hexstring

/-! ## Digits -/

/-- `[0-9a-fA-F]`. -/
def IsHexDigit (c : UInt8) : Prop := (48 ≤ c ∧ c ≤ 57) ∨ (97 ≤ c ∧ c ≤ 102) ∨ (65 ≤ c ∧ c ≤ 70)

instance : DecidablePred IsHexDigit := fun c =>
  inferInstanceAs (Decidable ((48 ≤ c ∧ c ≤ 57) ∨ (97 ≤ c ∧ c ≤ 102) ∨ (65 ≤ c ∧ c ≤ 70)))

/-- A letter in lower case. -/
def lowerCase (c : UInt8) : UInt8 := if 65 ≤ c ∧ c ≤ 90 then c + 32 else c

/-- The value of a digit. -/
def hexVal (c : UInt8) : UInt8 := if c ≤ 57 then c - 48 else (c ||| 32) - 87

/-- Both switches know the same digits, and the writer has them in lower case; the digits of a byte
are read as what they were. -/
theorem digit_spec : ∀ c : UInt8,
    (IsHexDigit c → highDigit c = .ok (hexVal c <<< 4) ∧ lowDigit c = .ok (hexVal c) ∧ hexVal c < 16 ∧
      hexDigit (hexVal c) = lowerCase c) ∧
    (¬IsHexDigit c → highDigit c = .error (.invalidArgument "data_from_hexstring invalid hexstring") ∧
      lowDigit c = .error (.invalidArgument "data_from_hexstring invalid hexstring")) ∧
    highDigit (hexDigit (c >>> 4 &&& 0xf)) = .ok (c >>> 4 <<< 4) ∧
      lowDigit (hexDigit (c &&& 0xf)) = .ok (c &&& 0xf) ∧ c >>> 4 <<< 4 ||| c &&& 0xf = c := by
  decide +kernel

theorem nibbles : ∀ a : UInt8, a < 16 → ∀ b : UInt8, b < 16 →
    (a <<< 4 ||| b) >>> 4 &&& 0xf = a ∧ (a <<< 4 ||| b) &&& 0xf = b := by
  decide +kernel

/-! ## Strings -/

theorem length_hexstringLoop (data : List UInt8) :
    (hexstringLoop data).length = 2 * data.length := by
  induction data with
  | nil => rfl
  | cons byte data ih =>
    simp only [hexstringLoop, List.length_cons, ih]
    omega

theorem hexstringFromData_eq (data : List UInt8) : hexstringFromData data = hexstringLoop data := by
  cases data <;> rfl

theorem dataFromHexstring_of_even {h : List UInt8} (even : h.length % 2 = 0) :
    dataFromHexstring h = dataLoop h := by
  have not_odd : ¬h.length % 2 ≠ 0 := not_not.mpr even
  rw [dataFromHexstring, dataFromHexstringTo, if_neg not_odd, if_neg not_odd]
  split
  next none_ => rw [List.length_eq_zero_iff.mp none_, dataLoop]
  next => rfl

theorem dataLoop_hexstringLoop (data : List UInt8) : dataLoop (hexstringLoop data) = .ok data := by
  induction data with
  | nil => rfl
  | cons byte data ih =>
    obtain ⟨high, low, value⟩ := (digit_spec byte).2.2
    rw [hexstringLoop, dataLoop, high, low, ih]
    simp only [bind, Except.bind, pure, Except.pure, value]

/-- Pair by pair: the digits are read, and written again in lower case. -/
theorem dataLoop_digits {h : List UInt8} (even : h.length % 2 = 0) (digits : ∀ c ∈ h, IsHexDigit c) :
    ∃ x, dataLoop h = .ok x ∧ hexstringLoop x = h.map lowerCase := by
  fun_induction dataLoop h with
  | case1 => exact ⟨[], rfl, rfl⟩
  | case2 c => cases even
  | case3 c c' h ih =>
    -- a byte is made of two digits, and taken apart into the same two
    rw [List.length_cons, List.length_cons, Nat.add_assoc, Nat.add_mod_right] at even
    obtain ⟨high, -, small, first⟩ := (digit_spec c).1 (digits c (by simp))
    obtain ⟨-, low, small', second⟩ := (digit_spec c').1 (digits c' (by simp))
    obtain ⟨x, read, written⟩ := ih even fun d member => digits d (by simp [member])
    obtain ⟨top, bottom⟩ := nibbles _ small _ small'
    refine ⟨(hexVal c <<< 4 ||| hexVal c') :: x, ?_, ?_⟩
    · simp only [high, low, read, bind, Except.bind, pure, Except.pure]
    · simp only [hexstringLoop, top, bottom, first, second, written, List.map_cons]

/-- A character that is no digit is met at either place of its pair. -/
theorem dataLoop_other {h : List UInt8} (even : h.length % 2 = 0) {c : UInt8} (member : c ∈ h)
    (other : ¬IsHexDigit c) :
    dataLoop h = .error (.invalidArgument "data_from_hexstring invalid hexstring") := by
  fun_induction dataLoop h with
  | case1 => cases member
  | case2 d => cases even
  | case3 d d' h ih =>
    rw [List.length_cons, List.length_cons, Nat.add_assoc, Nat.add_mod_right] at even
    -- the first digit of the pair is tested before the second
    by_cases first : IsHexDigit d
    · obtain ⟨high, -⟩ := (digit_spec d).1 first
      by_cases second : IsHexDigit d'
      · obtain ⟨-, low, -⟩ := (digit_spec d').1 second
        rcases List.mem_cons.mp member with rfl | member
        · exact absurd first other
        · rcases List.mem_cons.mp member with rfl | member
          · exact absurd second other
          · simp only [high, low, ih even member, bind, Except.bind]
      · simp only [high, ((digit_spec d').2.1 second).2, bind, Except.bind]
    · simp only [((digit_spec d).2.1 first).1, bind, Except.bind]

/-- A string is read, or it is refused for one of two reasons. -/
theorem dataFromHexstring_cases (h : List UInt8) :
    ((h.length % 2 = 0 ∧ ∀ c ∈ h, IsHexDigit c) ∧
      ∃ x, dataFromHexstring h = .ok x ∧ hexstringFromData x = h.map lowerCase) ∨
    ((h.length % 2 = 1 ∨ ∃ c ∈ h, ¬IsHexDigit c) ∧
      ∃ what, dataFromHexstring h = .error (.invalidArgument what)) := by
  rcases Nat.mod_two_eq_zero_or_one h.length with even | odd
  · by_cases digits : ∀ c ∈ h, IsHexDigit c
    · obtain ⟨x, read, written⟩ := dataLoop_digits even digits
      refine .inl ⟨⟨even, digits⟩, x, ?_, ?_⟩
      · rw [dataFromHexstring_of_even even, read]
      · rw [hexstringFromData_eq, written]
    · push Not at digits
      obtain ⟨c, member, other⟩ := digits
      exact .inr ⟨.inr ⟨c, member, other⟩, _,
        (dataFromHexstring_of_even even).trans (dataLoop_other even member other)⟩
  · exact .inr ⟨.inl odd, _, if_pos (by omega)⟩

/-- What is written is read back; what is refused is of odd length or has another character than a
digit; and what is read is written again in lower case. -/
theorem hexstring_spec :
    (∀ x, dataFromHexstring (hexstringFromData x) = .ok x) ∧
    (∀ h, (∃ what, dataFromHexstring h = .error (.invalidArgument what)) ↔
      h.length % 2 = 1 ∨ ∃ c ∈ h, ¬IsHexDigit c) ∧
    ∀ h x, dataFromHexstring h = .ok x → hexstringFromData x = h.map lowerCase := by
  refine ⟨fun x => ?_, fun h => ?_, fun h x read => ?_⟩
  · have even : (hexstringLoop x).length % 2 = 0 := by rw [length_hexstringLoop]; omega
    rw [hexstringFromData_eq, dataFromHexstring_of_even even, dataLoop_hexstringLoop]
  · rcases dataFromHexstring_cases h with ⟨⟨even, digits⟩, x, read, -⟩ | ⟨reason, thrown⟩
    · apply iff_of_false
      · simp [read]
      · rintro (odd | ⟨c, member, other⟩)
        · omega
        · exact other (digits c member)
    · exact iff_of_true thrown reason
  · rcases dataFromHexstring_cases h with ⟨-, x', read', written⟩ | ⟨-, what, thrown⟩
    · rw [read'] at read
      obtain rfl := Except.ok.inj read
      exact written
    · rw [thrown] at read
      cases read

end ServerFrame.HashUtil
