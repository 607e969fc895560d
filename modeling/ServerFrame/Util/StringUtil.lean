import Mathlib.Algebra.Ring.Nat
import Mathlib.Data.FinEnum
import Mathlib.Data.List.DropRight

/-!
# `StringUtil`

Escapes in URLs, and blanks around a text.
-/
namespace ServerFrame.StringUtil

/-- `CHAR_IS_UNRESERVED`: the entries of `uri_chars` that are set. The equals sign is one of
them, although the comment at `UrlEncode` does not list it. -/
def isUnreserved (c : UInt8) : Bool :=
  c == 45 || c == 46 || (48 ≤ c && c ≤ 57) || c == 61 || (65 ≤ c && c ≤ 90) || c == 95 ||
    (97 ≤ c && c ≤ 122) || c == 126

/-- `hexdigits`. -/
def hexdigit (n : UInt8) : UInt8 := if n < 10 then 48 + n else 55 + n

def isxdigit (c : UInt8) : Bool := (48 ≤ c && c ≤ 57) || (65 ≤ c && c ≤ 70) || (97 ≤ c && c ≤ 102)

/-- `xdigit_chars`. -/
def xdigitChars (c : UInt8) : UInt8 :=
  if 48 ≤ c && c ≤ 57 then c - 48
  else if 65 ≤ c && c ≤ 70 then c - 55
  else if 97 ≤ c && c ≤ 102 then c - 87
  else 0

/-- What `UrlEncode` appends for a byte. -/
def urlEncodeChar (spaceAsPlus : Bool) (c : UInt8) : List UInt8 :=
  if isUnreserved c then [c]
  else if c == 32 && spaceAsPlus then [43]
  else [37, hexdigit (c >>> 4), hexdigit (c &&& 0xf)]

/-- `UrlEncode`. -/
def urlEncode (spaceAsPlus : Bool) (str : List UInt8) : List UInt8 :=
  str.flatMap (urlEncodeChar spaceAsPlus)

/-- `UrlDecode`; what is no escape stays. -/
def urlDecode (spaceAsPlus : Bool) : List UInt8 → List UInt8
  | c :: a :: b :: rest =>
    if c == 43 && spaceAsPlus then 32 :: urlDecode spaceAsPlus (a :: b :: rest)
    else if c == 37 && isxdigit a && isxdigit b then
      (xdigitChars a <<< 4 ||| xdigitChars b) :: urlDecode spaceAsPlus rest
    else c :: urlDecode spaceAsPlus (a :: b :: rest)
  -- there is no room for an escape
  | c :: rest => (if c == 43 && spaceAsPlus then 32 else c) :: urlDecode spaceAsPlus rest
  | [] => []

/-- The default of `delimit`: a blank and what ends a line. -/
def blanks : List UInt8 := [32, 9, 13, 10]

/-- `Trim`; that its loops come to this is `Cut.trim_eq`. -/
def trim (delimit str : List UInt8) : List UInt8 :=
  (str.dropWhile (· ∈ delimit)).rdropWhile (· ∈ delimit)

/-! ## Escapes -/

theorem hexdigits_spec : ∀ c : UInt8, isxdigit (hexdigit (c >>> 4)) = true ∧
    isxdigit (hexdigit (c &&& 0xf)) = true ∧
    xdigitChars (hexdigit (c >>> 4)) <<< 4 ||| xdigitChars (hexdigit (c &&& 0xf)) = c ∧
    isUnreserved (hexdigit (c >>> 4)) = true ∧ isUnreserved (hexdigit (c &&& 0xf)) = true ∧
    hexdigit (c >>> 4) ≠ 61 ∧ hexdigit (c &&& 0xf) ≠ 61 := by
  decide +kernel

theorem urlDecode_cons {c : UInt8} (no_plus : c ≠ 43) (no_escape : c ≠ 37) (spaceAsPlus : Bool)
    (rest : List UInt8) : urlDecode spaceAsPlus (c :: rest) = c :: urlDecode spaceAsPlus rest := by
  rcases rest with _ | ⟨a, _ | ⟨b, rest⟩⟩
  · simp [urlDecode, no_plus]
  · simp [urlDecode, no_plus]
  · simp [urlDecode, no_plus, no_escape]

theorem urlDecode_escape {a b : UInt8} (first : isxdigit a = true) (second : isxdigit b = true)
    (spaceAsPlus : Bool) (rest : List UInt8) :
    urlDecode spaceAsPlus (37 :: a :: b :: rest) =
      (xdigitChars a <<< 4 ||| xdigitChars b) :: urlDecode spaceAsPlus rest := by
  simp [urlDecode, first, second]

theorem urlDecode_plus (rest : List UInt8) : urlDecode true (43 :: rest) = 32 :: urlDecode true rest := by
  rcases rest with _ | ⟨a, _ | ⟨b, rest⟩⟩
  all_goals simp [urlDecode]

/-- A byte comes back, in front of anything. -/
theorem urlDecode_urlEncodeChar (spaceAsPlus : Bool) (c : UInt8) (rest : List UInt8) :
    urlDecode spaceAsPlus (urlEncodeChar spaceAsPlus c ++ rest) = c :: urlDecode spaceAsPlus rest := by
  rw [urlEncodeChar]
  split
  next unreserved =>
    have special : c ≠ 43 ∧ c ≠ 37 := by
      constructor
      all_goals
        rintro rfl
        exact absurd unreserved (by decide)
    exact urlDecode_cons special.1 special.2 spaceAsPlus rest
  next =>
    split
    next blank =>
      obtain ⟨is_blank, plus⟩ := Bool.and_eq_true_iff.mp blank
      rw [eq_of_beq is_blank, plus]
      exact urlDecode_plus rest
    next =>
      obtain ⟨first, second, value, -⟩ := hexdigits_spec c
      have read := urlDecode_escape first second spaceAsPlus rest
      rwa [value] at read

/-- `UrlDecode` undoes `UrlEncode`. -/
theorem urlDecode_urlEncode (spaceAsPlus : Bool) (str : List UInt8) :
    urlDecode spaceAsPlus (urlEncode spaceAsPlus str) = str := by
  induction str with
  | nil => rfl
  | cons c str ih =>
    have split : urlEncode spaceAsPlus (c :: str) =
        urlEncodeChar spaceAsPlus c ++ urlEncode spaceAsPlus str := List.flatMap_cons
    rw [split, urlDecode_urlEncodeChar, ih]

/-- What an encoded byte may consist of. -/
theorem mem_urlEncodeChar {spaceAsPlus : Bool} {c b : UInt8}
    (member : b ∈ urlEncodeChar spaceAsPlus c) : isUnreserved b = true ∨ b = 37 ∨ b = 43 := by
  rw [urlEncodeChar] at member
  split at member
  next unreserved =>
    rw [List.mem_singleton.mp member]
    exact .inl unreserved
  next =>
    split at member
    next => exact .inr (.inr (List.mem_singleton.mp member))
    next =>
      obtain ⟨-, -, -, first, second, -⟩ := hexdigits_spec c
      simp only [List.mem_cons, List.not_mem_nil, or_false] at member
      rcases member with rfl | rfl | rfl
      · exact .inr (.inl rfl)
      · exact .inl first
      · exact .inl second

theorem mem_urlEncode {spaceAsPlus : Bool} {str : List UInt8} {b : UInt8}
    (member : b ∈ urlEncode spaceAsPlus str) : isUnreserved b = true ∨ b = 37 ∨ b = 43 := by
  obtain ⟨c, -, inside⟩ := List.mem_flatMap.mp member
  exact mem_urlEncodeChar inside

/-- An equals sign in what is encoded was there before. -/
theorem equals_mem_urlEncode {spaceAsPlus : Bool} {str : List UInt8}
    (member : 61 ∈ urlEncode spaceAsPlus str) : 61 ∈ str := by
  obtain ⟨c, there, inside⟩ := List.mem_flatMap.mp member
  rw [urlEncodeChar] at inside
  split at inside
  next => exact List.mem_singleton.mp inside ▸ there
  next =>
    split at inside
    next => cases List.mem_singleton.mp inside
    next =>
      obtain ⟨-, -, -, -, -, first, second⟩ := hexdigits_spec c
      simp [first.symm, second.symm] at inside

theorem length_le_urlEncodeChar (spaceAsPlus : Bool) (c : UInt8) :
    0 < (urlEncodeChar spaceAsPlus c).length := by
  rw [urlEncodeChar]
  split
  · exact Nat.one_pos
  · split <;> simp

/-- Encoding does not shorten a text, and keeps its length only if it does no more than to put
a plus for a blank. -/
theorem length_urlEncode (spaceAsPlus : Bool) (str : List UInt8) :
    str.length ≤ (urlEncode spaceAsPlus str).length ∧
      ((urlEncode spaceAsPlus str).length = str.length →
        ∀ c ∈ str, isUnreserved c = true ∨ c = 32) := by
  induction str with
  | nil => exact ⟨Nat.le_refl _, fun _ c member => nomatch member⟩
  | cons c str ih =>
    have pos := length_le_urlEncodeChar spaceAsPlus c
    have length_eq : (urlEncode spaceAsPlus (c :: str)).length =
        (urlEncodeChar spaceAsPlus c).length + (urlEncode spaceAsPlus str).length := by
      rw [urlEncode, List.flatMap_cons, List.length_append, urlEncode]
    rw [length_eq, List.length_cons]
    refine ⟨by omega, fun same d member => ?_⟩
    rcases List.mem_cons.mp member with rfl | member
    · have short : (urlEncodeChar spaceAsPlus d).length = 1 := by omega
      rw [urlEncodeChar] at short
      split at short
      next unreserved => exact .inl unreserved
      next =>
        split at short
        next blank => exact .inr (eq_of_beq (Bool.and_eq_true_iff.mp blank).1)
        next => cases short
    · exact ih.2 (by omega) d member

theorem urlEncode_of_unreserved {str : List UInt8} (unreserved : ∀ c ∈ str, isUnreserved c = true)
    (spaceAsPlus : Bool) : urlEncode spaceAsPlus str = str := by
  induction str with
  | nil => rfl
  | cons c str ih =>
    have first : urlEncodeChar spaceAsPlus c = [c] := if_pos (unreserved c (List.mem_cons_self ..))
    have rest := ih fun d member => unreserved d (List.mem_cons_of_mem _ member)
    rw [urlEncode, List.flatMap_cons, first, ← urlEncode, rest]
    rfl

end ServerFrame.StringUtil
