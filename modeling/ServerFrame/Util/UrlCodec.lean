import ServerFrame.Lib.Segments
import ServerFrame.Util.StringUtil

/-!
# `UrlEncode` and `UrlDecode` as they run

Both walk over the text once. The copy `ss` is made at the first character that changes, out of
what was passed by so far; a text without such a character is returned as it is.
-/
namespace ServerFrame.StringUtil.Lazy

open Segments

/-- `uri_chars`. -/
def uriChars : List UInt8 := [
  0, 0, 0, 0, 0, 0, 0, 0,   0, 0, 0, 0, 0, 0, 0, 0,
  0, 0, 0, 0, 0, 0, 0, 0,   0, 0, 0, 0, 0, 0, 0, 0,
  0, 0, 0, 0, 0, 0, 0, 0,   0, 0, 0, 0, 0, 1, 1, 0,
  1, 1, 1, 1, 1, 1, 1, 1,   1, 1, 0, 0, 0, 1, 0, 0,
  -- 64
  0, 1, 1, 1, 1, 1, 1, 1,   1, 1, 1, 1, 1, 1, 1, 1,
  1, 1, 1, 1, 1, 1, 1, 1,   1, 1, 1, 0, 0, 0, 0, 1,
  0, 1, 1, 1, 1, 1, 1, 1,   1, 1, 1, 1, 1, 1, 1, 1,
  1, 1, 1, 1, 1, 1, 1, 1,   1, 1, 1, 0, 0, 0, 1, 0,
  -- 128
  0, 0, 0, 0, 0, 0, 0, 0,   0, 0, 0, 0, 0, 0, 0, 0,
  0, 0, 0, 0, 0, 0, 0, 0,   0, 0, 0, 0, 0, 0, 0, 0,
  0, 0, 0, 0, 0, 0, 0, 0,   0, 0, 0, 0, 0, 0, 0, 0,
  0, 0, 0, 0, 0, 0, 0, 0,   0, 0, 0, 0, 0, 0, 0, 0,
  -- 192
  0, 0, 0, 0, 0, 0, 0, 0,   0, 0, 0, 0, 0, 0, 0, 0,
  0, 0, 0, 0, 0, 0, 0, 0,   0, 0, 0, 0, 0, 0, 0, 0,
  0, 0, 0, 0, 0, 0, 0, 0,   0, 0, 0, 0, 0, 0, 0, 0,
  0, 0, 0, 0, 0, 0, 0, 0,   0, 0, 0, 0, 0, 0, 0, 0]

/-- `xdigit_chars`. -/
def xdigitChars : List UInt8 := [
  0, 0, 0, 0, 0, 0, 0, 0, 0, 0, 0, 0, 0, 0, 0, 0,
  0, 0, 0, 0, 0, 0, 0, 0, 0, 0, 0, 0, 0, 0, 0, 0,
  0, 0, 0, 0, 0, 0, 0, 0, 0, 0, 0, 0, 0, 0, 0, 0,
  0, 1, 2, 3, 4, 5, 6, 7, 8, 9, 0, 0, 0, 0, 0, 0,
  0, 10, 11, 12, 13, 14, 15, 0, 0, 0, 0, 0, 0, 0, 0, 0,
  0, 0, 0, 0, 0, 0, 0, 0, 0, 0, 0, 0, 0, 0, 0, 0,
  0, 10, 11, 12, 13, 14, 15, 0, 0, 0, 0, 0, 0, 0, 0, 0,
  0, 0, 0, 0, 0, 0, 0, 0, 0, 0, 0, 0, 0, 0, 0, 0,
  0, 0, 0, 0, 0, 0, 0, 0, 0, 0, 0, 0, 0, 0, 0, 0,
  0, 0, 0, 0, 0, 0, 0, 0, 0, 0, 0, 0, 0, 0, 0, 0,
  0, 0, 0, 0, 0, 0, 0, 0, 0, 0, 0, 0, 0, 0, 0, 0,
  0, 0, 0, 0, 0, 0, 0, 0, 0, 0, 0, 0, 0, 0, 0, 0,
  0, 0, 0, 0, 0, 0, 0, 0, 0, 0, 0, 0, 0, 0, 0, 0,
  0, 0, 0, 0, 0, 0, 0, 0, 0, 0, 0, 0, 0, 0, 0, 0,
  0, 0, 0, 0, 0, 0, 0, 0, 0, 0, 0, 0, 0, 0, 0, 0,
  0, 0, 0, 0, 0, 0, 0, 0, 0, 0, 0, 0, 0, 0, 0, 0]

/-- `hexdigits`: `0123456789ABCDEF`. -/
def hexdigits : List UInt8 := [48, 49, 50, 51, 52, 53, 54, 55, 56, 57, 65, 66, 67, 68, 69, 70]

/-- The value a table holds for a character. -/
def entry (table : List UInt8) (c : UInt8) : UInt8 := table.getD c.toNat 0

/-- The copy: the one that is there, else the first `i` characters of `str`. -/
def copied (str : List UInt8) (i : Nat) (ss : Option (List UInt8)) : List UInt8 :=
  ss.getD (str.take i)

/-- The loop of `UrlEncode`, `i` characters into `str`. -/
def urlEncodeLoop (spaceAsPlus : Bool) (str : List UInt8) :
    List UInt8 → Nat → Option (List UInt8) → Option (List UInt8)
  | [], _, ss => ss
  | c :: rest, i, ss =>
    if entry uriChars c = 0 then
      if c == 32 && spaceAsPlus then
        urlEncodeLoop spaceAsPlus str rest (i + 1) (some (copied str i ss ++ [43]))
      else
        urlEncodeLoop spaceAsPlus str rest (i + 1) (some (copied str i ss ++
          [37, entry hexdigits (c >>> 4), entry hexdigits (c &&& 0xf)]))
    -- `else if (ss)`
    else urlEncodeLoop spaceAsPlus str rest (i + 1) (ss.map (· ++ [c]))

/-- `UrlEncode`. -/
def urlEncode (spaceAsPlus : Bool) (str : List UInt8) : List UInt8 :=
  (urlEncodeLoop spaceAsPlus str str 0 none).getD str

/-- The loop of `UrlDecode`. -/
def urlDecodeLoop (spaceAsPlus : Bool) (str : List UInt8) :
    List UInt8 → Nat → Option (List UInt8) → Option (List UInt8)
  | c :: a :: b :: rest, i, ss =>
    if c == 43 && spaceAsPlus then
      urlDecodeLoop spaceAsPlus str (a :: b :: rest) (i + 1) (some (copied str i ss ++ [32]))
    else if c == 37 && isxdigit a && isxdigit b then
      urlDecodeLoop spaceAsPlus str rest (i + 3)
        (some (copied str i ss ++ [entry xdigitChars a <<< 4 ||| entry xdigitChars b]))
    else urlDecodeLoop spaceAsPlus str (a :: b :: rest) (i + 1) (ss.map (· ++ [c]))
  -- here `c + 2` is not in front of `end`
  | c :: rest, i, ss =>
    if c == 43 && spaceAsPlus then
      urlDecodeLoop spaceAsPlus str rest (i + 1) (some (copied str i ss ++ [32]))
    else urlDecodeLoop spaceAsPlus str rest (i + 1) (ss.map (· ++ [c]))
  | [], _, ss => ss

/-- `UrlDecode`. -/
def urlDecode (spaceAsPlus : Bool) (str : List UInt8) : List UInt8 :=
  (urlDecodeLoop spaceAsPlus str str 0 none).getD str

/-! ## The tables -/

theorem entry_spec : ∀ c : UInt8, (entry uriChars c = 0 ↔ isUnreserved c = false) ∧
    entry xdigitChars c = StringUtil.xdigitChars c ∧
    entry hexdigits (c >>> 4) = hexdigit (c >>> 4) ∧ entry hexdigits (c &&& 0xf) = hexdigit (c &&& 0xf) := by
  decide +kernel

/-! ## The copy -/

section
variable {str : List UInt8} {i : Nat}

/-- A character that does not change is in the copy, whether there is one yet or not. -/
theorem copied_keep {c : UInt8} {rest : List UInt8} (here : str.drop i = c :: rest)
    (ss : Option (List UInt8)) :
    copied str (i + 1) (ss.map (· ++ [c])) = copied str i ss ++ [c] := by
  cases ss with
  | none => exact take_succ_of_drop here
  | some made => rfl

@[simp] theorem copied_some (made : List UInt8) : copied str i (some made) = made := rfl

end

/-! ## The loops -/

/-- What the loop of `UrlEncode` ends with: the copy so far, and the rest encoded. -/
theorem urlEncodeLoop_spec (spaceAsPlus : Bool) (str rest : List UInt8) (i : Nat)
    (ss : Option (List UInt8)) (here : str.drop i = rest) :
    (urlEncodeLoop spaceAsPlus str rest i ss).getD str =
      copied str i ss ++ StringUtil.urlEncode spaceAsPlus rest := by
  induction rest generalizing i ss with
  | nil =>
    -- the end: without a copy nothing has changed
    have all : str.take i = str := List.take_of_length_le (List.drop_eq_nil_iff.mp here)
    cases ss <;> simp [urlEncodeLoop, copied, StringUtil.urlEncode, all]
  | cons c rest ih =>
    have next := drop_succ_of_drop here
    have encoded : StringUtil.urlEncode spaceAsPlus (c :: rest) =
        urlEncodeChar spaceAsPlus c ++ StringUtil.urlEncode spaceAsPlus rest := List.flatMap_cons
    rw [urlEncodeLoop, encoded, ← List.append_assoc]
    -- a reserved character makes the copy, if there is none yet; another one goes into it, if there is
    by_cases reserved : entry uriChars c = 0
    · have special : isUnreserved c = false := (entry_spec c).1.1 reserved
      rw [if_pos reserved]
      by_cases blank : (c == 32 && spaceAsPlus) = true
      · rw [if_pos blank, ih (i + 1) _ next, copied_some]
        simp [urlEncodeChar, special, blank]
      · obtain ⟨-, -, high, low⟩ := entry_spec c
        rw [if_neg blank, ih (i + 1) _ next, copied_some, high, low]
        simp [urlEncodeChar, special, blank]
    · have plain : isUnreserved c = true := by
        simpa using mt (entry_spec c).1.2 reserved
      rw [if_neg reserved, ih (i + 1) _ next, copied_keep here]
      simp [urlEncodeChar, plain]

/-- Near the end there is no escape. -/
theorem urlDecode_short {rest : List UInt8} (short : ∀ a b rest', rest = a :: b :: rest' → False)
    (spaceAsPlus : Bool) (c : UInt8) :
    StringUtil.urlDecode spaceAsPlus (c :: rest) =
      (if c == 43 && spaceAsPlus then 32 else c) :: StringUtil.urlDecode spaceAsPlus rest := by
  rcases rest with _ | ⟨a, _ | ⟨b, rest⟩⟩
  · rfl
  · rfl
  · exact absurd rfl (short a b rest)

/-- And that of `UrlDecode`, case by case as it looks ahead. -/
theorem urlDecodeLoop_spec (spaceAsPlus : Bool) (str rest : List UInt8) (i : Nat)
    (ss : Option (List UInt8)) (here : str.drop i = rest) :
    (urlDecodeLoop spaceAsPlus str rest i ss).getD str =
      copied str i ss ++ StringUtil.urlDecode spaceAsPlus rest := by
  fun_induction urlDecodeLoop spaceAsPlus str rest i ss with
  | case1 c a b rest i ss plus ih =>
    rw [ih (drop_succ_of_drop here), copied_some]
    simp [StringUtil.urlDecode, plus]
  | case2 c a b rest i ss noPlus escape ih =>
    -- `c += 2`, and the step of the loop
    have behind : str.drop (i + 3) = rest :=
      drop_succ_of_drop (drop_succ_of_drop (drop_succ_of_drop here))
    rw [ih behind, copied_some, (entry_spec _).2.1, (entry_spec _).2.1]
    simp [StringUtil.urlDecode, noPlus, escape]
  | case3 c a b rest i ss noPlus noEscape ih =>
    rw [ih (drop_succ_of_drop here), copied_keep here]
    simp [StringUtil.urlDecode, noPlus, noEscape]
  | case4 c rest i ss short plus ih =>
    rw [ih (drop_succ_of_drop here), copied_some, urlDecode_short short, if_pos plus]
    simp
  | case5 c rest i ss short noPlus ih =>
    rw [ih (drop_succ_of_drop here), copied_keep here, urlDecode_short short, if_neg noPlus]
    simp
  | case6 i ss =>
    -- the end, as above
    have all : str.take i = str := List.take_of_length_le (List.drop_eq_nil_iff.mp here)
    cases ss <;> simp [copied, StringUtil.urlDecode, all]

/-- The encoder with its copy writes byte by byte. -/
theorem urlEncode_eq (spaceAsPlus : Bool) (str : List UInt8) :
    urlEncode spaceAsPlus str = StringUtil.urlEncode spaceAsPlus str :=
  urlEncodeLoop_spec spaceAsPlus str str 0 none rfl

theorem urlDecode_eq (spaceAsPlus : Bool) (str : List UInt8) :
    urlDecode spaceAsPlus str = StringUtil.urlDecode spaceAsPlus str :=
  urlDecodeLoop_spec spaceAsPlus str str 0 none rfl

/-- The decoder as it runs undoes the encoder as it runs. -/
theorem decoded_encoded (spaceAsPlus : Bool) (str : List UInt8) :
    urlDecode spaceAsPlus (urlEncode spaceAsPlus str) = str := by
  rw [urlDecode_eq, urlEncode_eq, urlDecode_urlEncode]

end ServerFrame.StringUtil.Lazy
