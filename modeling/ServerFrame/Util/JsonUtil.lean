import Mathlib.Algebra.Order.Ring.Nat
import Mathlib.Data.FinEnum
import Mathlib.Data.List.Basic

/-!
# `JsonUtil::NeedEscape` and `JsonUtil::Escape`

Three switches: one for the test, one for the size and one for the output.
-/
namespace ServerFrame.JsonUtil

/-- The switch of `NeedEscape`: `\\f`, `\\t`, `\\r`, `\\n`, `\\b`, `"` and `\\`. -/
def needEscapeChar (c : UInt8) : Bool :=
  match c with
  | 12 | 9 | 13 | 10 | 8 | 34 | 92 => true
  | _ => false

/-- `NeedEscape`. -/
def needEscape (v : List UInt8) : Bool := v.any needEscapeChar

/-- The switch that counts. -/
def sizeOfChar (c : UInt8) : Nat :=
  match c with
  | 12 | 9 | 13 | 10 | 8 | 34 | 92 => 2
  | _ => 1

/-- The switch that writes. -/
def escapeChar (c : UInt8) : List UInt8 :=
  match c with
  | 12 => [92, 102]
  | 9 => [92, 116]
  | 13 => [92, 114]
  | 10 => [92, 110]
  | 8 => [92, 98]
  | 34 => [92, 34]
  | 92 => [92, 92]
  | c => [c]

/-- `Escape`. `resize` puts as many NULs into `rt`, and what is written is appended to them. -/
def escape (v : List UInt8) : List UInt8 :=
  let size := v.foldl (fun size c => size + sizeOfChar c) 0
  if size = v.length then v
  else v.foldl (fun rt c => rt ++ escapeChar c) (List.replicate size 0)

/-! ## Undoing the escapes -/

/-- The character behind a backslash. -/
def unescapeChar (c : UInt8) : Option UInt8 :=
  match c with
  | 102 => some 12
  | 116 => some 9
  | 114 => some 13
  | 110 => some 10
  | 98 => some 8
  | 34 => some 34
  | 92 => some 92
  | _ => none

/-- The escapes are undone; what is none stays as it is. -/
def unescape : List UInt8 → List UInt8
  | c :: d :: rest =>
    if c = 92 then
      match unescapeChar d with
      | some e => e :: unescape rest
      | none => c :: unescape (d :: rest)
    else c :: unescape (d :: rest)
  | [c] => [c]
  | [] => []

/-- The seven characters. -/
def escaped : List UInt8 := [12, 9, 13, 10, 8, 34, 92]

/-! ## The three switches -/

/-- The test looks for the seven characters. -/
theorem needEscapeChar_iff (c : UInt8) : needEscapeChar c = true ↔ c ∈ escaped := by
  unfold needEscapeChar
  split <;> simp_all [escaped]

/-- The count finds the same characters as the test. -/
theorem sizeOfChar_eq (c : UInt8) : sizeOfChar c = if needEscapeChar c = true then 2 else 1 := by
  unfold sizeOfChar needEscapeChar
  split <;> simp_all

/-- The output writes any other character as it is. -/
theorem escapeChar_plain {c : UInt8} (plain : needEscapeChar c = false) : escapeChar c = [c] := by
  unfold needEscapeChar at plain
  unfold escapeChar
  split <;> simp_all

/-- The output writes these as two characters, which stand for the one. -/
theorem escapeChar_special {c : UInt8} (special : needEscapeChar c = true) :
    ∃ d, escapeChar c = [92, d] ∧ unescapeChar d = some c := by
  unfold needEscapeChar at special
  split at special
  -- one of the seven, each with the character behind its backslash
  all_goals first | exact ⟨_, rfl, rfl⟩ | cases special

theorem length_escapeChar (c : UInt8) : (escapeChar c).length = sizeOfChar c := by
  rw [sizeOfChar_eq]
  by_cases special : needEscapeChar c = true
  · obtain ⟨d, written, -⟩ := escapeChar_special special
    simp [written, special]
  · simp [escapeChar_plain (by simpa using special), special]

/-! ## What is written, read back -/

theorem unescape_cons {c : UInt8} (plain : c ≠ 92) (rest : List UInt8) :
    unescape (c :: rest) = c :: unescape rest := by
  cases rest with
  | nil => rfl
  | cons d rest => rw [unescape, if_neg plain]

theorem unescape_escapeChar (c : UInt8) (rest : List UInt8) :
    unescape (escapeChar c ++ rest) = c :: unescape rest := by
  by_cases special : needEscapeChar c = true
  · obtain ⟨d, written, read⟩ := escapeChar_special special
    simp [written, unescape, read]
  · have plain : needEscapeChar c = false := by simpa using special
    -- a backslash is one of the seven
    have noBackslash : c ≠ 92 := by
      rintro rfl
      exact special rfl
    rw [escapeChar_plain plain]
    exact unescape_cons noBackslash rest

/-- What is written for the characters is undone, in front of anything. -/
theorem unescape_flatMap (v rest : List UInt8) :
    unescape (v.flatMap escapeChar ++ rest) = v ++ unescape rest := by
  induction v with
  | nil => rfl
  | cons c v ih => rw [List.flatMap_cons, List.append_assoc, unescape_escapeChar, ih, List.cons_append]

theorem unescape_replicate (n : Nat) (rest : List UInt8) :
    unescape (List.replicate n 0 ++ rest) = List.replicate n 0 ++ unescape rest := by
  induction n with
  | zero => rfl
  | succ n ih =>
    rw [List.replicate_succ, List.cons_append, unescape_cons (by decide), ih, List.cons_append]

/-! ## The two loops -/

theorem size_foldl (v : List UInt8) (size : Nat) :
    v.foldl (fun size c => size + sizeOfChar c) size =
      size + v.length + v.countP needEscapeChar := by
  induction v generalizing size with
  | nil => simp
  | cons c v ih =>
    rw [List.foldl_cons, ih, sizeOfChar_eq, List.countP_cons, List.length_cons]
    -- 2 for a character that the test finds, else 1
    split <;> omega

theorem append_foldl (v rt : List UInt8) :
    v.foldl (fun rt c => rt ++ escapeChar c) rt = rt ++ v.flatMap escapeChar := by
  induction v generalizing rt with
  | nil => simp
  | cons c v ih => rw [List.foldl_cons, ih, List.flatMap_cons, List.append_assoc]

/-- The counted size is what the output takes. -/
theorem length_flatMap_escapeChar (v : List UInt8) :
    (v.flatMap escapeChar).length = v.length + v.countP needEscapeChar := by
  induction v with
  | nil => rfl
  | cons c v ih =>
    rw [List.flatMap_cons, List.length_append, ih, length_escapeChar, sizeOfChar_eq,
      List.countP_cons, List.length_cons]
    split <;> omega

theorem needEscape_eq_false {v : List UInt8} : needEscape v = false ↔ ∀ c ∈ v, c ∉ escaped := by
  simp [needEscape, ← needEscapeChar_iff]

theorem countP_needEscapeChar (v : List UInt8) :
    v.countP needEscapeChar = v.countP (· ∈ escaped) :=
  List.countP_congr fun c _ => by simp [needEscapeChar_iff]

theorem countP_eq_zero {v : List UInt8} :
    v.countP (· ∈ escaped) = 0 ↔ ∀ c ∈ v, c ∉ escaped := by
  simp [List.countP_eq_zero]

/-- Nothing to escape: the input is returned. -/
theorem escape_plain {v : List UInt8} (plain : ∀ c ∈ v, c ∉ escaped) : escape v = v := by
  have counted : v.countP needEscapeChar = 0 := by
    rw [countP_needEscapeChar, countP_eq_zero.2 plain]
  simp [escape, size_foldl, counted]

/-- Else the escaped text stands behind as many NULs as it is long. -/
theorem escape_special {v : List UInt8} (special : ¬ ∀ c ∈ v, c ∉ escaped) :
    escape v = List.replicate (v.length + v.countP (· ∈ escaped)) 0 ++ v.flatMap escapeChar := by
  have counted : v.countP (· ∈ escaped) ≠ 0 := mt countP_eq_zero.1 special
  -- the size differs from that of the input, so that the output is built
  have grown : ¬ (0 + v.length + v.countP needEscapeChar = v.length) := by
    rw [countP_needEscapeChar]
    omega
  rw [escape, size_foldl, if_neg grown, append_foldl, countP_needEscapeChar, Nat.zero_add]

/-- So the text itself is always written right, and comes back once the NULs are dropped. -/
theorem unescape_escape_special {v : List UInt8} (special : ¬ ∀ c ∈ v, c ∉ escaped) :
    unescape (escape v) = List.replicate (v.length + v.countP (· ∈ escaped)) 0 ++ v := by
  -- a NUL is no escape and stays
  rw [escape_special special, unescape_replicate]
  have read := unescape_flatMap v []
  rw [List.append_nil] at read
  rw [read, show unescape [] = [] from rfl, List.append_nil]

theorem length_escape_special {v : List UInt8} (special : ¬ ∀ c ∈ v, c ∉ escaped) :
    (escape v).length = 2 * (v.length + v.countP (· ∈ escaped)) := by
  rw [escape_special special, List.length_append, List.length_replicate,
    length_flatMap_escapeChar, countP_needEscapeChar]
  omega

theorem unescape_plain {v : List UInt8} (plain : ∀ c ∈ v, c ∉ escaped) : unescape v = v := by
  induction v with
  | nil => rfl
  | cons c v ih =>
    have noBackslash : c ≠ 92 := by
      rintro rfl
      exact plain 92 (by simp) (by decide)
    rw [unescape_cons noBackslash, ih fun d some_d => plain d (by simp [some_d])]

/-- The three things asked of `Escape` hold where there is nothing to escape, and nowhere else. -/
theorem escape_iff (v : List UInt8) :
    (unescape (escape v) = v ∧
      (escape v).length = v.length + v.countP (· ∈ escaped) ∧
      (escape v = v ↔ needEscape v = false)) ↔ ∀ c ∈ v, c ∉ escaped := by
  constructor
  · rintro ⟨-, counted, -⟩
    by_contra special
    -- the NULs double the length
    rw [length_escape_special special] at counted
    have some_c : v.countP (· ∈ escaped) ≠ 0 := mt countP_eq_zero.1 special
    omega
  · intro plain
    have same : escape v = v := escape_plain plain
    refine ⟨?_, ?_, ?_⟩
    · rw [same, unescape_plain plain]
    · rw [same, countP_eq_zero.2 plain, Nat.add_zero]
    · exact iff_of_true same (needEscape_eq_false.2 plain)

/-- A newline comes out behind two NULs. -/
theorem escape_newline :
    ¬ ∀ v : List UInt8, unescape (escape v) = v ∧
      (escape v).length = v.length + v.countP (· ∈ escaped) ∧
      (escape v = v ↔ needEscape v = false) := by
  intro all
  have written : escape [10] = [0, 0, 92, 110] := by decide
  have read := (all [10]).1
  rw [written] at read
  revert read
  decide

end ServerFrame.JsonUtil
