import ServerFrame.Log.Format
import Mathlib.Data.List.Infix

/-!
# `LogFormatter::Init`: from a pattern to format items

A pattern is text with directives `%x` and `%x{fmt}`. What the scanner makes of it is compared
with what the tokens of the pattern stand for.
-/
namespace ServerFrame.Log

/-! ## The scanner -/

/-- What the inner loop finds behind a `%`, with the rest of the pattern. -/
inductive Found where
  | item (str fmt rest : List Char)
  | unclosed

/-- The inner loop while `fmt_status` is 1. -/
def readFmt (str fmt : List Char) : List Char → Found
  | [] => .unclosed
  | c :: rest => if c = '}' then .item str fmt rest else readFmt str (fmt ++ [c]) rest

/-- The inner loop while `fmt_status` is 0. -/
def readStr (str : List Char) : List Char → Found
  | [] => .item str [] []
  | c :: rest =>
    if ¬c.isAlpha ∧ c ≠ '{' ∧ c ≠ '}' then .item str [] (c :: rest)
    else if c = '{' then readFmt str [] rest
    else readStr (str ++ [c]) rest

/-- An element of `vec`: of type 0, or of type 1. -/
inductive Entry where
  | string (str : List Char)
  | directive (str fmt : List Char)

structure Scan where
  vec : List Entry
  nstr : List Char
  isError : Bool

namespace Scan

def push (s : Scan) (entry : Entry) : Scan := { s with vec := s.vec ++ [entry] }

/-- The pending text becomes an element. -/
def flush (s : Scan) : Scan :=
  if s.nstr = [] then s else { s.push (.string s.nstr) with nstr := [] }

def append (s : Scan) (c : Char) : Scan := { s with nstr := s.nstr ++ [c] }

end Scan

theorem readFmt_length {str fmt cs str' fmt' rest : List Char}
    (found : readFmt str fmt cs = .item str' fmt' rest) : rest.length < cs.length := by
  induction cs generalizing fmt with
  | nil => exact absurd found (by simp [readFmt])
  | cons c cs ih =>
    rw [readFmt] at found
    split at found
    next =>
      obtain ⟨-, -, rfl⟩ := Found.item.inj found
      exact Nat.lt_succ_self _
    next => exact Nat.lt_succ_of_lt (ih found)

theorem readStr_length {str cs str' fmt' rest : List Char}
    (found : readStr str cs = .item str' fmt' rest) : rest.length ≤ cs.length := by
  induction cs generalizing str with
  | nil =>
    obtain ⟨-, -, rfl⟩ := Found.item.inj found
    exact Nat.le_refl _
  | cons c cs ih =>
    rw [readStr] at found
    split at found
    next =>
      obtain ⟨-, -, rfl⟩ := Found.item.inj found
      exact Nat.le_refl _
    next =>
      split at found
      next => exact Nat.le_succ_of_le (Nat.le_of_lt (readFmt_length found))
      next => exact Nat.le_succ_of_le (ih found)

/-- The outer loop, and the text that is pending after it. -/
def scan (s : Scan) : List Char → Scan
  | [] => s.flush
  | c :: rest =>
    if c ≠ '%' then scan (s.append c) rest
    -- the next round begins at the second sign
    else if rest.head? = some '%' then scan (s.append '%') rest
    else
      match _found : readStr [] rest with
      | .item str fmt rest' => scan (s.flush.push (.directive str fmt)) rest'
      -- the pending text stays pending
      | .unclosed =>
        scan { s.push (.string "<<pattern_error>>".toList) with isError := true } rest
termination_by cs => cs.length
decreasing_by
  · exact Nat.lt_succ_self _
  · exact Nat.lt_succ_self _
  · exact Nat.lt_succ_of_le (readStr_length _found)
  · exact Nat.lt_succ_self _

/-- `s_format_items`. -/
def formatItem (str fmt : String) : Option FormatItem :=
  match str with
  | "m" => some .message
  | "p" => some .level
  | "r" => some .elapse
  | "c" => some .name
  | "t" => some .threadId
  | "n" => some .newLine
  | "d" => some (.dateTime fmt)
  | "f" => some .filename
  | "l" => some .line
  | "T" => some .tab
  | "F" => some .fiberId
  | "N" => some .threadName
  | _ => none

/-- The item for an element, and whether it is an error. -/
def Entry.item : Entry → FormatItem × Bool
  | .string str => (.text (String.ofList str), false)
  | .directive str fmt =>
    match formatItem (String.ofList str) (String.ofList fmt) with
    | some item => (item, false)
    | none => (.text ("<<error_format %" ++ String.ofList str ++ ">>"), true)

def Scan.items (s : Scan) : List FormatItem := s.vec.map fun entry => entry.item.1

def Scan.failed (s : Scan) : Bool := s.isError || s.vec.any fun entry => entry.item.2

/-- `LogFormatter::Init`: the items, and `is_error_`. -/
def LogFormatter.init (pattern : String) : LogFormatter × Bool :=
  let s := scan ⟨[], [], false⟩ pattern.toList
  (⟨s.items⟩, s.failed)

/-! ## The tokens of a pattern -/

/-- The fields of an event that a directive can name. -/
inductive Field where
  | message | level | elapse | name | threadId | newLine | dateTime | filename | line | tab
  | fiberId | threadName
  deriving DecidableEq, Repr

namespace Field

def letter : Field → Char
  | .message => 'm'
  | .level => 'p'
  | .elapse => 'r'
  | .name => 'c'
  | .threadId => 't'
  | .newLine => 'n'
  | .dateTime => 'd'
  | .filename => 'f'
  | .line => 'l'
  | .tab => 'T'
  | .fiberId => 'F'
  | .threadName => 'N'

/-- What prints the field. Only a time has use for a format. -/
def item (fmt : String) : Field → FormatItem
  | .message => .message
  | .level => .level
  | .elapse => .elapse
  | .name => .name
  | .threadId => .threadId
  | .newLine => .newLine
  | .dateTime => .dateTime fmt
  | .filename => .filename
  | .line => .line
  | .tab => .tab
  | .fiberId => .fiberId
  | .threadName => .threadName

theorem formatItem_letter (field : Field) (fmt : List Char) :
    (Entry.directive [field.letter] fmt).item = (field.item (String.ofList fmt), false) := by
  cases field <;> rfl

theorem isAlpha_letter (field : Field) : field.letter.isAlpha = true := by
  cases field <;> rfl

theorem letter_ne_sign (field : Field) : field.letter ≠ '%' := by
  cases field <;> decide

theorem letter_ne_brace (field : Field) : field.letter ≠ '{' := by
  cases field <;> decide

end Field

inductive Token where
  | literal (text : List Char)
  | percent
  | directive (field : Field) (fmt : Option (List Char))
  deriving DecidableEq, Repr

namespace Token

def written : Token → List Char
  | .literal text => text
  | .percent => ['%', '%']
  | .directive field none => ['%', field.letter]
  | .directive field (some fmt) => '%' :: field.letter :: '{' :: fmt ++ ['}']

/-- What a token prints: characters, and fields of the event. -/
def symbols : Token → List (Char ⊕ FormatItem)
  | .literal text => text.map .inl
  | .percent => [.inl '%']
  | .directive field fmt => [.inr (field.item (String.ofList (fmt.getD [])))]

/-- A token may stand in front of this text. -/
def Legal (after : List Char) : Token → Prop
  | .literal text => '%' ∉ text
  | .percent => True
  | .directive _ none => ∀ c ∈ after.head?, c.isAlpha = false ∧ c ≠ '{' ∧ c ≠ '}'
  | .directive _ (some fmt) => '}' ∉ fmt

def render (strftime : String → UInt64 → String) (level : LogLevel) (event : LogEvent) :
    Token → String
  | .literal text => String.ofList text
  | .percent => "%"
  | .directive field fmt =>
    (field.item (String.ofList (fmt.getD []))).format strftime level event

end Token

def pattern (tokens : List Token) : List Char := tokens.flatMap Token.written

def WellFormed : List Token → Prop
  | [] => True
  | token :: tokens => token.Legal (pattern tokens) ∧ WellFormed tokens

/-- What an item prints. Neighbouring texts are one. -/
def FormatItem.symbols : FormatItem → List (Char ⊕ FormatItem)
  | .text string => string.toList.map .inl
  | item => [.inr item]

/-! ## One step of the scanner -/

theorem symbols_item (field : Field) (fmt : String) :
    (field.item fmt).symbols = [.inr (field.item fmt)] := by
  cases field <;> rfl

theorem symbols_formatItem {str fmt : String} {item : FormatItem}
    (found : formatItem str fmt = some item) : item.symbols = [.inr item] := by
  unfold formatItem at found
  split at found <;> cases found <;> rfl

/-- A directive that is known is not printed as text. -/
theorem symbols_known {str fmt : List Char} (known : (Entry.directive str fmt).item.2 = false) :
    ∃ item, (Entry.directive str fmt).item.1.symbols = [.inr item] := by
  rw [Entry.item] at known ⊢
  split at known
  next item found => exact ⟨item, symbols_formatItem found⟩
  next => cases known

namespace Scan

def symbols (s : Scan) : List (Char ⊕ FormatItem) :=
  s.items.flatMap FormatItem.symbols ++ s.nstr.map .inl

@[simp] theorem symbols_append (s : Scan) (c : Char) : (s.append c).symbols = s.symbols ++ [.inl c] := by
  simp [symbols, append, items]

@[simp] theorem failed_append (s : Scan) (c : Char) : (s.append c).failed = s.failed := rfl

theorem items_push (s : Scan) (entry : Entry) : (s.push entry).items = s.items ++ [entry.item.1] := by
  simp [items, push]

@[simp] theorem failed_push (s : Scan) (entry : Entry) :
    (s.push entry).failed = (s.failed || entry.item.2) := by
  simp [failed, push, Bool.or_assoc]

@[simp] theorem failed_flush (s : Scan) : s.flush.failed = s.failed := by
  rw [flush]
  split
  next => rfl
  next => exact (failed_push s _).trans (Bool.or_false _)

/-- What is pending goes on being printed after what is not. -/
@[simp] theorem symbols_flush (s : Scan) : s.flush.symbols = s.symbols := by
  rw [flush]
  split
  next => rfl
  next =>
    have moved : (s.push (.string s.nstr)).items.flatMap FormatItem.symbols = s.symbols := by
      simp [items_push, Entry.item, FormatItem.symbols, symbols]
    exact (List.append_nil _).trans moved

theorem nstr_flush (s : Scan) : s.flush.nstr = [] := by
  rw [flush]
  split
  next empty => exact empty
  next => rfl

theorem symbols_directive (s : Scan) (str fmt : List Char) :
    (s.flush.push (.directive str fmt)).symbols =
      s.symbols ++ (Entry.directive str fmt).item.1.symbols := by
  have pending : s.flush.symbols = s.flush.items.flatMap FormatItem.symbols := by
    rw [symbols, nstr_flush, List.map_nil, List.append_nil]
  rw [← symbols_flush s, pending, symbols, items_push, List.flatMap_append, List.flatMap_singleton]
  exact (congrArg _ (congrArg _ (nstr_flush s))).trans (List.append_nil _)

end Scan

section Steps

variable (s : Scan) {c : Char} {cs : List Char}

theorem scan_nil : scan s [] = s.flush := by rw [scan]

theorem scan_char (char : c ≠ '%') : scan s (c :: cs) = scan (s.append c) cs := by
  rw [scan, if_pos char]

theorem scan_percent : scan s ('%' :: '%' :: cs) = scan (s.append '%') ('%' :: cs) := by
  rw [scan, if_neg (by simp), if_pos List.head?_cons]

theorem scan_found {str fmt rest : List Char} (single : cs.head? ≠ some '%')
    (found : readStr [] cs = .item str fmt rest) :
    scan s ('%' :: cs) = scan (s.flush.push (.directive str fmt)) rest := by
  rw [scan, if_neg (by simp), if_neg single]
  split
  next found' =>
    rw [found] at found'
    obtain ⟨rfl, rfl, rfl⟩ := Found.item.inj found'
    rfl
  next found' => exact absurd (found.symm.trans found') (by simp)

theorem scan_unclosed (single : cs.head? ≠ some '%') (unclosed : readStr [] cs = .unclosed) :
    scan s ('%' :: cs) =
      scan { s.push (.string "<<pattern_error>>".toList) with isError := true } cs := by
  rw [scan, if_neg (by simp), if_neg single]
  split
  next found' => exact absurd (unclosed.symm.trans found') (by simp)
  next => rfl

theorem scan_text {text : List Char} (plain : '%' ∉ text) :
    scan s (text ++ cs) = scan { s with nstr := s.nstr ++ text } cs := by
  induction text generalizing s with
  | nil => rw [List.append_nil, List.nil_append]
  | cons c text ih =>
    rw [List.mem_cons, not_or] at plain
    rw [List.cons_append, scan_char s (Ne.symm plain.1), ih _ plain.2]
    simp [Scan.append]

end Steps

theorem readFmt_closed {str seen fmt after : List Char} (free : '}' ∉ fmt) :
    readFmt str seen (fmt ++ '}' :: after) = .item str (seen ++ fmt) after := by
  induction fmt generalizing seen with
  | nil => simp [readFmt]
  | cons c fmt ih =>
    rw [List.mem_cons, not_or] at free
    rw [List.cons_append, readFmt, if_neg (Ne.symm free.1), ih free.2]
    simp

theorem readStr_letter (field : Field) (after : List Char) :
    readStr [] (field.letter :: after) = readStr [field.letter] after := by
  have letter : ¬(¬field.letter.isAlpha ∧ field.letter ≠ '{' ∧ field.letter ≠ '}') := by
    simp [field.isAlpha_letter]
  rw [readStr, if_neg letter, if_neg field.letter_ne_brace, List.nil_append]

theorem readStr_directive {field : Field} {fmt : Option (List Char)} {after : List Char}
    (legal : (Token.directive field fmt).Legal after) :
    readStr [] ((Token.directive field fmt).written.tail ++ after) =
      .item [field.letter] (fmt.getD []) after := by
  rcases fmt with _ | fmt
  · rw [Token.written, List.tail_cons, List.singleton_append, readStr_letter]
    rcases after with _ | ⟨c, after⟩
    · rfl
    · obtain ⟨other, no_open, no_close⟩ := legal c rfl
      rw [readStr, if_pos ⟨by simp [other], no_open, no_close⟩]
      rfl
  · have opened : readStr [field.letter] ('{' :: (fmt ++ '}' :: after)) =
        readFmt [field.letter] [] (fmt ++ '}' :: after) := by
      rw [readStr, if_neg (by simp), if_pos rfl]
    have shape : (Token.directive field (some fmt)).written.tail ++ after =
        field.letter :: '{' :: (fmt ++ '}' :: after) := by
      simp [Token.written]
    rw [shape, readStr_letter, opened, readFmt_closed legal]
    rfl

/-! ## Whole patterns -/

/-- An error stays, and without one what is printed stays in front. -/
def Scan.Extends (s t : Scan) : Prop :=
  t.failed = false → s.failed = false ∧ s.symbols <+: t.symbols

theorem Scan.Extends.trans {s t u : Scan} (first : s.Extends t) (rest : t.Extends u) :
    s.Extends u := by
  intro sound
  obtain ⟨sound', before⟩ := rest sound
  exact ⟨(first sound').1, (first sound').2.trans before⟩

theorem extends_append (s : Scan) (c : Char) : s.Extends (s.append c) :=
  fun sound => ⟨sound, ⟨[.inl c], (s.symbols_append c).symm⟩⟩

theorem extends_directive (s : Scan) (str fmt : List Char) :
    s.Extends (s.flush.push (.directive str fmt)) := by
  intro sound
  rw [Scan.failed_push, Scan.failed_flush, Bool.or_eq_false_iff] at sound
  exact ⟨sound.1, ⟨_, (s.symbols_directive str fmt).symm⟩⟩

theorem scan_extends (s : Scan) (cs : List Char) : s.Extends (scan s cs) := by
  induction s, cs using scan.induct with
  | case1 s =>
    rw [scan_nil]
    intro sound
    rw [Scan.failed_flush] at sound
    exact ⟨sound, ⟨[], by rw [List.append_nil, Scan.symbols_flush]⟩⟩
  | case2 s c rest char ih =>
    rw [scan_char s char]
    exact (extends_append s c).trans ih
  | case3 s c rest sign second ih =>
    obtain rfl : c = '%' := by simpa using sign
    obtain ⟨cs, rfl⟩ := List.head?_eq_some_iff.mp second
    rw [scan_percent s]
    exact (extends_append s '%').trans ih
  | case4 s c rest sign single str fmt rest' found ih =>
    obtain rfl : c = '%' := by simpa using sign
    rw [scan_found s single found]
    exact (extends_directive s str fmt).trans ih
  | case5 s c rest sign single unclosed ih =>
    obtain rfl : c = '%' := by simpa using sign
    rw [scan_unclosed s single unclosed]
    intro sound
    exact absurd (ih sound).1 (by simp [Scan.failed])

theorem nstr_scan (s : Scan) (cs : List Char) : (scan s cs).nstr = [] := by
  induction s, cs using scan.induct with
  | case1 s => rw [scan_nil, Scan.nstr_flush]
  | case2 s c rest char ih => rwa [scan_char s char]
  | case3 s c rest sign second ih =>
    obtain rfl : c = '%' := by simpa using sign
    obtain ⟨cs, rfl⟩ := List.head?_eq_some_iff.mp second
    rwa [scan_percent s]
  | case4 s c rest sign single str fmt rest' found ih =>
    obtain rfl : c = '%' := by simpa using sign
    rwa [scan_found s single found]
  | case5 s c rest sign single unclosed ih =>
    obtain rfl : c = '%' := by simpa using sign
    rwa [scan_unclosed s single unclosed]

/-- A token other than `%%` is read as what it stands for. -/
theorem scan_token {token : Token} {after : List Char} (legal : token.Legal after)
    (single : token ≠ .percent) {s : Scan} (sound : s.failed = false) :
    ∃ t : Scan, scan s (token.written ++ after) = scan t after ∧ t.failed = false ∧
      t.symbols = s.symbols ++ token.symbols := by
  cases token with
  | literal text =>
    refine ⟨{ s with nstr := s.nstr ++ text }, scan_text s legal, sound, ?_⟩
    simp [Scan.symbols, Scan.items, Token.symbols]
  | percent => exact absurd rfl single
  | directive field fmt =>
    have shape : (Token.directive field fmt).written ++ after =
        '%' :: ((Token.directive field fmt).written.tail ++ after) := by
      cases fmt <;> rfl
    have other : ((Token.directive field fmt).written.tail ++ after).head? ≠ some '%' := by
      cases fmt <;> simpa [Token.written] using field.letter_ne_sign
    refine ⟨_, shape ▸ scan_found s other (readStr_directive legal), ?_, ?_⟩
    · rw [Scan.failed_push, Scan.failed_flush, sound, Field.formatItem_letter]
      rfl
    · rw [Scan.symbols_directive, Field.formatItem_letter, symbols_item, Token.symbols]

theorem scan_tokens {tokens : List Token} (wellFormed : WellFormed tokens)
    (single : Token.percent ∉ tokens) {s : Scan} (sound : s.failed = false) :
    (scan s (pattern tokens)).failed = false ∧
      (scan s (pattern tokens)).symbols = s.symbols ++ tokens.flatMap Token.symbols := by
  induction tokens generalizing s with
  | nil =>
    rw [pattern, List.flatMap_nil, scan_nil, Scan.failed_flush, Scan.symbols_flush]
    exact ⟨sound, (List.append_nil _).symm⟩
  | cons token tokens ih =>
    rw [List.mem_cons, not_or] at single
    obtain ⟨legal, wellFormed⟩ := wellFormed
    obtain ⟨t, read, sound', printed⟩ := scan_token legal (Ne.symm single.1) sound
    rw [pattern, List.flatMap_cons, ← pattern, read]
    obtain ⟨good, same⟩ := ih wellFormed single.2 sound'
    refine ⟨good, ?_⟩
    rw [same, printed, List.flatMap_cons, List.append_assoc]

/-! ## The escape -/

/-- A sign in front of anything but a sign begins a directive. -/
theorem scan_sign {s : Scan} {cs : List Char} (single : cs.head? ≠ some '%')
    (sound : (scan s ('%' :: cs)).failed = false) :
    ∃ item, s.symbols ++ [.inr item] <+: (scan s ('%' :: cs)).symbols := by
  rcases found : readStr [] cs with ⟨str, fmt, rest⟩ | _
  · rw [scan_found s single found] at sound ⊢
    obtain ⟨sound', before⟩ := scan_extends _ _ sound
    rw [Scan.failed_push, Scan.failed_flush, Bool.or_eq_false_iff] at sound'
    obtain ⟨item, printed⟩ := symbols_known sound'.2
    rw [Scan.symbols_directive, printed] at before
    exact ⟨item, before⟩
  · rw [scan_unclosed s single found] at sound
    exact absurd (scan_extends _ _ sound).1 (by simp [Scan.failed])

/-- What comes next is one of the signs that are printed too many, or what stands behind them. -/
theorem head_of_prefix {α : Type} {xs ys : List α} {j : Nat} {a b : α}
    (before : xs ++ List.replicate j a ++ [b] <+: xs ++ ys) :
    ys.head? = some a ∨ ys.head? = some b := by
  rw [List.append_assoc, List.prefix_append_right_inj] at before
  obtain ⟨rest, rfl⟩ := before
  cases j with
  | zero => exact .inr rfl
  | succ j => exact .inl rfl

/-- The second sign of an escape is read once more. Whatever follows, the signs that were printed
before, `j` too many, are then not made good. -/
theorem scan_escaped {tokens : List Token} (wellFormed : WellFormed tokens) {j : Nat}
    {front : List (Char ⊕ FormatItem)} {s : Scan}
    (printed : s.symbols = front ++ List.replicate j (.inl '%'))
    (sound : (scan s ('%' :: pattern tokens)).failed = false) :
    (scan s ('%' :: pattern tokens)).symbols ≠ front ++ tokens.flatMap Token.symbols := by
  induction tokens generalizing s j front with
  | nil =>
    intro same
    obtain ⟨item, before⟩ := scan_sign (by simp [pattern]) sound
    rw [same, printed] at before
    rcases head_of_prefix before with head | head <;> exact absurd head (by simp)
  | cons token tokens ih =>
    obtain ⟨legal, wellFormed⟩ := wellFormed
    rw [pattern, List.flatMap_cons, ← pattern] at sound ⊢
    rw [List.flatMap_cons]
    cases token with
    | literal text =>
      cases text with
      | nil => exact ih wellFormed printed sound
      | cons c text =>
        -- a directive where the text has to come
        have plain : c ≠ '%' := fun same => legal (same ▸ List.mem_cons_self)
        intro same
        obtain ⟨item, before⟩ := scan_sign (by simpa [Token.written] using plain) sound
        rw [same, printed] at before
        rcases head_of_prefix before with head | head
        · exact plain (by simpa [Token.symbols] using head)
        · exact absurd head (by simp [Token.symbols])
    | percent =>
      -- one sign is due and two are printed
      have shape : '%' :: (Token.percent.written ++ pattern tokens) =
          '%' :: '%' :: '%' :: pattern tokens := rfl
      rw [shape, scan_percent, scan_percent] at sound ⊢
      have printed' : ((s.append '%').append '%').symbols =
          (front ++ [.inl '%']) ++ List.replicate (j + 1) (.inl '%') := by
        have rotated : List.replicate j (.inl '%') ++ [.inl '%'] ++ [.inl '%'] =
            ([.inl '%'] ++ List.replicate (j + 1) (.inl '%') : List (Char ⊕ FormatItem)) := by
          rw [← List.replicate_succ', ← List.replicate_succ', List.singleton_append]
          rfl
        rw [Scan.symbols_append, Scan.symbols_append, printed, List.append_assoc front [_], ← rotated]
        simp only [List.append_assoc]
      simpa [Token.symbols] using ih wellFormed printed' sound
    | directive field fmt =>
      -- the directive is read, but a sign stands in front of it
      have shape : '%' :: ((Token.directive field fmt).written ++ pattern tokens) =
          '%' :: '%' :: ((Token.directive field fmt).written.tail ++ pattern tokens) := by
        cases fmt <;> rfl
      rw [shape, scan_percent] at sound ⊢
      intro same
      have before := (scan_extends _ _ sound).2
      rw [same, Scan.symbols_append, printed] at before
      rcases head_of_prefix before with head | head <;> exact absurd head (by simp [Token.symbols])

theorem scan_percent_token {tokens : List Token} (wellFormed : WellFormed tokens)
    (escape : Token.percent ∈ tokens) {s : Scan} (before : s.failed = false)
    (sound : (scan s (pattern tokens)).failed = false) :
    (scan s (pattern tokens)).symbols ≠ s.symbols ++ tokens.flatMap Token.symbols := by
  induction tokens generalizing s with
  | nil => exact absurd escape List.not_mem_nil
  | cons token tokens ih =>
    obtain ⟨legal, wellFormed⟩ := wellFormed
    rw [pattern, List.flatMap_cons, ← pattern] at sound ⊢
    by_cases first : token = .percent
    · subst first
      have shape : Token.percent.written ++ pattern tokens = '%' :: '%' :: pattern tokens := rfl
      rw [shape, scan_percent] at sound ⊢
      have printed : (s.append '%').symbols =
          (s.symbols ++ [.inl '%']) ++ List.replicate 0 (.inl '%') := by
        rw [Scan.symbols_append, List.replicate_zero, List.append_nil]
      simpa [Token.symbols] using scan_escaped wellFormed printed sound
    · have later : Token.percent ∈ tokens := by
        rcases List.mem_cons.mp escape with same | later
        · exact absurd same.symm first
        · exact later
      obtain ⟨t, read, sound', printed⟩ := scan_token legal first before
      rw [read] at sound ⊢
      have differs := ih wellFormed later sound' sound
      rwa [printed, List.append_assoc, ← List.flatMap_cons] at differs

/-! ## What is printed -/

/-- The text that symbols stand for. -/
def printed (strftime : String → UInt64 → String) (level : LogLevel) (event : LogEvent) :
    List (Char ⊕ FormatItem) → String
  | [] => ""
  | .inl c :: symbols => String.singleton c ++ printed strftime level event symbols
  | .inr item :: symbols =>
    item.format strftime level event ++ printed strftime level event symbols

section Printed

variable {strftime : String → UInt64 → String} {level : LogLevel} {event : LogEvent}

theorem printed_append (xs ys : List (Char ⊕ FormatItem)) :
    printed strftime level event (xs ++ ys) =
      printed strftime level event xs ++ printed strftime level event ys := by
  induction xs with
  | nil => simp [printed]
  | cons x xs ih => cases x <;> simp [printed, ih, String.append_assoc]

theorem printed_text (text : List Char) :
    printed strftime level event (text.map .inl) = String.ofList text := by
  induction text with
  | nil => rfl
  | cons c text ih =>
    rw [List.map_cons, printed, ih]
    exact String.toList_injective (by simp)

theorem printed_item (item : FormatItem) :
    printed strftime level event item.symbols = item.format strftime level event := by
  cases item with
  | text string =>
    rw [FormatItem.symbols, printed_text, String.ofList_toList]
    rfl
  | _ => exact String.append_empty

theorem printed_token (token : Token) :
    printed strftime level event token.symbols = token.render strftime level event := by
  cases token with
  | literal text => exact printed_text text
  | percent => rfl
  | directive field fmt => exact String.append_empty

/-- A formatter prints what its symbols stand for. -/
theorem format_eq (items : List FormatItem) :
    LogFormatter.format strftime ⟨items⟩ level event =
      printed strftime level event (items.flatMap FormatItem.symbols) := by
  rw [LogFormatter.format]
  induction items with
  | nil => rfl
  | cons item items ih =>
    rw [List.map_cons, String.join_cons, ih, List.flatMap_cons, printed_append, printed_item]

theorem join_render (tokens : List Token) :
    String.join (tokens.map fun token => token.render strftime level event) =
      printed strftime level event (tokens.flatMap Token.symbols) := by
  induction tokens with
  | nil => rfl
  | cons token tokens ih =>
    rw [List.map_cons, String.join_cons, ih, List.flatMap_cons, printed_append, printed_token]

end Printed

/-! ## The claim of the documentation -/

/-- A pattern is parsed as what it says. -/
structure Faithful (tokens : List Token) (parsed : LogFormatter × Bool) : Prop where
  noError : parsed.2 = false
  items : parsed.1.items.flatMap FormatItem.symbols = tokens.flatMap Token.symbols
  format : ∀ strftime level event, parsed.1.format strftime level event =
    String.join (tokens.map fun token => token.render strftime level event)

/-- Only an escape is not read as what it stands for. -/
theorem init_faithful_iff (tokens : List Token) (wellFormed : WellFormed tokens) :
    Faithful tokens (LogFormatter.init (String.ofList (pattern tokens))) ↔
      Token.percent ∉ tokens := by
  have started : (⟨[], [], false⟩ : Scan).failed = false := rfl
  have symbols_eq : ∀ s : Scan, (scan s (pattern tokens)).symbols =
      (scan s (pattern tokens)).items.flatMap FormatItem.symbols := by
    intro s
    rw [Scan.symbols, nstr_scan, List.map_nil, List.append_nil]
  rw [LogFormatter.init, String.toList_ofList]
  constructor
  · rintro ⟨sound, items, -⟩ escape
    have differs := scan_percent_token wellFormed escape started sound
    rw [symbols_eq] at differs
    exact differs items
  · intro single
    obtain ⟨sound, same⟩ := scan_tokens wellFormed single started
    rw [symbols_eq] at same
    refine ⟨sound, same, fun strftime level event => ?_⟩
    rw [join_render]
    exact (format_eq _).trans (congrArg _ same)

theorem init_faithful_iff_time : Faithful
    [.literal ['a', ' '], .directive .dateTime (some ['%', 'Y']), .directive .message none]
    (LogFormatter.init "a %d{%Y}%m") :=
  (init_faithful_iff
    [.literal ['a', ' '], .directive .dateTime (some ['%', 'Y']), .directive .message none]
    (by simp [WellFormed, Token.Legal, pattern])).mpr (by simp)

/-- An escape in front of a letter is a sign and a directive. -/
theorem escape_is_directive :
    WellFormed [.percent, .literal ['m']] ∧
      LogFormatter.init "%%m" = (⟨[.text "%", .message]⟩, false) ∧
      ¬Faithful [.percent, .literal ['m']] (LogFormatter.init "%%m") := by
  have parsed : LogFormatter.init "%%m" = (⟨[.text "%", .message]⟩, false) := by
    have signs : "%%m".toList = ['%', '%', 'm'] := rfl
    have found : readStr [] ['m'] = .item ['m'] [] [] := rfl
    rw [LogFormatter.init, signs, scan_percent, scan_found _ (by simp) found, scan_nil]
    rfl
  refine ⟨by simp [WellFormed, Token.Legal], parsed, fun faithful => ?_⟩
  have items := faithful.items
  rw [parsed] at items
  exact absurd items (by decide)

end ServerFrame.Log
