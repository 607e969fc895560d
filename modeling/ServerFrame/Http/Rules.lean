import ServerFrame.Http.Tokens
import ServerFrame.Lib.Regular

/-!
# The rules of the grammar

The rules of `http11_parser.rl` for the parts of a request, and that the generated states
get through whatever these rules match. In the grammar `("1" - "9")` is a difference and
stands for `"1"`, and `6( h16 ":" )` asks for a byte of value 6.
-/
namespace ServerFrame.Http.Rules

open Regular

/-! ## The rules -/

/-- The bytes in some ranges. -/
def bytes (ranges : List (Nat × Nat)) : List UInt8 :=
  ranges.flatMap fun range =>
    (List.range (range.2 + 1 - range.1)).map fun i => (range.1 + i).toUInt8

theorem mem_bytes {ranges : List (Nat × Nat)} (small : ∀ range ∈ ranges, range.2 < 256) {b : UInt8} :
    b ∈ bytes ranges ↔ ∃ range ∈ ranges, range.1 ≤ b.toNat ∧ b.toNat ≤ range.2 := by
  simp only [bytes, List.mem_flatMap, List.mem_map, List.mem_range]
  constructor
  · rintro ⟨range, member, i, inside, rfl⟩
    have := small range member
    have value : (range.1 + i).toUInt8.toNat = range.1 + i := by
      rw [Nat.toUInt8_eq, UInt8.toNat_ofNat']
      exact Nat.mod_eq_of_lt (by omega)
    exact ⟨range, member, by omega, by omega⟩
  · rintro ⟨range, member, lower, upper⟩
    refine ⟨range, member, b.toNat - range.1, by omega, ?_⟩
    rw [Nat.add_sub_cancel' lower, Nat.toUInt8_eq, UInt8.ofNat_toNat]

def oneOf (ranges : List (Nat × Nat)) : Expr UInt8 := .sym (bytes ranges)

def text (s : String) : Expr UInt8 := (ascii s).foldr (fun b r => .cat (.sym [b]) r) .eps

def optional (r : Expr UInt8) : Expr UInt8 := .alt r .eps

def plus (r : Expr UInt8) : Expr UInt8 := .cat r (.star r)

def atLeast : Nat → Expr UInt8 → Expr UInt8
  | 0, r => .star r
  | n + 1, r => .cat r (atLeast n r)

/-- Expressions one after the other. -/
def chain : List (Expr UInt8) → Expr UInt8
  | [] => .eps
  | [r] => r
  | r :: rs => .cat r (chain rs)

/-- One of some expressions. -/
def choice (first : Expr UInt8) : List (Expr UInt8) → Expr UInt8
  | [] => first
  | r :: rs => .alt first (choice r rs)

def alphaDigit : List (Nat × Nat) := [(65, 90), (97, 122), (48, 57)]

def digit : Expr UInt8 := oneOf [(48, 57)]

def xdigit : Expr UInt8 := oneOf [(48, 57), (65, 70), (97, 102)]

/-- `more_delims`, the braces and the circumflex. -/
def moreDelims (uriRelaxed : Bool) : List (Nat × Nat) :=
  if uriRelaxed then [(123, 123), (125, 125), (94, 94)] else []

def subDelims (uriRelaxed : Bool) : List (Nat × Nat) :=
  [(33, 33), (36, 36), (38, 44), (59, 59), (61, 61)] ++ moreDelims uriRelaxed

def unreserved : List (Nat × Nat) := alphaDigit ++ [(45, 46), (95, 95), (126, 126)]

def pctEncoded : Expr UInt8 := chain [text "%", xdigit, xdigit]

section Rules

variable (uriRelaxed : Bool)

def pchar : Expr UInt8 :=
  .alt (oneOf ((128, 255) :: unreserved ++ subDelims uriRelaxed ++ [(58, 58), (64, 64)])) pctEncoded

def fragment : Expr UInt8 := .star (.alt (pchar uriRelaxed) (oneOf [(47, 47), (63, 63)]))

def query : Expr UInt8 := .star (.alt (pchar uriRelaxed) (oneOf [(47, 47), (63, 63)]))

def segmentNzNc : Expr UInt8 :=
  plus (.alt (oneOf (unreserved ++ subDelims uriRelaxed ++ [(64, 64)])) pctEncoded)

def segmentNz : Expr UInt8 := plus (pchar uriRelaxed)

def segment : Expr UInt8 := .star (pchar uriRelaxed)

/-- `path_abempty`, which also ends the other paths. -/
def pathAbempty : Expr UInt8 := .star (.cat (text "/") (segment uriRelaxed))

def pathNoscheme : Expr UInt8 := .cat (segmentNzNc uriRelaxed) (pathAbempty uriRelaxed)

def pathAbsolute : Expr UInt8 :=
  .cat (text "/") (optional (.cat (segmentNz uriRelaxed) (pathAbempty uriRelaxed)))

def regName : Expr UInt8 :=
  .star (.alt (oneOf (unreserved ++ subDelims uriRelaxed)) pctEncoded)

def decOctet : Expr UInt8 :=
  choice digit [chain [text "1", digit], chain [text "1", digit, digit],
    chain [text "2", text "0", digit], chain [text "25", text "0"]]

def ipv4address : Expr UInt8 :=
  chain [decOctet, text ".", decOctet, text ".", decOctet, text ".", decOctet]

def h16 : Expr UInt8 :=
  .cat xdigit (optional (.cat xdigit (optional (.cat xdigit (optional xdigit)))))

def ls32 : Expr UInt8 := .alt (chain [h16, text ":", h16]) ipv4address

/-- `h16 ":"`. -/
def h16Colon : Expr UInt8 := .cat h16 (text ":")

/-- `( ( h16 ":" ){n,} h16 )? "::"`. -/
def elided (n : Nat) : Expr UInt8 :=
  .cat (optional (.cat (atLeast n h16Colon) h16)) (text "::")

/-- The byte of value `n`, and `h16 ":"`. -/
def counted (n : UInt8) : Expr UInt8 := .cat (.sym [n]) h16Colon

def ipv6address : Expr UInt8 :=
  choice (chain [counted 6, ls32])
    [chain [text "::", counted 5, ls32],
      chain [optional h16, text "::", counted 4, ls32],
      chain [elided 1, counted 3, ls32],
      chain [elided 2, counted 2, ls32],
      chain [elided 3, h16Colon, ls32],
      chain [elided 4, ls32],
      chain [elided 5, h16],
      elided 6]

def ipvFuture : Expr UInt8 :=
  chain [text "v", plus xdigit, text ".",
    plus (oneOf (unreserved ++ subDelims uriRelaxed ++ [(58, 58)]))]

def ipLiteral : Expr UInt8 :=
  chain [text "[", .alt ipv6address (ipvFuture uriRelaxed), text "]"]

def port : Expr UInt8 := .star digit

def host : Expr UInt8 := choice (ipLiteral uriRelaxed) [ipv4address, regName uriRelaxed]

def userinfo : Expr UInt8 :=
  .star (.alt (oneOf (unreserved ++ subDelims uriRelaxed ++ [(58, 58)])) pctEncoded)

def authority : Expr UInt8 :=
  chain [optional (.cat (userinfo uriRelaxed) (text "@")), host uriRelaxed,
    optional (.cat (text ":") port)]

def relativePart : Expr UInt8 :=
  choice (chain [text "//", authority uriRelaxed, pathAbempty uriRelaxed])
    [pathAbsolute uriRelaxed, pathNoscheme uriRelaxed, .eps]

end Rules

/-- A token without control characters. -/
def token : List UInt8 :=
  bytes [(33, 33), (35, 39), (42, 43), (45, 46), (48, 57), (65, 90), (94, 122), (124, 124), (126, 126)]

def fieldName : Expr UInt8 := plus (.sym token)

/-- The bytes that are not control characters. -/
def content : List UInt8 := bytes [(32, 126), (128, 255)]

/-- The same without the blank. -/
def visible : List UInt8 := bytes [(33, 126), (128, 255)]

theorem visible_of_content {b : UInt8} (is : b ∈ content) (not_blank : b ≠ 32) : b ∈ visible := by
  rw [content, mem_bytes (by decide)] at is
  rw [visible, mem_bytes (by decide)]
  have : b.toNat ≠ 32 := fun same => not_blank (UInt8.toNat_inj.mp same)
  simp only [List.mem_cons, List.not_mem_nil, or_false, exists_eq_or_imp, exists_eq_left] at is ⊢
  omega

/-- A value without control characters and leading blanks. -/
def fieldValue : Expr UInt8 := optional (.cat (.sym visible) (.star (.sym content)))

/-! ## The states -/

/-- What the first byte of a part does, by the state before it. -/
def opening : Nat → List Act
  | 1 => [.mark]
  | 3 => [.mark]
  | 4 => [.mark]
  | 13 => [.startField]
  | 15 => [.mark]
  | 20 => [.mark]
  | 29 => [.startQuery]
  | _ => []

/-- A byte inside of one part of the request. -/
def step (uriRelaxed : Bool) (cs : Nat) (b : UInt8) : Option Nat :=
  match transition uriRelaxed cs b with
  | none => none
  | some (target, acts) => if acts = opening cs ∧ opening target = [] then some target else none

/-- A byte that ends a part, with where it leads and what it reports. -/
structure Closer where
  byte : UInt8
  target : Nat
  reports : List Act
  deriving DecidableEq

def Closer.closes (uriRelaxed : Bool) (cs : Nat) (c : Closer) : Bool :=
  transition uriRelaxed cs c.byte = some (c.target, opening cs ++ c.reports)

/-- From state `cs` on the automaton gets through every word of `r`, and every one of the
bytes may end it. -/
def reads (uriRelaxed : Bool) (r : Expr UInt8) (cs : Nat) (closers : List Closer) : Bool :=
  match ends (step uriRelaxed) 16 r [cs] with
  | none => false
  | some states => states.all fun cs => closers.all (·.closes uriRelaxed cs)

def pathClosers : List Closer :=
  [⟨32, 4, [.requestPath, .requestUri]⟩, ⟨35, 20, [.requestPath, .requestUri]⟩,
    ⟨63, 29, [.requestPath]⟩]

def queryClosers : List Closer :=
  [⟨32, 4, [.queryString, .requestUri]⟩, ⟨35, 20, [.queryString, .requestUri]⟩]

def fragmentClosers : List Closer := [⟨32, 4, [.fragment]⟩]

def nameClosers : List Closer := [⟨58, 15, [.writeField]⟩]

def valueClosers : List Closer := [⟨13, 17, [.writeValue]⟩]

theorem reads_rules (uriRelaxed : Bool) :
    reads uriRelaxed fieldName 13 nameClosers = true ∧ reads uriRelaxed fieldValue 15 valueClosers = true ∧
      reads uriRelaxed (relativePart uriRelaxed) 3 pathClosers = true ∧
      reads uriRelaxed (query uriRelaxed) 29 queryClosers = true ∧
      reads uriRelaxed (fragment uriRelaxed) 20 fragmentClosers = true := by
  cases uriRelaxed <;> decide +kernel

theorem reads_fieldName (uriRelaxed : Bool) : reads uriRelaxed fieldName 13 nameClosers = true :=
  (reads_rules uriRelaxed).1

theorem reads_fieldValue (uriRelaxed : Bool) :
    reads uriRelaxed fieldValue 15 valueClosers = true :=
  (reads_rules uriRelaxed).2.1

theorem reads_relativePart (uriRelaxed : Bool) :
    reads uriRelaxed (relativePart uriRelaxed) 3 pathClosers = true :=
  (reads_rules uriRelaxed).2.2.1

theorem reads_query (uriRelaxed : Bool) :
    reads uriRelaxed (query uriRelaxed) 29 queryClosers = true :=
  (reads_rules uriRelaxed).2.2.2.1

theorem reads_fragment (uriRelaxed : Bool) :
    reads uriRelaxed (fragment uriRelaxed) 20 fragmentClosers = true :=
  (reads_rules uriRelaxed).2.2.2.2

/-- The automaton gets through the word `w`, and the byte may end it. -/
def passes (uriRelaxed : Bool) (cs : Nat) (w : List UInt8) (c : Closer) : Bool :=
  (Run.run (step uriRelaxed) cs w).any fun cs => c.closes uriRelaxed cs

theorem passes_of_reads {uriRelaxed : Bool} {r : Expr UInt8} {cs : Nat} {closers : List Closer}
    (tested : reads uriRelaxed r cs closers = true) {w : List UInt8} (is : Matches r w) {c : Closer}
    (member : c ∈ closers) : passes uriRelaxed cs w c = true := by
  rw [reads] at tested
  split at tested
  next => cases tested
  next states found =>
    obtain ⟨cs', known, ran⟩ := run_of_ends is found (List.mem_singleton.mpr rfl)
    have closes := List.all_eq_true.mp (List.all_eq_true.mp tested cs' known) c member
    rw [passes, ran]
    exact closes

theorem transition_of_step {uriRelaxed : Bool} {cs cs' : Nat} {b : UInt8}
    (stepped : step uriRelaxed cs b = some cs') :
    transition uriRelaxed cs b = some (cs', opening cs) ∧ opening cs' = [] := by
  rw [step] at stepped
  split at stepped
  next => cases stepped
  next target acts moves =>
    split at stepped
    next quiet =>
      obtain rfl := Option.some.inj stepped
      exact ⟨by rw [moves, quiet.1], quiet.2⟩
    next => cases stepped

theorem tokens_opening (m : Marks) (pos cs : Nat) : m.tokens pos (opening cs) = [] := by
  rw [opening.eq_def]
  split <;> rfl

theorem done_not_mem_opening (cs : Nat) : .done ∉ opening cs := by
  rw [opening.eq_def]
  split <;> simp

theorem setAll_append (m : Marks) (pos : Nat) (acts more : List Act) :
    m.setAll pos (acts ++ more) = (m.setAll pos acts).setAll pos more := by
  induction acts generalizing m with
  | nil => rfl
  | cons a acts ih => exact ih (m.set pos a)

theorem tokens_append (m : Marks) (pos : Nat) (acts more : List Act) :
    m.tokens pos (acts ++ more) = m.tokens pos acts ++ (m.setAll pos acts).tokens pos more := by
  induction acts generalizing m with
  | nil => rfl
  | cons a acts ih =>
    rw [List.cons_append, Marks.tokens, Marks.tokens, ih, List.append_assoc]
    rfl

section Scan

variable {uriRelaxed : Bool} {cs cs' target : Nat} {w : List UInt8} {b : UInt8} {reports : List Act}

theorem scan_run (ran : Run.run (step uriRelaxed) cs w = some cs')
    (closes : transition uriRelaxed cs' b = some (target, opening cs' ++ reports))
    (not_done : .done ∉ reports) (m : Marks) (pos : Nat) (rest : List UInt8) :
    completes uriRelaxed cs (w ++ b :: rest) = completes uriRelaxed target rest ∧
      scan uriRelaxed cs m pos (w ++ b :: rest) =
        (m.setAll pos (opening cs)).tokens (pos + w.length) reports ++
          scan uriRelaxed target ((m.setAll pos (opening cs)).setAll (pos + w.length) reports)
            (pos + w.length + 1) rest := by
  induction w generalizing cs m pos with
  | nil =>
    obtain rfl := Option.some.inj ran
    have not_done : .done ∉ opening cs ++ reports := by
      rw [List.mem_append, not_or]
      exact ⟨done_not_mem_opening cs, not_done⟩
    simp only [List.nil_append, completes, scan, closes, if_neg not_done, List.length_nil,
      Nat.add_zero, tokens_append, setAll_append, tokens_opening, true_and]
  | cons c w ih =>
    obtain ⟨t, stepped, ran⟩ := Run.run_cons_some ran
    obtain ⟨moves, inside⟩ := transition_of_step stepped
    obtain ⟨completes_eq, scan_eq⟩ := ih ran (m.setAll pos (opening cs)) (pos + 1)
    have position : pos + 1 + w.length = pos + (c :: w).length := by
      rw [List.length_cons]
      omega
    rw [inside, position] at scan_eq
    simp only [List.cons_append, completes, scan, moves, if_neg (done_not_mem_opening cs),
      tokens_opening, List.nil_append]
    exact ⟨completes_eq, scan_eq⟩

/-- The parser reads one part of the request and the byte behind it. -/
theorem scan_part {c : Closer} (tested : passes uriRelaxed cs w c = true)
    (not_done : .done ∉ c.reports) (m : Marks) (pos : Nat) (rest : List UInt8) :
    completes uriRelaxed cs (w ++ c.byte :: rest) = completes uriRelaxed c.target rest ∧
      scan uriRelaxed cs m pos (w ++ c.byte :: rest) =
        (m.setAll pos (opening cs)).tokens (pos + w.length) c.reports ++
          scan uriRelaxed c.target ((m.setAll pos (opening cs)).setAll (pos + w.length) c.reports)
            (pos + w.length + 1) rest := by
  rw [passes] at tested
  cases ran : Run.run (step uriRelaxed) cs w with
  | none =>
    rw [ran] at tested
    cases tested
  | some cs' =>
    rw [ran] at tested
    exact scan_run ran (of_decide_eq_true tested) not_done m pos rest

end Scan

end ServerFrame.Http.Rules
