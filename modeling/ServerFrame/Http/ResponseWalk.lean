import ServerFrame.Http.Documents
import ServerFrame.Http.Framing
import ServerFrame.Http.ResponseHeader

/-!
# The client's parser on the lines of a header

The automaton has states of its own for the names `connection`, `transfer-encoding` and
`content-length`. Whatever way it takes through a line, the field that comes out is the one
that was written.
-/
namespace ServerFrame.Http

open Segments

/-! ## Ways through the automaton -/

/-- The state behind some bytes, none of which does anything. -/
def quietPath : Nat → List UInt8 → Option Nat
  | cs, [] => some cs
  | cs, b :: bytes =>
    match clientTransition cs b with
    | some (target, []) => quietPath target bytes
    | _ => none

theorem quietPath_cons {cs target : Nat} {b : UInt8} {bytes : List UInt8}
    (moves : clientTransition cs b = some (target, [])) :
    quietPath cs (b :: bytes) = quietPath target bytes := by
  rw [quietPath, moves]

/-- What every byte keeps, a part keeps; `front` is what has been read before. -/
theorem quietPath_of_keeps {I : List UInt8 → Nat → Prop} {B : UInt8 → Prop}
    (keeps : ∀ front cs b, I front cs → B b →
      ∃ target, clientTransition cs b = some (target, []) ∧ I (front ++ [b]) target)
    {f bytes : List UInt8} {cs : Nat} (inv : I f cs) (all : ∀ b ∈ bytes, B b) :
    ∃ target, quietPath cs bytes = some target ∧ I (f ++ bytes) target := by
  induction bytes generalizing f cs with
  | nil => exact ⟨cs, rfl, by rwa [List.append_nil]⟩
  | cons b bytes ih =>
    obtain ⟨next_, moves, inv⟩ := keeps f cs b inv (all b (List.mem_cons_self ..))
    obtain ⟨target, path, inv⟩ := ih inv fun c member => all c (List.mem_cons_of_mem _ member)
    refine ⟨target, by rw [quietPath_cons moves, path], ?_⟩
    rwa [List.append_assoc] at inv

/-- The states inside of a name. -/
def nameStates : List Nat :=
  21 :: (List.range' 25 10 ++ List.range' 44 17 ++ List.range' 101 11)

/-- What has been read in a state in which the name can still become one of the three. -/
def spelled (cs : Nat) : Option (List UInt8) :=
  if 25 ≤ cs ∧ cs ≤ 34 then some ((ascii "connection").take (cs - 24))
  else if 44 ≤ cs ∧ cs ≤ 60 then some ((ascii "transfer-encoding").take (cs - 43))
  else if 101 ≤ cs ∧ cs ≤ 111 then some ((ascii "content-length").take (cs - 97))
  else none

/-- State `cs` is reached by the name `front`, without regard to case. -/
def InName (front : List UInt8) (cs : Nat) : Prop :=
  cs ∈ nameStates ∧ ∀ text ∈ spelled cs, front.map tolower = text

theorem all_bytes {p : UInt8 → Bool} (tested : (List.range 256).all (fun n => p n.toUInt8) = true)
    (b : UInt8) : p b = true := by
  have here := List.all_eq_true.mp tested b.toNat (List.mem_range.mpr b.toNat_lt)
  rwa [Nat.toUInt8_eq, UInt8.ofNat_toNat] at here

/-- `Rules.token` as a test. -/
def isTokenByte (b : UInt8) : Bool :=
  [(33, 33), (35, 39), (42, 43), (45, 46), (48, 57), (65, 90), (94, 122), (124, 124), (126, 126)].any
    fun range => range.1 ≤ b.toNat && b.toNat ≤ range.2

/-- What is tested of every byte of a name. -/
theorem of_token {p : UInt8 → Bool} {b : UInt8}
    (tested : (List.range 256).all (fun n => !isTokenByte n.toUInt8 || p n.toUInt8) = true)
    (is_token : b ∈ Rules.token) : p b = true := by
  obtain ⟨range, known, lower, upper⟩ := (Rules.mem_bytes (by decide)).mp is_token
  have token : isTokenByte b = true := by
    refine List.any_eq_true.mpr ⟨range, known, ?_⟩
    rw [Bool.and_eq_true, decide_eq_true_eq, decide_eq_true_eq]
    exact ⟨lower, upper⟩
  have here := all_bytes (p := fun b => !isTokenByte b || p b) tested b
  rwa [token, Bool.not_true, Bool.false_or] at here

/-- A name that begins with `b` goes on in a state that fits. -/
def startsName (cs : Nat) (b : UInt8) : Bool :=
  (clientTransition cs b).any fun next_ =>
    next_.1 ∈ nameStates && (next_.2 = [.startField] || next_.2 = [.writeConnectionClose, .startField]) &&
    (spelled next_.1).all fun text => [tolower b] = text

def staysInName (cs : Nat) (b : UInt8) : Bool :=
  (clientTransition cs b).any fun next_ =>
    next_.1 ∈ nameStates && next_.2 = [] && (spelled next_.1).all fun text =>
      (spelled cs).any fun front => text = front ++ [tolower b]

/-- The rows of the table that a name goes through. -/
theorem name_rows :
    (∀ cs ∈ [20, 43],
      (List.range 256).all (fun n => !isTokenByte n.toUInt8 || startsName cs n.toUInt8) = true) ∧
    (∀ cs ∈ nameStates,
      (List.range 256).all (fun n => !isTokenByte n.toUInt8 || staysInName cs n.toUInt8) = true) ∧
    ∀ cs ∈ nameStates, ((clientTransition cs 58).any fun next_ =>
      next_.2 = [.writeField] && (next_.1 = 22 || next_.1 = 35 && spelled cs = some (ascii "connection") ||
        next_.1 = 61 && spelled cs = some (ascii "transfer-encoding") ||
        next_.1 = 112 && spelled cs = some (ascii "content-length"))) = true := by
  decide +kernel

theorem name_starts : ∀ cs ∈ [20, 43], ∀ b ∈ Rules.token, ∃ target ∈ nameStates,
    (clientTransition cs b = some (target, [.startField]) ∨
      clientTransition cs b = some (target, [.writeConnectionClose, .startField])) ∧
    ∀ text ∈ spelled target, [tolower b] = text := by
  intro cs is_start b is_token
  have here := of_token (name_rows.1 cs is_start) is_token
  rw [startsName] at here
  cases moves : clientTransition cs b with
  | none =>
    rw [moves] at here
    cases here
  | some next_ =>
    obtain ⟨target, acts⟩ := next_
    rw [moves] at here
    simp only [Option.any_some, Bool.and_eq_true, Bool.or_eq_true, decide_eq_true_eq] at here
    obtain ⟨⟨inside, acts_eq⟩, spells⟩ := here
    refine ⟨target, inside, ?_, fun text is => ?_⟩
    · exact acts_eq.imp (fun same => by rw [same]) fun same => by rw [same]
    · rw [Option.mem_def.mp is] at spells
      exact of_decide_eq_true spells

theorem name_goes_on : ∀ cs ∈ nameStates, ∀ b ∈ Rules.token, ∃ target ∈ nameStates,
    clientTransition cs b = some (target, []) ∧
    ∀ text ∈ spelled target, ∃ front ∈ spelled cs, text = front ++ [tolower b] := by
  intro cs inside b is_token
  have here := of_token (name_rows.2.1 cs inside) is_token
  rw [staysInName] at here
  cases moves : clientTransition cs b with
  | none =>
    rw [moves] at here
    cases here
  | some next_ =>
    obtain ⟨target, acts⟩ := next_
    rw [moves] at here
    simp only [Option.any_some, Bool.and_eq_true, decide_eq_true_eq] at here
    obtain ⟨⟨inside, acts_eq⟩, spells⟩ := here
    refine ⟨target, inside, acts_eq ▸ rfl, fun text is => ?_⟩
    rw [Option.mem_def.mp is, Option.all_some] at spells
    obtain ⟨front, is_front, eq⟩ := (Option.any_eq_true _ _).mp spells
    exact ⟨front, is_front, of_decide_eq_true eq⟩

theorem inName_keeps (front : List UInt8) (cs : Nat) (b : UInt8) (inv : InName front cs)
    (is_token : b ∈ Rules.token) :
    ∃ target, clientTransition cs b = some (target, []) ∧ InName (front ++ [b]) target := by
  obtain ⟨target, inside, moves, spells⟩ := name_goes_on cs inv.1 b is_token
  refine ⟨target, moves, inside, fun text is => ?_⟩
  obtain ⟨before, is_before, rfl⟩ := spells text is
  rw [List.map_append, inv.2 before is_before]
  rfl

/-- The colon leads to the states of a value; the three names have their own. -/
theorem name_ends : ∀ cs ∈ nameStates, ∃ target, clientTransition cs 58 = some (target, [.writeField]) ∧
    (target = 22 ∨ target = 35 ∧ spelled cs = some (ascii "connection") ∨
      target = 61 ∧ spelled cs = some (ascii "transfer-encoding") ∨
      target = 112 ∧ spelled cs = some (ascii "content-length")) := by
  intro cs inside
  have here := name_rows.2.2 cs inside
  cases moves : clientTransition cs 58 with
  | none =>
    rw [moves] at here
    cases here
  | some next_ =>
    obtain ⟨target, acts⟩ := next_
    rw [moves] at here
    simp only [Option.any_some, Bool.and_eq_true, Bool.or_eq_true, decide_eq_true_eq] at here
    obtain ⟨acts_eq, which⟩ := here
    exact ⟨target, acts_eq ▸ rfl, by simpa only [or_assoc] using which⟩

theorem tolower_tolower (b : UInt8) : tolower (tolower b) = tolower b := by
  unfold tolower
  split <;> grind

theorem folded_map_tolower (name : List UInt8) : folded (name.map tolower) = folded name := by
  induction name with
  | nil => rfl
  | cons b name ih =>
    rw [List.map_cons, folded_cons, folded_cons, ih, tolower_tolower]
    simp only [tolower_eq_zero_iff]

/-- Where the colon leads behind a name. -/
theorem name_colon {name : List UInt8} {cs : Nat} (inv : InName name cs)
    (other : strcasecmp name (ascii "transfer-encoding") ≠ .eq) :
    ∃ target ∈ [22, 35, 112], clientTransition cs 58 = some (target, [.writeField]) ∧
      (target ≠ 22 → strcasecmp name (ascii "connection") = .eq ∨
        strcasecmp name (ascii "content-length") = .eq) := by
  have is_name : ∀ text, spelled cs = some text → strcasecmp name text = .eq := by
    intro text is
    rw [strcasecmp_eq_iff, ← folded_map_tolower, inv.2 text is]
  obtain ⟨target, moves, rfl | ⟨rfl, is⟩ | ⟨rfl, is⟩ | ⟨rfl, is⟩⟩ := name_ends cs inv.1
  · exact ⟨22, by decide, moves, fun other => absurd rfl other⟩
  · exact ⟨35, by decide, moves, fun _ => .inl (is_name _ is)⟩
  · exact absurd (is_name _ is) other
  · exact ⟨112, by decide, moves, fun _ => .inr (is_name _ is)⟩

/-! ### Values -/

/-- The bytes that a value can have, and those that it can begin with. -/
def isContent (b : UInt8) : Bool := b != 13 && b != 10

def isFirst (b : UInt8) : Bool := isContent b && b != 9 && b != 11 && b != 12 && b != 32

/-- The states inside of a value other than those on the way to `chunked`. -/
def valueStates : List Nat := 23 :: 119 :: List.range' 96 5

theorem value_blank : ∀ cs ∈ [22, 35, 112], clientTransition cs 32 = some (cs, [.mark]) := by
  decide

theorem value_empty : clientTransition 22 13 = some (24, [.mark, .writeValue]) := rfl

/-- The rows of the table that a value goes through. -/
theorem value_rows :
    (∀ cs ∈ [22, 35, 112], (List.range 256).all (fun n => !isFirst n.toUInt8 ||
      (clientTransition cs n.toUInt8).any fun next_ => next_.1 ∈ valueStates && next_.2 = [.mark]) =
        true) ∧
    ∀ cs ∈ valueStates, (List.range 256).all (fun n => !isContent n.toUInt8 ||
      (clientTransition cs n.toUInt8).any fun next_ => next_.1 ∈ valueStates && next_.2 = []) =
        true := by
  decide +kernel

theorem value_starts {cs : Nat} (start : cs ∈ [22, 35, 112]) {b : UInt8} (first : isFirst b = true) :
    ∃ target ∈ valueStates, clientTransition cs b = some (target, [.mark]) := by
  have here := all_bytes (p := fun b => !isFirst b || (clientTransition cs b).any fun next_ =>
    next_.1 ∈ valueStates && next_.2 = [.mark]) (value_rows.1 cs start) b
  rw [first, Bool.not_true, Bool.false_or, Option.any_eq_true] at here
  obtain ⟨⟨target, acts⟩, moves, tested⟩ := here
  rw [Bool.and_eq_true, decide_eq_true_eq, decide_eq_true_eq] at tested
  obtain ⟨inside, rfl⟩ := tested
  exact ⟨target, inside, moves⟩

theorem value_goes_on {cs : Nat} (inside : cs ∈ valueStates) {b : UInt8} (content : isContent b = true) :
    ∃ target, clientTransition cs b = some (target, []) ∧ target ∈ valueStates := by
  have here := all_bytes (p := fun b => !isContent b || (clientTransition cs b).any fun next_ =>
    next_.1 ∈ valueStates && next_.2 = []) (value_rows.2 cs inside) b
  rw [content, Bool.not_true, Bool.false_or, Option.any_eq_true] at here
  obtain ⟨⟨target, acts⟩, moves, tested⟩ := here
  rw [Bool.and_eq_true, decide_eq_true_eq, decide_eq_true_eq] at tested
  obtain ⟨inside, rfl⟩ := tested
  exact ⟨target, moves, inside⟩

/-- The end of a value, and the line end behind it. -/
theorem value_ends : ∀ cs ∈ valueStates, ∃ target, ∃ start ∈ [20, 43],
    (clientTransition cs 13 = some (target, [.writeValue]) ∨
      clientTransition cs 13 = some (target, [.writeContentLen, .writeValue])) ∧
    clientTransition target 10 = some (start, []) := by
  have all : ∀ cs ∈ valueStates,
      (clientTransition cs 13 = some (24, [.writeValue]) ∧ clientTransition 24 10 = some (20, [])) ∨
      (clientTransition cs 13 = some (24, [.writeContentLen, .writeValue]) ∧
        clientTransition 24 10 = some (20, [])) ∨
      (clientTransition cs 13 = some (88, [.writeValue]) ∧ clientTransition 88 10 = some (43, [])) := by
    decide
  intro cs inside
  rcases all cs inside with ⟨ends, line⟩ | ⟨ends, line⟩ | ⟨ends, line⟩
  · exact ⟨24, 20, by decide, .inl ends, line⟩
  · exact ⟨24, 20, by decide, .inr ends, line⟩
  · exact ⟨88, 43, by decide, .inl ends, line⟩

/-! ## The parser in a buffer -/

namespace HttpResponseParser

/-- The parser with its marks for a field, in state `cs`. -/
def marked (hp : HttpResponseParser) (fieldStart fieldLen mark cs : Nat) : HttpResponseParser :=
  { hp with parser := { hp.parser with
    fieldStart := fieldStart, fieldLen := fieldLen, mark := mark, cs := cs } }

/-- The parser has found a header. -/
def found (hp : HttpResponseParser) (name value : List UInt8) (contentLen : Int) : HttpResponseParser :=
  { hp with
    parser := { hp.parser with contentLen := contentLen }
    data := { hp.data with headers := hp.data.headers.set name value } }

end HttpResponseParser

open HttpResponseParser

section Buffer

variable {buffer rest : List UInt8} {p : Nat} {hp : HttpResponseParser}

/-- From offset `p` on the parser comes to offset `q`. -/
def Continues (buffer : List UInt8) (p : Nat) (hp : HttpResponseParser) (q : Nat)
    (hp' : HttpResponseParser) : Prop :=
  exec buffer p hp (buffer.drop p) = exec buffer q hp' (buffer.drop q)

theorem Continues.trans {q r : Nat} {hp₁ hp₂ : HttpResponseParser}
    (first : Continues buffer p hp q hp₁) (second : Continues buffer q hp₁ r hp₂) :
    Continues buffer p hp r hp₂ :=
  Eq.trans first second

theorem continues_byte {b : UInt8} {target : Nat} {acts : List ClientAct} {s t : HttpResponseParser}
    (here : buffer.drop p = b :: rest) (moves : clientTransition s.parser.cs b = some (target, acts))
    (not_done : .done ∉ acts) (acted : acts.foldlM (act buffer p) s = .ok t) :
    Continues buffer p s (p + 1) (t.setCs target) := by
  rw [Continues, drop_succ_of_drop here, here, exec, moves]
  simp only [acted, bind, Except.bind, if_neg not_done]

theorem continues_path {s : HttpResponseParser} {w : List UInt8} {cs : Nat}
    (here : buffer.drop p = w ++ rest) (path : quietPath s.parser.cs w = some cs) :
    Continues buffer p s (p + w.length) (s.setCs cs) := by
  induction w generalizing p s with
  | nil =>
    obtain rfl := Option.some.inj path
    rfl
  | cons b w ih =>
    rw [quietPath] at path
    split at path
    next target moves =>
      have first : Continues buffer p s (p + 1) (s.setCs target) :=
        continues_byte here moves (by simp) rfl
      have later := ih (s := s.setCs target) (drop_succ_of_drop here) path
      rw [List.length_cons, Nat.add_comm w.length 1, ← Nat.add_assoc]
      exact first.trans later
    next => cases path

theorem length_of_drop {w : List UInt8} (here : buffer.drop p = w ++ rest) (nonempty : w ≠ []) :
    p + w.length ≤ buffer.length := by
  have lengths := congrArg List.length here
  have pos := List.length_pos_iff.mpr nonempty
  rw [List.length_drop, List.length_append] at lengths
  omega

theorem drop_part {w : List UInt8} (here : buffer.drop p = w ++ rest) :
    buffer.drop (p + w.length) = rest := by
  rw [← List.drop_drop, here, List.drop_left]

/-- The value is reported: the name and the value as they stand in the buffer. -/
theorem client_writeValue {s : HttpResponseParser} {name v : List UInt8} {start mark c : Nat} (named : name ≠ [])
    (small : buffer.length ≤ HttpRequestParser.maxSize)
    (name_here : ∃ rest, buffer.drop start = name ++ rest)
    (value_here : buffer.drop mark = v ++ rest) (at_mark : mark + v.length ≤ buffer.length) :
    act buffer (mark + v.length) (s.marked start name.length mark c) .writeValue =
      .ok ((s.found name v s.parser.contentLen).marked start name.length mark c) := by
  obtain ⟨behind, name_here⟩ := name_here
  have name_length := length_of_drop name_here named
  have name_pos := List.length_pos_iff.mpr named
  have marks_eq : (s.marked start name.length mark c).parser.fieldStart = start ∧
      (s.marked start name.length mark c).parser.fieldLen = name.length ∧
      (s.marked start name.length mark c).parser.mark = mark := ⟨rfl, rfl, rfl⟩
  rw [act, marks_eq.1, marks_eq.2.1, marks_eq.2.2, onResponseHttpField, if_neg (Nat.ne_of_gt name_pos),
    client_len (Nat.le_add_right ..), Nat.add_sub_cancel_left, name_here, value_here,
    client_str (by omega), client_str (by omega), List.take_left, List.take_left]
  rfl

/-- The name of a field, the colon and the blank behind it. -/
theorem continues_name {name : List UInt8} (start : hp.parser.cs = 20 ∨ hp.parser.cs = 43)
    (named : name ≠ []) (token : ∀ b ∈ name, b ∈ Rules.token)
    (other : strcasecmp name (ascii "transfer-encoding") ≠ .eq)
    (here : buffer.drop p = name ++ 58 :: 32 :: rest) :
    ∃ cs ∈ [22, 35, 112],
      Continues buffer p hp (p + name.length + 1 + 1)
        (hp.marked p name.length (p + name.length + 1) cs) ∧
      (cs ≠ 22 → strcasecmp name (ascii "connection") = .eq ∨
        strcasecmp name (ascii "content-length") = .eq) := by
  cases name with
  | nil => exact absurd rfl named
  | cons b name =>
    have is_start : hp.parser.cs ∈ [20, 43] := by simpa using start
    obtain ⟨cs₁, inside₁, moves₁, spells⟩ := name_starts _ is_start b (token b (List.mem_cons_self ..))
    obtain ⟨hp₁, hp₁_eq⟩ : ∃ hp₁ : HttpResponseParser, hp₁ =
        { hp with parser := { hp.parser with fieldStart := p, cs := cs₁ } } := ⟨_, rfl⟩
    have first : Continues buffer p hp (p + 1) hp₁ := by
      rw [hp₁_eq]
      rcases moves₁ with moves | moves
      · exact continues_byte here moves (by decide) rfl
      · exact continues_byte here moves (by decide) rfl
    have here₁ : buffer.drop (p + 1) = name ++ 58 :: 32 :: rest := drop_succ_of_drop here
    have state₁ : hp₁.parser.cs = cs₁ := by rw [hp₁_eq]
    have begun : InName [b] cs₁ := ⟨inside₁, spells⟩
    obtain ⟨cs₂, path, goes_on⟩ := quietPath_of_keeps inName_keeps begun
      fun c member => token c (List.mem_cons_of_mem _ member)
    have inName : InName (b :: name) cs₂ := goes_on
    have second : Continues buffer (p + 1) hp₁ (p + 1 + name.length) (hp₁.setCs cs₂) :=
      continues_path here₁ (state₁ ▸ path)
    have here₂ := drop_part here₁
    obtain ⟨cs₃, inside₃, moves₃, which⟩ := name_colon inName other
    have third := continues_byte (s := hp₁.setCs cs₂) here₂ moves₃ (by decide) rfl
    have here₃ := drop_succ_of_drop here₂
    have fourth := continues_byte (s := (HttpResponseParser.setCs
      { hp₁.setCs cs₂ with parser := { (hp₁.setCs cs₂).parser with
        fieldLen := HttpRequestParser.len (hp₁.setCs cs₂).parser.fieldStart (p + 1 + name.length) } }
      cs₃)) here₃ (value_blank cs₃ inside₃) (by decide) rfl
    have whole := ((first.trans second).trans third).trans fourth
    have length_eq : HttpRequestParser.len (hp₁.setCs cs₂).parser.fieldStart (p + 1 + name.length) =
        (b :: name).length := by
      have fieldStart : (hp₁.setCs cs₂).parser.fieldStart = p := by rw [hp₁_eq]; rfl
      rw [fieldStart, client_len (by omega), List.length_cons]
      omega
    have position : p + 1 + name.length = p + (b :: name).length := by
      rw [List.length_cons]
      omega
    refine ⟨cs₃, inside₃, ?_, which⟩
    rw [length_eq, position, hp₁_eq] at whole
    exact whole

/-- What can stand as the value of a field called `name`. -/
structure Value (name value : List UInt8) : Prop where
  content : ∀ b ∈ value, isContent b = true
  first : ∀ b ∈ value.head?, isFirst b = true
  empty : value = [] → strcasecmp name (ascii "connection") ≠ .eq ∧
    strcasecmp name (ascii "content-length") ≠ .eq

/-- The value of a field and the line end. -/
theorem continues_value {name value : List UInt8} {start cs : Nat} (is : Value name value)
    (inside : cs ∈ [22, 35, 112]) (named : name ≠ [])
    (which : cs ≠ 22 → strcasecmp name (ascii "connection") = .eq ∨
      strcasecmp name (ascii "content-length") = .eq)
    (name_here : ∃ rest, buffer.drop start = name ++ rest)
    (small : buffer.length ≤ HttpRequestParser.maxSize)
    (here : buffer.drop p = value ++ 13 :: 10 :: rest) (mark : Nat) :
    ∃ contentLen mark', ∃ cs' ∈ [20, 43], mark' ≤ max mark p ∧
      Continues buffer p (hp.marked start name.length mark cs) (p + value.length + 1 + 1)
        ((hp.found name value contentLen).marked start name.length mark' cs') := by
  have at_end := length_of_drop (w := value ++ [13, 10]) (by simpa using here) (by simp)
  rw [List.length_append, List.length_cons, List.length_singleton] at at_end
  have behind := drop_part here
  have line := drop_succ_of_drop behind
  cases value with
  | nil =>
    -- the two names that have states of their own do not stand without a value
    have cs_eq : cs = 22 := by
      by_contra other
      exact (which other).elim (is.empty rfl).1 (is.empty rfl).2
    subst cs_eq
    have reported := client_writeValue (s := hp) (v := []) (c := 22) named small name_here here
      (by rw [List.length_nil]; omega)
    have acted : [ClientAct.mark, .writeValue].foldlM (act buffer p)
        (hp.marked start name.length mark 22) =
        .ok ((hp.found name [] hp.parser.contentLen).marked start name.length p 22) := by
      exact congrArg (· >>= fun hp => [].foldlM (act buffer p) hp) reported
    have ends := continues_byte here value_empty (by decide) acted
    refine ⟨hp.parser.contentLen, p, 20, by decide, Nat.le_max_right .., ends.trans ?_⟩
    exact continues_byte (s := (hp.found name [] hp.parser.contentLen).marked start name.length p 24)
      line (rfl : clientTransition 24 10 = some (20, [])) List.not_mem_nil rfl
  | cons b value =>
    have first : isFirst b = true := is.first b rfl
    obtain ⟨cs₁, inside₁, moves₁⟩ := value_starts inside first
    have content : ∀ c ∈ value, isContent c = true := fun c member =>
      is.content c (List.mem_cons_of_mem _ member)
    obtain ⟨cs₂, path, inside₂⟩ := quietPath_of_keeps (I := fun _ cs => cs ∈ valueStates)
      (fun _ cs b inside content => value_goes_on inside content) (f := []) inside₁ content
    have opened := continues_byte (s := hp.marked start name.length mark cs) here moves₁ (by decide)
      (t := hp.marked start name.length p cs) rfl
    have walked := continues_path (s := hp.marked start name.length p cs₁) (drop_succ_of_drop here) path
    have position : p + 1 + value.length = p + (b :: value).length := by
      rw [List.length_cons]
      omega
    rw [position] at walked
    obtain ⟨target, cs₃, start₃, ends, newline⟩ := value_ends cs₂ inside₂
    -- `content-length` is also stored as a number
    have reported : ∃ contentLen, Continues buffer (p + (b :: value).length)
        (hp.marked start name.length p cs₂) (p + (b :: value).length + 1)
        ((hp.found name (b :: value) contentLen).marked start name.length p target) := by
      rcases ends with ends | ends
      · have acted := client_writeValue (s := hp) (c := cs₂) named small name_here here (by omega)
        refine ⟨hp.parser.contentLen, continues_byte (s := hp.marked start name.length p cs₂) behind
          ends (by decide)
          (t := (hp.found name (b :: value) hp.parser.contentLen).marked start name.length p cs₂) ?_⟩
        exact congrArg (· >>= fun hp => [].foldlM (act buffer _) hp) acted
      · obtain ⟨contentLen, contentLen_eq⟩ : ∃ n, n = asInt (strtol 10 (buffer.drop p)) := ⟨_, rfl⟩
        have acted := client_writeValue
          (s := { hp with parser := { hp.parser with contentLen := contentLen } }) (c := cs₂) named
          small name_here here (by omega)
        refine ⟨contentLen, continues_byte (s := hp.marked start name.length p cs₂) behind ends
          (by decide)
          (t := (hp.found name (b :: value) contentLen).marked start name.length p cs₂) ?_⟩
        rw [contentLen_eq] at acted ⊢
        exact congrArg (· >>= fun hp => [].foldlM (act buffer _) hp) acted
    obtain ⟨contentLen, reported⟩ := reported
    refine ⟨contentLen, p, cs₃, start₃, Nat.le_max_right .., ((opened.trans walked).trans reported).trans ?_⟩
    exact continues_byte (s := (hp.found name (b :: value) contentLen).marked start name.length p target)
      line newline List.not_mem_nil rfl

/-- The parser at the start of a line, with what it has found so far. -/
structure AtLine (p : Nat) (data : HttpResponse) (hp : HttpResponseParser) : Prop where
  cs : hp.parser.cs = 20 ∨ hp.parser.cs = 43
  within : Within p hp.parser
  chunked : hp.parser.chunked = false
  data : hp.data = data
  error : hp.error = 0

/-- What can stand as a field. -/
structure Field (e : List UInt8 × List UInt8) : Prop extends Value e.1 e.2 where
  named : e.1 ≠ []
  token : ∀ b ∈ e.1, b ∈ Rules.token
  other : strcasecmp e.1 (ascii "transfer-encoding") ≠ .eq

/-- `m[name] = value` for each of the entries. -/
def HttpResponse.setHeaders (r : HttpResponse) (entries : List (List UInt8 × List UInt8)) :
    HttpResponse :=
  entries.foldl (fun r e => r.setHeader e.1 e.2) r

theorem headerLine_append (name value text : List UInt8) :
    headerLine name value ++ text = name ++ 58 :: (32 :: value ++ 13 :: (10 :: text)) := by
  have colon : ascii ": " = [58, 32] := by decide
  have newline : ascii "\r\n" = [13, 10] := by decide
  rw [headerLine, colon, newline]
  simp

/-- One line of the header. -/
theorem continues_field {data : HttpResponse} {e : List UInt8 × List UInt8} (line : AtLine p data hp)
    (field : Field e) (small : buffer.length ≤ HttpRequestParser.maxSize)
    (here : buffer.drop p = headerLine e.1 e.2 ++ rest) :
    ∃ hp', Continues buffer p hp (p + (headerLine e.1 e.2).length) hp' ∧
      AtLine (p + (headerLine e.1 e.2).length) (data.setHeader e.1 e.2) hp' := by
  have length_eq := congrArg List.length (headerLine_append e.1 e.2 [])
  simp only [List.length_append, List.length_cons, List.length_nil] at length_eq
  have position : p + e.1.length + 1 + 1 + e.2.length + 1 + 1 =
      p + (headerLine e.1 e.2).length := by omega
  rw [headerLine_append] at here
  obtain ⟨cs, inside, named, which⟩ :=
    continues_name line.cs field.named field.token field.other here
  have here' : buffer.drop (p + e.1.length + 1 + 1) = e.2 ++ 13 :: 10 :: rest :=
    drop_succ_of_drop (drop_succ_of_drop (drop_part here))
  obtain ⟨contentLen, mark, cs', inside', mark_le, valued⟩ := continues_value
    field.toValue inside field.named which ⟨_, here⟩ small here' (p + e.1.length + 1)
  rw [position] at valued
  refine ⟨_, named.trans valued, ?_, ⟨?_, ?_, ?_⟩, line.chunked, ?_, line.error⟩
  · have start : cs' = 20 ∨ cs' = 43 := by simpa using inside'
    exact start
  · show mark ≤ p + (headerLine e.1 e.2).length
    omega
  · exact Nat.le_add_right ..
  · show e.1.length ≤ p + (headerLine e.1 e.2).length
    omega
  · rw [← line.data]
    rfl

/-- The lines of the header. -/
theorem continues_fields {data : HttpResponse} {entries : List (List UInt8 × List UInt8)}
    (line : AtLine p data hp) (fields : ∀ e ∈ entries, Field e)
    (small : buffer.length ≤ HttpRequestParser.maxSize)
    (here : buffer.drop p = headerLines entries ++ rest) :
    ∃ hp', Continues buffer p hp (p + (headerLines entries).length) hp' ∧
      AtLine (p + (headerLines entries).length) (data.setHeaders entries) hp' := by
  induction entries generalizing p hp data with
  | nil => exact ⟨hp, rfl, line⟩
  | cons e entries ih =>
    rw [headerLines, List.flatMap_cons, List.append_assoc] at here
    obtain ⟨hp₁, first, line₁⟩ := continues_field line (fields e (List.mem_cons_self ..)) small here
    obtain ⟨hp₂, later, line₂⟩ := ih line₁ (fun f member => fields f (List.mem_cons_of_mem _ member))
      (drop_part here)
    have position : p + (headerLine e.1 e.2).length + (headerLines entries).length =
        p + (headerLines (e :: entries)).length := by
      rw [headerLines, headerLines, List.flatMap_cons, List.length_append]
      omega
    rw [position] at later line₂
    exact ⟨hp₂, first.trans later, line₂⟩

/-- The empty line: the automaton stops behind it. -/
theorem exec_empty_line {data : HttpResponse} (line : AtLine p data hp)
    (here : buffer.drop p = 13 :: 10 :: rest) :
    ∃ hp', exec buffer p hp (buffer.drop p) = .ok (hp', p + 2) ∧ Within (p + 1) hp'.parser ∧
      hp'.parser.cs = httpclientParserFirstFinal ∧ hp'.parser.bodyStart = p + 2 ∧
      hp'.parser.chunked = false ∧ hp'.data = data ∧ hp'.error = 0 := by
  have to_end : Continues buffer p hp (p + 1) (hp.setCs 3) := by
    have first : clientTransition 20 13 = some (3, []) ∧
        clientTransition 43 13 = some (3, [.writeConnectionClose]) := ⟨rfl, rfl⟩
    rcases line.cs with cs | cs
    · exact continues_byte here (cs ▸ first.1) List.not_mem_nil rfl
    · exact continues_byte here (cs ▸ first.2) (by decide) rfl
  have last : clientTransition 3 10 = some (120, [.done]) := rfl
  have state : (hp.setCs 3).parser.cs = 3 := rfl
  have within := line.within.mono (Nat.le_succ p)
  rw [show exec buffer p hp (buffer.drop p) = _ from to_end, drop_succ_of_drop here, exec, state, last]
  exact ⟨_, rfl, ⟨within.1, within.2, within.3⟩, rfl, rfl, line.chunked, line.data, line.error⟩

end Buffer

end ServerFrame.Http
