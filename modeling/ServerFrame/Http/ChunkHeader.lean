import Mathlib.Data.List.TakeWhile
import Mathlib.Data.FinEnum
import ServerFrame.Http.Chunks

/-!
# Chunk headers of any size

The size of a chunk is what `strtol` makes of the digits, cut to an `int`. The parser takes
each part of a header that comes in a read of its own for a header of its own.
-/
namespace ServerFrame.Http

open Segments

/-! ## The grammar -/

def isXdigit (b : UInt8) : Bool := (digitValue 16 b).isSome

def tspecials : List UInt8 :=
  [40, 41, 60, 62, 64, 44, 59, 58, 92, 34, 47, 91, 93, 63, 61, 123, 125, 32, 9]

/-- `ascii -- (CTL | tspecials)`. -/
def isToken (b : UInt8) : Bool := 32 ≤ b && b < 127 && !tspecials.contains b

/-- What stands behind the size: `chunk_extension :> CRLF`. -/
inductive ChunkTail : List UInt8 → Prop
  | return : ChunkTail [13, 10]
  | feed : ChunkTail [10]
  | name {name rest : List UInt8} (named : name ≠ []) (tokens : name.all isToken = true)
      (more : ChunkTail rest) : ChunkTail (59 :: (name ++ rest))
  | value {name value rest : List UInt8} (named : name ≠ []) (tokens : name.all isToken = true)
      (valued : value ≠ []) (tokens' : value.all isToken = true) (more : ChunkTail rest) :
      ChunkTail (59 :: (name ++ 61 :: (value ++ rest)))

/-- A part of a header: bytes among which is neither a line feed nor a blank. -/
def Unbroken (bytes : List UInt8) : Prop := ∀ b ∈ bytes, b ≠ 10 ∧ b ≠ 32

theorem isXdigit_unbroken : ∀ b : UInt8, isXdigit b = true → b ≠ 10 ∧ b ≠ 32 := by decide +kernel

theorem isToken_unbroken : ∀ b : UInt8, isToken b = true → b ≠ 10 ∧ b ≠ 32 := by decide +kernel

theorem Unbroken.append {front back : List UInt8} (plain : Unbroken front) (plain' : Unbroken back) :
    Unbroken (front ++ back) := by
  intro b member
  rcases List.mem_append.mp member with member | member
  · exact plain b member
  · exact plain' b member

theorem Unbroken.cons {b : UInt8} {bytes : List UInt8} (first : b ≠ 10 ∧ b ≠ 32) (plain : Unbroken bytes) :
    Unbroken (b :: bytes) :=
  List.forall_mem_cons.mpr ⟨first, plain⟩

theorem unbroken_of_tokens {name : List UInt8} (tokens : name.all isToken = true) : Unbroken name :=
  fun b member => isToken_unbroken b (List.all_eq_true.mp tokens b member)

/-- The line feed of a header is its last byte. -/
theorem ChunkTail.unbroken {tail : List UInt8} (is : ChunkTail tail) :
    ∃ front, tail = front ++ [10] ∧ Unbroken front := by
  induction is with
  | «return» => exact ⟨[13], rfl, by simp [Unbroken]⟩
  | feed => exact ⟨[], rfl, by simp [Unbroken]⟩
  | @name name rest _ tokens _ ih =>
    obtain ⟨front, rfl, plain⟩ := ih
    refine ⟨59 :: (name ++ front), by simp, ?_⟩
    exact .cons (by decide) ((unbroken_of_tokens tokens).append plain)
  | @value name value rest _ tokens _ tokens' _ ih =>
    obtain ⟨front, rfl, plain⟩ := ih
    refine ⟨59 :: (name ++ 61 :: (value ++ front)), by simp, ?_⟩
    exact .cons (by decide) ((unbroken_of_tokens tokens).append
      (.cons (by decide) ((unbroken_of_tokens tokens').append plain)))

/-- The size ends where the tail begins. -/
theorem ChunkTail.head {tail : List UInt8} (is : ChunkTail tail) :
    ∃ b rest, tail = b :: rest ∧ (b = 10 ∨ b = 13 ∨ b = 59) := by
  cases is with
  | «return» => exact ⟨13, _, rfl, .inr (.inl rfl)⟩
  | feed => exact ⟨10, _, rfl, .inl rfl⟩
  | name => exact ⟨59, _, rfl, .inr (.inr rfl)⟩
  | value => exact ⟨59, _, rfl, .inr (.inr rfl)⟩

/-! ## The automaton -/

/-- The state behind `bytes`; `none` is the error state. -/
def walk : Nat → List UInt8 → Option Nat
  | cs, [] => some cs
  | cs, b :: bytes =>
    match clientTransition cs b with
    | none => none
    | some (target, _) => walk target bytes

theorem walk_append (cs : Nat) (front back : List UInt8) :
    walk cs (front ++ back) = (walk cs front).bind fun cs => walk cs back := by
  induction front generalizing cs with
  | nil => rfl
  | cons b front ih =>
    rw [List.cons_append, walk, walk]
    cases clientTransition cs b with
    | none => rfl
    | some edge => exact ih edge.1

/-- The actions of the edges behind the size do not touch it. -/
def quiet (acts : List ClientAct) : Bool :=
  acts.all fun a => a != .chunkSize && a != .writeContentLen

/-- The facts about an edge inside of a chunk header, on a byte that is no blank. -/
structure LineEdge (cs : Nat) (b : UInt8) (target : Nat) (acts : List ClientAct) : Prop where
  no_version : .httpVersion ∉ acts
  feed : b = 10 → target = 120
  inside : b ≠ 10 → 2 ≤ target ∧ target ≤ 15
  digits : target = 2 → cs = 1 ∧ acts = [.mark] ∨ cs = 2 ∧ acts = []
  behind : target ≠ 2 → (target ≤ 7 ∨ target = 120) →
    cs = 2 ∧ acts = .chunkSize :: acts.tail ∧ quiet acts.tail = true ∨
      (3 ≤ cs ∧ cs ≤ 7) ∧ quiet acts = true

instance (cs : Nat) (b : UInt8) (target : Nat) (acts : List ClientAct) :
    Decidable (LineEdge cs b target acts) :=
  decidable_of_iff (.httpVersion ∉ acts ∧ (b = 10 → target = 120) ∧
    (b ≠ 10 → 2 ≤ target ∧ target ≤ 15) ∧
    (target = 2 → cs = 1 ∧ acts = [.mark] ∨ cs = 2 ∧ acts = []) ∧
    (target ≠ 2 → (target ≤ 7 ∨ target = 120) →
      cs = 2 ∧ acts = .chunkSize :: acts.tail ∧ quiet acts.tail = true ∨
        (3 ≤ cs ∧ cs ≤ 7) ∧ quiet acts = true))
    ⟨fun ⟨a, b, c, d, e⟩ => ⟨a, b, c, d, e⟩, fun ⟨a, b, c, d, e⟩ => ⟨a, b, c, d, e⟩⟩

theorem lineEdges : ∀ cs ∈ List.range' 1 15, ∀ b : UInt8, b ≠ 32 →
    ∀ e ∈ clientTransition cs b, LineEdge cs b e.1 e.2 := by
  decide +kernel

theorem lineEdge {cs target : Nat} {b : UInt8} {acts : List ClientAct} (inside : 1 ≤ cs ∧ cs ≤ 15)
    (no_blank : b ≠ 32) (moves : clientTransition cs b = some (target, acts)) :
    LineEdge cs b target acts :=
  lineEdges cs (List.mem_range'_1.mpr (by omega)) b no_blank (target, acts) moves

/-! ## The size -/

/-- What begins like a response is no chunk header. -/
theorem walk_response {cs : Nat} {front : List UInt8} (response : 8 ≤ cs ∧ cs ≤ 15) (plain : Unbroken front) :
    walk cs (front ++ [10]) = none := by
  induction front generalizing cs with
  | nil =>
    rw [List.nil_append, walk]
    cases moves : clientTransition cs 10 with
    | none => rfl
    | some edge =>
      have facts := lineEdge (by omega) (by decide) moves
      have target_eq := facts.feed rfl
      have behind := facts.behind (by omega) (.inr target_eq)
      omega
  | cons b front ih =>
    obtain ⟨first, others⟩ := List.forall_mem_cons.mp plain
    rw [List.cons_append, walk]
    cases moves : clientTransition cs b with
    | none => rfl
    | some edge =>
      have facts := lineEdge (by omega) first.2 moves
      obtain ⟨-, high⟩ := facts.inside first.1
      have low : 8 ≤ edge.1 := by
        by_contra below
        by_cases digit : edge.1 = 2
        · have from_digit := facts.digits digit
          omega
        · have behind := facts.behind digit (.inl (by omega))
          omega
      exact ih ⟨low, high⟩ others

theorem walk_size {size : List UInt8} (is : IsSize size) : walk 1 size = some 2 := by
  have digits : ∀ {bytes : List UInt8}, (∀ b ∈ bytes, (digitValue 16 b).isSome = true) →
      walk 2 bytes = some 2 := by
    intro bytes are
    induction bytes with
    | nil => rfl
    | cons b bytes ih =>
      obtain ⟨first, others⟩ := List.forall_mem_cons.mp are
      rw [walk, (size_transition b first).2]
      exact ih others
  obtain ⟨first, rest, rfl⟩ := List.exists_cons_of_ne_nil is.nonempty
  obtain ⟨is_first, others⟩ := List.forall_mem_cons.mp is.digits
  rw [walk, (size_transition first is_first).1]
  exact digits others

/-- The size field of a line. -/
def sizeField (line : List UInt8) : List UInt8 := line.takeWhile isXdigit

theorem first_edges : ∀ b : UInt8, isXdigit b = false → ∀ e ∈ clientTransition 1 b, 8 ≤ e.1 ∧ e.1 ≤ 15 := by
  decide +kernel

theorem size_ends : ∀ b : UInt8, isXdigit b = false → clientTransition 2 b ≠ none → b ≠ 120 ∧ b ≠ 88 := by
  decide +kernel

theorem sizeField_ne {front : List UInt8} (plain : Unbroken front)
    (accepted : walk 1 (front ++ [10]) ≠ none) : sizeField front ≠ [] := by
  intro no_digit
  cases front with
  | nil =>
    have stops : clientTransition 1 10 = none := by decide
    rw [List.nil_append, walk, stops] at accepted
    exact accepted rfl
  | cons b front =>
    have not_digit : isXdigit b = false := by
      by_contra digit
      rw [sizeField, List.takeWhile_cons_of_pos (Bool.not_eq_false _ ▸ digit)] at no_digit
      cases no_digit
    rw [List.cons_append, walk] at accepted
    cases moves : clientTransition 1 b with
    | none =>
      rw [moves] at accepted
      exact accepted rfl
    | some edge =>
      rw [moves] at accepted
      have response := first_edges b not_digit edge moves
      exact accepted (walk_response response (List.forall_mem_cons.mp plain).2)

/-- In a header that is accepted there are digits, and no `x` behind them. -/
theorem accepted_size {front : List UInt8} (plain : Unbroken front)
    (accepted : walk 1 (front ++ [10]) ≠ none) :
    ∃ b back, front ++ [10] = sizeField front ++ b :: back ∧ IsSize (sizeField front) ∧
      digitValue 16 b = none ∧ b ≠ 120 ∧ b ≠ 88 := by
  have digits : ∀ c ∈ sizeField front, (digitValue 16 c).isSome = true := fun c member =>
    (List.mem_takeWhile_imp member : isXdigit c = true)
  have is : IsSize (sizeField front) := ⟨sizeField_ne plain accepted, digits⟩
  obtain ⟨b, back, behind⟩ : ∃ b back, front.dropWhile isXdigit ++ [10] = b :: back :=
    List.exists_cons_of_ne_nil (List.append_ne_nil_of_right_ne_nil _ (List.cons_ne_nil 10 []))
  have line_eq : front ++ [10] = sizeField front ++ b :: back := by
    rw [← behind, ← List.append_assoc, sizeField, List.takeWhile_append_dropWhile]
  have not_digit : isXdigit b = false := by
    have ends := List.head?_dropWhile_not isXdigit front
    cases rest : front.dropWhile isXdigit with
    | nil =>
      rw [rest] at behind
      cases behind
      rfl
    | cons c rest' =>
      rw [rest] at behind ends
      cases behind
      exact ends
  refine ⟨b, back, line_eq, is, ?_, ?_⟩
  · rwa [isXdigit, Option.isSome_eq_false_iff, Option.isNone_iff_eq_none] at not_digit
  · apply size_ends b not_digit
    intro stops
    apply accepted
    rw [line_eq, walk_append, walk_size is, Option.bind_some, walk, stops]

/-- What `strtol` reads in a header that is accepted. -/
theorem strtol_accepted {front : List UInt8} (plain : Unbroken front)
    (accepted : walk 1 (front ++ [10]) ≠ none) (more : List UInt8) :
    strtol 16 (front ++ 10 :: more) = min longMax (hexValue (sizeField front)) := by
  obtain ⟨b, back, line_eq, is, ends, no_hex⟩ := accepted_size plain accepted
  calc
    strtol 16 (front ++ 10 :: more) = strtol 16 (front ++ [10] ++ more) := by simp
    _ = strtol 16 (sizeField front ++ b :: (back ++ more)) := by simp [line_eq]
    _ = min longMax (hexValue (sizeField front)) := strtol_digits is ends no_hex _

theorem walk_cons {cs target : Nat} {b : UInt8} (moves : (clientTransition cs b).map Prod.fst = some target)
    (bytes : List UInt8) : walk cs (b :: bytes) = walk target bytes := by
  obtain ⟨edge, is_edge, rfl⟩ := Option.map_eq_some_iff.mp moves
  rw [walk, is_edge]

theorem token_edges : ∀ b : UInt8, isToken b = true → ∀ cs ∈ [4, 5, 6, 7],
    (clientTransition cs b).map Prod.fst = some (if cs ≤ 5 then 5 else 7) := by
  decide +kernel

theorem tail_edges : ∀ cs ∈ [2, 5, 7], (clientTransition cs 13).map Prod.fst = some 3 ∧
    (clientTransition cs 10).map Prod.fst = some 120 ∧ (clientTransition cs 59).map Prod.fst = some 4 := by
  decide

/-- A name in an extension leads to state 5, a value to state 7. -/
theorem walk_tokens {cs : Nat} {name : List UInt8} (from_start : cs = 4 ∨ cs = 6) (named : name ≠ [])
    (tokens : name.all isToken = true) (more : List UInt8) :
    walk cs (name ++ more) = walk (cs + 1) more := by
  have goes_on : ∀ {bytes : List UInt8}, bytes.all isToken = true →
      walk (cs + 1) (bytes ++ more) = walk (cs + 1) more := by
    intro bytes are
    induction bytes with
    | nil => rfl
    | cons b bytes ih =>
      rw [List.all_cons, Bool.and_eq_true] at are
      have stays : (clientTransition (cs + 1) b).map Prod.fst = some (cs + 1) := by
        rcases from_start with rfl | rfl
        · exact token_edges b are.1 5 (by decide)
        · exact token_edges b are.1 7 (by decide)
      rw [List.cons_append, walk_cons stays]
      exact ih are.2
  obtain ⟨first, rest, rfl⟩ := List.exists_cons_of_ne_nil named
  rw [List.all_cons, Bool.and_eq_true] at tokens
  have begins : (clientTransition cs first).map Prod.fst = some (cs + 1) := by
    rcases from_start with rfl | rfl
    · exact token_edges first tokens.1 4 (by decide)
    · exact token_edges first tokens.1 6 (by decide)
  rw [List.cons_append, walk_cons begins]
  exact goes_on tokens.2

/-- The automaton accepts what stands behind the size. -/
theorem ChunkTail.walk {tail : List UInt8} (is : ChunkTail tail) :
    ∀ cs ∈ [2, 5, 7], Http.walk cs tail = some 120 := by
  induction is with
  | «return» =>
    intro cs member
    have feed : (clientTransition 3 10).map Prod.fst = some 120 := by decide
    rw [walk_cons (tail_edges cs member).1, walk_cons feed]
    rfl
  | feed =>
    intro cs member
    rw [walk_cons (tail_edges cs member).2.1]
    rfl
  | name named tokens _ ih =>
    intro cs member
    rw [walk_cons (tail_edges cs member).2.2, walk_tokens (.inl rfl) named tokens]
    exact ih 5 (by decide)
  | value named tokens valued tokens' _ ih =>
    intro cs member
    have equals : (clientTransition 5 61).map Prod.fst = some 6 := by decide
    rw [walk_cons (tail_edges cs member).2.2, walk_tokens (.inl rfl) named tokens, walk_cons equals,
      walk_tokens (.inr rfl) valued tokens']
    exact ih 7 (by decide)

theorem sizeField_feed (front : List UInt8) : sizeField (front ++ [10]) = sizeField front := by
  have stops : [(10 : UInt8)].takeWhile isXdigit = [] := rfl
  rw [sizeField, List.takeWhile_append, stops, List.append_nil]
  split
  next all =>
    exact ((List.takeWhile_prefix isXdigit).eq_of_length all).symm
  next => rfl

/-! ## One buffer -/

/-- A `long` that `strtol` makes of hexadecimal digits of value `n`, as the `int` that the
parser stores. -/
def contentLen (n : Nat) : Int := asInt (min longMax n)

/-- The parser has read a size. -/
structure Sized (size : Int) (hp : HttpResponseParser) : Prop where
  contentLen : hp.parser.contentLen = size
  chunksDone : hp.parser.chunksDone = decide (size ≤ 0)

/-- The parser at offset `p` of a buffer inside of a chunk header, or of what begins like one. -/
structure InLine (buffer : List UInt8) (p : Nat) (hp : HttpResponseParser) : Prop where
  within : Within (p - 1) hp.parser
  start : hp.parser.bodyStart = 0
  inside : 1 ≤ hp.parser.cs ∧ hp.parser.cs ≤ 15
  first : hp.parser.cs = 1 → p = 0
  marked : hp.parser.cs = 2 → hp.parser.mark = 0
  sized : 3 ≤ hp.parser.cs → hp.parser.cs ≤ 7 → Sized (asInt (strtol 16 buffer)) hp

section Acts

variable {buffer : List UInt8} {p : Nat} {hp hp' : HttpResponseParser} {size : Int}

theorem Sized.of_parser (sized : Sized size hp) (same : hp'.parser = hp.parser) : Sized size hp' :=
  ⟨by rw [same, sized.contentLen], by rw [same, sized.chunksDone]⟩

theorem Sized.act {a : ClientAct} (sized : Sized size hp)
    (other : (a != .chunkSize && a != .writeContentLen) = true)
    (acted : HttpResponseParser.act buffer p hp a = .ok hp') : Sized size hp' := by
  cases a with
  | chunkSize => cases other
  | writeContentLen => cases other
  | writeValue => exact sized.of_parser (onResponseHttpField_marks acted)
  | reasonPhrase => exact sized.of_parser (onResponseReason_marks acted)
  | httpVersion =>
    cases acted
    exact sized.of_parser (onResponseVersion_marks ..)
  | _ =>
    cases acted
    exact ⟨sized.1, sized.2⟩

theorem Sized.acts {acts : List ClientAct} (sized : Sized size hp) (others : quiet acts = true)
    (acted : acts.foldlM (HttpResponseParser.act buffer p) hp = .ok hp') : Sized size hp' := by
  induction acts generalizing hp with
  | nil =>
    cases acted
    exact sized
  | cons a acts ih =>
    rw [quiet, List.all_cons, Bool.and_eq_true] at others
    rw [List.foldlM_cons] at acted
    obtain ⟨hp₁, first, later⟩ := EState.except_bind_ok acted
    exact ih (sized.act others.1 first) others.2 later

section Edge

variable {b : UInt8} {target : Nat} {acts : List ClientAct}

/-- The edge behind the digits reads the size, and the edges behind it leave it. -/
theorem InLine.reads (inLine : InLine buffer p hp) (edge : LineEdge hp.parser.cs b target acts)
    (not_digit : target ≠ 2) (behind : target ≤ 7 ∨ target = 120)
    (acted : acts.foldlM (HttpResponseParser.act buffer p) hp = .ok hp') :
    Sized (asInt (strtol 16 buffer)) hp' := by
  rcases edge.behind not_digit behind with ⟨is_digit, acts_eq, others⟩ | ⟨further, others⟩
  · rw [acts_eq, List.foldlM_cons] at acted
    obtain ⟨hp₁, read, later⟩ := EState.except_bind_ok acted
    have sized : Sized (asInt (strtol 16 buffer)) hp₁ := by
      cases read
      rw [inLine.marked is_digit, List.drop_zero]
      exact ⟨rfl, rfl⟩
    exact sized.acts others later
  · exact (inLine.sized further.1 further.2).acts others acted

/-- An edge that does not complete the header. -/
theorem InLine.edge (inLine : InLine buffer p hp) (small : p ≤ HttpRequestParser.maxSize)
    (moves : clientTransition hp.parser.cs b = some (target, acts)) (plain : b ≠ 10 ∧ b ≠ 32) :
    ∃ hp', acts.foldlM (HttpResponseParser.act buffer p) hp = .ok hp' ∧ .done ∉ acts ∧
      InLine buffer (p + 1) (hp'.setCs target) ∧ hp'.error = hp.error := by
  have edge := lineEdge inLine.inside plain.2 moves
  obtain ⟨hp', acted, spec⟩ := @acts_spec buffer _ _ _ (inLine.within.mono (Nat.sub_le p 1)) small
    edge.no_version
  obtain ⟨low, high⟩ := edge.inside plain.1
  have not_done : .done ∉ acts := by
    rw [(clientTransition_alive moves).2.2, httpclientParserFirstFinal]
    omega
  have start := spec.bodyStart
  rw [if_neg not_done, inLine.start] at start
  refine ⟨hp', acted, not_done, ?_, spec.error⟩
  constructor
  · exact ⟨spec.within.1, spec.within.2, spec.within.3⟩
  · exact start
  · exact ⟨Nat.le_trans (by decide) low, high⟩
  · rintro rfl
    exact absurd low (by decide)
  · rintro rfl
    rcases edge.digits rfl with ⟨is_first, rfl⟩ | ⟨is_second, rfl⟩
    · cases acted
      exact inLine.first is_first
    · cases acted
      exact inLine.marked is_second
  · intro above below
    have not_digit : target ≠ 2 := (Nat.lt_of_succ_le above).ne'
    obtain ⟨size, done⟩ := inLine.reads edge not_digit (.inl below) acted
    exact ⟨size, done⟩

/-- The line feed at the end of a header. -/
theorem InLine.feed (inLine : InLine buffer p hp) (small : p ≤ HttpRequestParser.maxSize)
    (moves : clientTransition hp.parser.cs 10 = some (target, acts)) :
    ∃ hp', acts.foldlM (HttpResponseParser.act buffer p) hp = .ok hp' ∧ .done ∈ acts ∧
      target = httpclientParserFirstFinal ∧ Sized (asInt (strtol 16 buffer)) hp' ∧
      Within p hp'.parser ∧ hp'.parser.bodyStart = p + 1 ∧ hp'.error = hp.error := by
  have edge := lineEdge inLine.inside (by decide) moves
  obtain ⟨hp', acted, spec⟩ := @acts_spec buffer _ _ _ (inLine.within.mono (Nat.sub_le p 1)) small
    edge.no_version
  have target_eq := edge.feed rfl
  have is_done : .done ∈ acts := by
    rw [(clientTransition_alive moves).2.2, target_eq, httpclientParserFirstFinal]
  have sized := inLine.reads edge (by rw [target_eq]; decide) (.inr target_eq) acted
  have start := spec.bodyStart
  rw [if_pos is_done] at start
  exact ⟨hp', acted, is_done, target_eq, sized, spec.within, start, spec.error⟩

end Edge

/-- The automaton on a part of a header. -/
theorem InLine.exec {bytes : List UInt8} (inLine : InLine buffer p hp) (plain : Unbroken bytes)
    (small : p + bytes.length ≤ HttpRequestParser.maxSize) (more : List UInt8) :
    (∀ cs', walk hp.parser.cs bytes = some cs' →
      ∃ hp', HttpResponseParser.exec buffer p hp (bytes ++ more) =
          HttpResponseParser.exec buffer (p + bytes.length) hp' more ∧
        InLine buffer (p + bytes.length) hp' ∧ hp'.parser.cs = cs' ∧ hp'.error = hp.error) ∧
    (walk hp.parser.cs bytes = none →
      ∃ hp' q, HttpResponseParser.exec buffer p hp (bytes ++ more) =
          .ok (hp'.setCs httpclientParserError, q) ∧
        InLine buffer q hp' ∧ q < p + bytes.length) := by
  induction bytes generalizing p hp with
  | nil =>
    refine ⟨fun cs' same => ?_, fun stopped => by cases stopped⟩
    exact ⟨hp, rfl, inLine, Option.some.inj same, rfl⟩
  | cons b bytes ih =>
    rw [List.length_cons] at small
    have position : p + (b :: bytes).length = p + 1 + bytes.length := by
      rw [List.length_cons]
      omega
    rw [walk, List.cons_append, HttpResponseParser.exec, position]
    cases moves : clientTransition hp.parser.cs b with
    | none =>
      refine ⟨fun cs' same => ?_, fun _ => ⟨hp, p, rfl, inLine, by omega⟩⟩
      cases same
    | some edge =>
      obtain ⟨target, acts⟩ := edge
      obtain ⟨first, others⟩ := List.forall_mem_cons.mp plain
      obtain ⟨hp₁, acted, not_done, inLine₁, error_eq⟩ := inLine.edge (by omega) moves first
      obtain ⟨goes_on, stops⟩ := ih inLine₁ others (by omega)
      simp only [acted, bind, Except.bind, if_neg not_done]
      refine ⟨fun cs' same => ?_, stops⟩
      obtain ⟨hp', ran, inLine', cs_eq, error_eq'⟩ := goes_on cs' same
      exact ⟨hp', ran, inLine', cs_eq, error_eq'.trans error_eq⟩

end Acts

section Parse

variable {env : ClientEnv} {hp : HttpResponseParser}

theorem inLine_anew (buffer : List UInt8) (hp : HttpResponseParser) : InLine buffer 0 (anew hp 1) := by
  have low : 1 ≤ 1 ∧ 1 ≤ 15 := by decide
  have no_tail : ¬ 3 ≤ 1 := by decide
  exact ⟨⟨Nat.le_refl 0, Nat.le_refl 0, Nat.le_refl 0⟩, rfl, low, fun _ => rfl, fun _ => rfl,
    fun above => absurd above no_tail⟩

/-- A buffer on which the automaton stops ends the response. -/
theorem parse_stopped {buffer : List UInt8} {hp' : HttpResponseParser} {q : Nat} (nonempty : buffer ≠ [])
    (executed : HttpResponseParser.exec buffer 0 (anew hp 1) buffer =
      .ok (hp'.setCs httpclientParserError, q))
    (within : Within (buffer.length - 1) hp'.parser) (start : hp'.parser.bodyStart ≤ buffer.length)
    (le : q ≤ buffer.length) : parse env hp buffer true = .ok none := by
  have parsed := @execute_of_exec buffer hp (hp'.setCs httpclientParserError) q true executed nonempty le
    ⟨within.1, within.2, within.3⟩ start
  have stopped : HttpResponseParser.hasError { hp'.setCs httpclientParserError with
      parser := { (hp'.setCs httpclientParserError).parser with nread := q } } = true := by
    simp [HttpResponseParser.hasError, HttpResponseParser.setCs]
  simp only [parse, parsed, bind, Except.bind, stopped, if_true, pure, Except.pure]

/-- A read that ends inside of a header. -/
theorem parse_part {part : List UInt8} (room : 0 < env.bufferSize) (fits : part.length ≤ env.bufferSize)
    (nonempty : part ≠ []) (plain : Unbroken part) (no_error : hp.error = 0) :
    (walk 1 part = none → parse env hp part true = .ok none) ∧
    (walk 1 part ≠ none →
      ∃ hp', parse env hp part true = .ok (some (hp', [])) ∧ hp'.isFinished = false ∧ hp'.error = 0) := by
  have pos := List.length_pos_iff.mpr nonempty
  have small := small_of_fits fits
  obtain ⟨goes_on, stops⟩ := (inLine_anew part hp).exec plain (by omega) []
  rw [List.append_nil, Nat.zero_add] at goes_on stops
  refine ⟨fun stopped => ?_, fun accepted => ?_⟩
  · obtain ⟨hp', q, executed, inLine, before⟩ := stops stopped
    refine parse_stopped nonempty executed (inLine.within.mono (by omega)) ?_ (Nat.le_of_lt before)
    rw [inLine.start]
    exact Nat.zero_le _
  · obtain ⟨cs, walked⟩ := Option.ne_none_iff_exists'.mp accepted
    obtain ⟨hp', executed, inLine, -, error_eq⟩ := goes_on cs walked
    rw [HttpResponseParser.exec] at executed
    have parsed := @execute_of_exec part hp hp' part.length true executed nonempty (Nat.le_refl _)
      inLine.within (by rw [inLine.start]; exact Nat.zero_le _)
    rw [List.drop_length] at parsed
    obtain ⟨low, high⟩ := inLine.inside
    have alive : hp'.parser.cs ≠ httpclientParserError := (Nat.lt_of_succ_le low).ne'
    have unfinished : hp'.parser.cs ≠ httpclientParserFirstFinal := by
      rw [httpclientParserFirstFinal]
      omega
    exact ⟨_, parse_fine parsed alive room.ne (error_eq.trans no_error),
      beq_eq_false_iff_ne.mpr unfinished, error_eq.trans no_error⟩

/-- The read that brings the line feed: the size is that of the digits at its front. -/
theorem parse_last {front more : List UInt8} (fits : (front ++ 10 :: more).length ≤ env.bufferSize)
    (plain : Unbroken front) (no_error : hp.error = 0) :
    (walk 1 (front ++ [10]) = none → parse env hp (front ++ 10 :: more) true = .ok none) ∧
    (walk 1 (front ++ [10]) ≠ none →
      ∃ hp', parse env hp (front ++ 10 :: more) true = .ok (some (hp', more)) ∧ hp'.isFinished = true ∧
        Sized (asInt (strtol 16 (front ++ 10 :: more))) hp' ∧ hp'.error = 0) := by
  have small := small_of_fits fits
  have length_eq : (front ++ 10 :: more).length = front.length + 1 + more.length := by
    rw [List.length_append, List.length_cons]
    omega
  have nonempty : front ++ 10 :: more ≠ [] := List.append_ne_nil_of_right_ne_nil _ (List.cons_ne_nil 10 more)
  obtain ⟨goes_on, stops⟩ := (inLine_anew (front ++ 10 :: more) hp).exec plain (by omega) (10 :: more)
  rw [Nat.zero_add] at goes_on stops
  rw [walk_append]
  cases walked : walk 1 front with
  | none =>
    refine ⟨fun _ => ?_, fun accepted => absurd rfl accepted⟩
    obtain ⟨hp', q, executed, inLine, before⟩ := stops walked
    refine parse_stopped nonempty executed (inLine.within.mono (by omega)) ?_ (by omega)
    rw [inLine.start]
    exact Nat.zero_le _
  | some cs =>
    obtain ⟨hp₁, executed, inLine, rfl, error_eq⟩ := goes_on cs walked
    rw [HttpResponseParser.exec] at executed
    rw [Option.bind_some, walk]
    cases moves : clientTransition hp₁.parser.cs 10 with
    | none =>
      rw [moves] at executed
      refine ⟨fun _ => ?_, fun accepted => absurd rfl accepted⟩
      refine parse_stopped nonempty executed (inLine.within.mono (by omega)) ?_ (by omega)
      rw [inLine.start]
      exact Nat.zero_le _
    | some edge =>
      obtain ⟨target, acts⟩ := edge
      refine ⟨fun stopped => absurd stopped (Option.some_ne_none _), fun _ => ?_⟩
      obtain ⟨hp', acted, is_done, rfl, sized, within, start, error_eq'⟩ := inLine.feed (by omega) moves
      simp only [moves, acted, bind, Except.bind, if_pos is_done, pure, Except.pure] at executed
      have fine : hp'.error = 0 := (error_eq'.trans error_eq).trans no_error
      have at_end : hp'.parser.bodyStart ≤ (front ++ 10 :: more).length := by omega
      have inside : Within ((front ++ 10 :: more).length - 1) hp'.parser := within.mono (by omega)
      have parsed := @execute_of_exec _ hp (hp'.setCs httpclientParserFirstFinal) (front.length + 1) true
        executed nonempty (by omega) ⟨inside.1, inside.2, inside.3⟩ at_end
      have left_eq : (front ++ 10 :: more).drop (front.length + 1) = more := by
        rw [← List.drop_drop, List.drop_left]
        rfl
      have alive : httpclientParserFirstFinal ≠ httpclientParserError := by decide
      rw [left_eq] at parsed
      exact ⟨_, parse_fine parsed alive (by omega) fine, rfl, ⟨sized.1, sized.2⟩, fine⟩

end Parse

end ServerFrame.Http
