import ServerFrame.Http.Parser

/-!
# The tokens of a request

What the grammar finds in the bytes of a header, by positions in the whole header and
without regard to buffers. A parser that begins anew at some positions, the cuts, sees of
a token only what lies behind the last cut; `deliver` is what its callbacks do then.
-/
namespace ServerFrame.Http

structure Span where
  start : Nat
  stop : Nat
  deriving DecidableEq, Repr

def Span.text (s : Span) (head : List UInt8) : List UInt8 :=
  (head.drop s.start).take (s.stop - s.start)

/-- What lies behind position `cut`. -/
def Span.after (s : Span) (cut : Nat) : Span := ⟨max s.start cut, s.stop⟩

/-- A token ends at the position of the byte that makes the parser report it. -/
inductive Token where
  | method (s : Span)
  | path (s : Span)
  | query (s : Span)
  | fragment (s : Span)
  | version (s : Span)
  | field (name value : Span)
  deriving DecidableEq, Repr

/-- The positions the parser has marked. `named` and `asked` tell whether the end of the
name and the start of the query are those of the current field and query. -/
structure Marks where
  mark : Nat
  fieldStart : Nat
  fieldStop : Nat
  queryStart : Nat
  named : Bool
  asked : Bool

def Marks.new : Marks := ⟨0, 0, 0, 0, false, false⟩

/-- What an action at position `at_` marks. -/
def Marks.set (m : Marks) (at_ : Nat) : Act → Marks
  | .mark => { m with mark := at_ }
  | .startField => { m with fieldStart := at_, named := false }
  | .writeField => { m with fieldStop := at_, named := true }
  | .startQuery => { m with queryStart := at_, asked := true }
  | _ => m

/-- The token that an action at position `at_` reports. -/
def Marks.token (m : Marks) (at_ : Nat) : Act → Option Token
  | .writeValue => some (.field ⟨m.fieldStart, m.fieldStop⟩ ⟨m.mark, at_⟩)
  | .requestMethod => some (.method ⟨m.mark, at_⟩)
  | .fragment => some (.fragment ⟨m.mark, at_⟩)
  | .queryString => some (.query ⟨m.queryStart, at_⟩)
  | .httpVersion => some (.version ⟨m.mark, at_⟩)
  | .requestPath => some (.path ⟨m.mark, at_⟩)
  | _ => none

/-- The actions of an edge, one after the other. -/
def Marks.setAll (at_ : Nat) : Marks → List Act → Marks
  | m, [] => m
  | m, a :: acts => (m.set at_ a).setAll at_ acts

def Marks.tokens (at_ : Nat) : Marks → List Act → List Token
  | _, [] => []
  | m, a :: acts => (m.token at_ a).toList ++ (m.set at_ a).tokens at_ acts

/-- The tokens in `bytes`, from state `cs` and position `at_` on. -/
def scan (uriRelaxed : Bool) (cs : Nat) (m : Marks) (at_ : Nat) : List UInt8 → List Token
  | [] => []
  | b :: bytes =>
    match transition uriRelaxed cs b with
    | none => []
    | some (target, acts) =>
      m.tokens at_ acts ++ scan uriRelaxed target (m.setAll at_ acts) (at_ + 1) bytes

/-- From state `cs` on, `bytes` is the rest of a header: the last byte completes it, and
none before. -/
def completes (uriRelaxed : Bool) (cs : Nat) : List UInt8 → Bool
  | [] => false
  | b :: bytes =>
    match transition uriRelaxed cs b with
    | none => false
    | some (target, acts) =>
      if .done ∈ acts then bytes.isEmpty else completes uriRelaxed target bytes

/-- `head` is well formed under the grammar. -/
def accepts (uriRelaxed : Bool) (head : List UInt8) : Bool :=
  completes uriRelaxed httpParserStart head

/-- The tokens of a header. -/
def tokens (uriRelaxed : Bool) (head : List UInt8) : List Token :=
  scan uriRelaxed httpParserStart .new 0 head

/-- The version that `OnRequestVersion` reads in a text. -/
def versionOf (text : List UInt8) : Option UInt8 :=
  if HttpRequestParser.sameChars text "HTTP/1.1" text.length then some 0x11
  else if HttpRequestParser.sameChars text "HTTP/1.0" text.length then some 0x10
  else none

/-- A field, of which only what lies behind the cut is seen. -/
def addField (head : List UInt8) (cut : Nat) (name value : Span) (headers : MapType) : MapType :=
  if (name.after cut).text head = [] then headers
  else headers.set ((name.after cut).text head) ((value.after cut).text head)

/-- The callbacks for a token. `cut p` is the start of the buffer that holds position `p`.
The start of a query moves by the distance of the buffers it was marked and is used in. -/
def deliver (head : List UInt8) (cut : Nat → Nat) (r : HttpRequest × Nat) :
    Token → Except Fault (HttpRequest × Nat)
  | .method s =>
    match charsToHttpMethod ((s.after (cut s.stop)).text head) with
    | none => .ok (r.1, 1000)
    | some m => .ok ({ r.1 with method := m }, r.2)
  | .path s => .ok ({ r.1 with path := (s.after (cut s.stop)).text head }, r.2)
  | .query s =>
    let start := s.start + (cut s.stop - cut s.start)
    if s.stop < start then .error .lengthError
    else .ok ({ r.1 with query := Span.text ⟨start, s.stop⟩ head }, r.2)
  | .fragment s => .ok ({ r.1 with fragment := (s.after (cut s.stop)).text head }, r.2)
  | .version s =>
    match versionOf ((s.after (cut s.stop)).text head) with
    | none => .ok (r.1, 1001)
    | some v => .ok ({ r.1 with version := v }, r.2)
  | .field name value =>
    .ok ({ r.1 with headers := addField head (cut value.stop) name value r.1.headers }, r.2)

/-- What each token can do, one rule for each way out of `deliver`. -/
inductive Delivered (head : List UInt8) (cut : Nat → Nat) (r : HttpRequest × Nat) :
    Token → HttpRequest × Nat → Prop
  | badMethod {s : Span} (unknown : charsToHttpMethod ((s.after (cut s.stop)).text head) = none) :
      Delivered head cut r (.method s) (r.1, 1000)
  | method {s : Span} {m : HttpMethod}
      (known : charsToHttpMethod ((s.after (cut s.stop)).text head) = some m) :
      Delivered head cut r (.method s) ({ r.1 with method := m }, r.2)
  | path {s : Span} :
      Delivered head cut r (.path s) ({ r.1 with path := (s.after (cut s.stop)).text head }, r.2)
  | query {s : Span} (fits : s.start + (cut s.stop - cut s.start) ≤ s.stop) :
      Delivered head cut r (.query s)
        ({ r.1 with query := Span.text ⟨s.start + (cut s.stop - cut s.start), s.stop⟩ head }, r.2)
  | fragment {s : Span} :
      Delivered head cut r (.fragment s)
        ({ r.1 with fragment := (s.after (cut s.stop)).text head }, r.2)
  | badVersion {s : Span} (unknown : versionOf ((s.after (cut s.stop)).text head) = none) :
      Delivered head cut r (.version s) (r.1, 1001)
  | version {s : Span} {v : UInt8} (known : versionOf ((s.after (cut s.stop)).text head) = some v) :
      Delivered head cut r (.version s) ({ r.1 with version := v }, r.2)
  | field {name value : Span} :
      Delivered head cut r (.field name value)
        ({ r.1 with headers := addField head (cut value.stop) name value r.1.headers }, r.2)

theorem delivered_of_deliver {head : List UInt8} {cut : Nat → Nat} {r q : HttpRequest × Nat}
    {t : Token} (delivered : deliver head cut r t = .ok q) : Delivered head cut r t q := by
  cases t with
  | method s =>
    rw [deliver] at delivered
    split at delivered
    next unknown =>
      cases delivered
      exact .badMethod unknown
    next m known =>
      cases delivered
      exact .method known
  | path s =>
    cases delivered
    exact .path
  | query s =>
    simp only [deliver] at delivered
    split at delivered
    next => cases delivered
    next fits =>
      cases delivered
      exact .query (Nat.le_of_not_lt fits)
  | fragment s =>
    cases delivered
    exact .fragment
  | version s =>
    rw [deliver] at delivered
    split at delivered
    next unknown =>
      cases delivered
      exact .badVersion unknown
    next v known =>
      cases delivered
      exact .version known
  | field name value =>
    cases delivered
    exact .field

def deliverAll (head : List UInt8) (cut : Nat → Nat) :
    HttpRequest × Nat → List Token → Except Fault (HttpRequest × Nat)
  | r, [] => .ok r
  | r, t :: ts =>
    match deliver head cut r t with
    | .error fault => .error fault
    | .ok r => deliverAll head cut r ts

theorem deliverAll_append (head : List UInt8) (cut : Nat → Nat) (r : HttpRequest × Nat)
    (ts us : List Token) :
    deliverAll head cut r (ts ++ us) =
      (deliverAll head cut r ts).bind fun r => deliverAll head cut r us := by
  induction ts generalizing r with
  | nil => rfl
  | cons t ts ih =>
    rw [List.cons_append, deliverAll, deliverAll]
    cases deliver head cut r t with
    | error fault => rfl
    | ok r => exact ih r

end ServerFrame.Http
