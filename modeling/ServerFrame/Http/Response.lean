import ServerFrame.Http.ClientStates
import ServerFrame.Http.Parser

/-!
# `HttpResponseParser`

`httpclient_parser_execute` walks through one buffer as `http_parser_execute` does, with
marks that are offsets in that buffer. The same automaton reads the header of a response
and the size line of a chunk; for the latter `Execute` sets the parser up anew each time.
-/
namespace ServerFrame.Http

/-- What ends a call other than by returning: `std::length_error`, a failed assertion,
`memmove` from before the buffer, or an `int` that overflows. -/
inductive ClientFault where
  | lengthError
  | assertion
  | wildMove
  | overflow
  deriving DecidableEq, Repr

/-- The part of a response that the parser and the connection fill in. -/
structure HttpResponse where
  status : Int
  version : UInt8
  close : Bool
  reason : List UInt8
  body : List UInt8
  headers : MapType
  deriving DecidableEq, Repr

/-- The constructor with its default arguments. -/
def HttpResponse.new : HttpResponse where
  status := 200
  version := 0x11
  close := true
  reason := []
  body := []
  headers := []

def HttpResponse.getHeader (r : HttpResponse) (key : List UInt8) : List UInt8 :=
  (r.headers.find key).getD []

def HttpResponse.getHeaderAs (lexicalCast : List UInt8 → Option UInt64) (r : HttpResponse)
    (key : List UInt8) (default : UInt64) : UInt64 :=
  match r.headers.find key with
  | none => default
  | some value => (lexicalCast value).getD default

/-! ## Numbers -/

def isspace (b : UInt8) : Bool := (9 ≤ b && b ≤ 13) || b == 32

/-- A digit or a letter as a digit; `none` when it is none of the base. -/
def digitValue (base : Nat) (b : UInt8) : Option Nat :=
  let value :=
    if 48 ≤ b ∧ b ≤ 57 then b.toNat - 48
    else if 65 ≤ b ∧ b ≤ 90 then b.toNat - 55
    else if 97 ≤ b ∧ b ≤ 122 then b.toNat - 87
    else base
  if value < base then some value else none

/-- The digits up to the first byte that is none. -/
def digitsValue (base : Nat) : Nat → List UInt8 → Nat
  | n, [] => n
  | n, b :: text =>
    match digitValue base b with
    | none => n
    | some d => digitsValue base (n * base + d) text

theorem digitsValue_append {base : Nat} {front : List UInt8}
    (digits : ∀ b ∈ front, (digitValue base b).isSome = true) (n : Nat) (text : List UInt8) :
    digitsValue base n (front ++ text) = digitsValue base (digitsValue base n front) text := by
  induction front generalizing n with
  | nil => rfl
  | cons b front ih =>
    obtain ⟨d, is_digit⟩ := Option.isSome_iff_exists.mp (digits b (List.mem_cons_self ..))
    simp only [List.cons_append, digitsValue, is_digit]
    exact ih (fun c member => digits c (List.mem_cons_of_mem _ member)) (n * base + d)

/-- `0x` before a digit. -/
def dropHexPrefix : List UInt8 → List UInt8
  | 48 :: x :: d :: text =>
    if (x = 120 ∨ x = 88) ∧ (digitValue 16 d).isSome then d :: text else 48 :: x :: d :: text
  | text => text

def longMax : Int := 0x7fffffffffffffff

/-- `strtol` on a string that ends with the buffer. -/
def strtol (base : Nat) (text : List UInt8) : Int :=
  let text := text.dropWhile isspace
  let negative := text.head? == some 45
  let text := if negative || text.head? == some 43 then text.tail else text
  let text := if base = 16 then dropHexPrefix text else text
  let n : Int := digitsValue base 0 text
  if negative then max (-longMax - 1) (-n) else min longMax n

/-- A value of type `long` as an `int`. -/
def asInt (n : Int) : Int := Int.bmod n (2 ^ 32)

def atoi (text : List UInt8) : Int := asInt (strtol 10 text)

/-! ## The parser -/

/-- `httpclient_parser`, without `status` and `close`, which nothing reads. -/
structure HttpClientParser where
  cs : Nat
  bodyStart : Nat
  contentLen : Int
  chunked : Bool
  chunksDone : Bool
  nread : Nat
  mark : Nat
  fieldStart : Nat
  fieldLen : Nat
  deriving DecidableEq, Repr

/-- `httpclient_parser_init`. -/
def HttpClientParser.init : HttpClientParser where
  cs := httpclientParserStart
  bodyStart := 0
  contentLen := -1
  chunked := false
  chunksDone := false
  nread := 0
  mark := 0
  fieldStart := 0
  fieldLen := 0

structure HttpResponseParser where
  parser : HttpClientParser
  data : HttpResponse
  error : Nat
  deriving DecidableEq, Repr

def HttpResponseParser.new : HttpResponseParser := ⟨.init, .new, 0⟩

namespace HttpResponseParser

def setError (hp : HttpResponseParser) (error : Nat) : HttpResponseParser := { hp with error := error }

/-- `std::string(at, length)`. -/
def str (chars : List UInt8) (length : Nat) : Except ClientFault (List UInt8) :=
  if length ≤ HttpRequestParser.maxSize then .ok (chars.take length) else .error .lengthError

def onResponseReason (hp : HttpResponseParser) (chars : List UInt8) (length : Nat) :
    Except ClientFault HttpResponseParser := do
  return { hp with data := { hp.data with reason := ← str chars length } }

def onResponseStatus (hp : HttpResponseParser) (chars : List UInt8) : HttpResponseParser :=
  { hp with data := { hp.data with status := atoi chars } }

def onResponseVersion (hp : HttpResponseParser) (chars : List UInt8) (length : Nat) :
    HttpResponseParser :=
  if HttpRequestParser.sameChars chars "HTTP/1.1" length then
    { hp with data := { hp.data with version := 0x11 } }
  else if HttpRequestParser.sameChars chars "HTTP/1.0" length then
    { hp with data := { hp.data with version := 0x10 } }
  else hp.setError 1001

/-- An empty field name is not an error. -/
def onResponseHttpField (hp : HttpResponseParser) (field : List UInt8) (flen : Nat)
    (value : List UInt8) (vlen : Nat) : Except ClientFault HttpResponseParser := do
  if flen = 0 then return hp
  return { hp with data := { hp.data with headers := hp.data.headers.set (← str field flen) (← str value vlen) } }

/-- An action at offset `p` of `buffer`. `OnResponseChunk`, `OnResponseLastChunk` and
`OnResponseHeaderDone` do nothing. -/
def act (buffer : List UInt8) (p : Nat) (hp : HttpResponseParser) :
    ClientAct → Except ClientFault HttpResponseParser
  | .mark => .ok { hp with parser := { hp.parser with mark := p } }
  | .startField => .ok { hp with parser := { hp.parser with fieldStart := p } }
  | .writeField =>
    .ok { hp with parser := { hp.parser with
      fieldLen := HttpRequestParser.len hp.parser.fieldStart p } }
  | .writeContentLen =>
    .ok { hp with parser := { hp.parser with
      contentLen := asInt (strtol 10 (buffer.drop hp.parser.mark)) } }
  | .writeConnectionClose => .ok hp
  | .writeValue =>
    hp.onResponseHttpField (buffer.drop hp.parser.fieldStart) hp.parser.fieldLen
      (buffer.drop hp.parser.mark) (HttpRequestParser.len hp.parser.mark p)
  | .reasonPhrase =>
    hp.onResponseReason (buffer.drop hp.parser.mark) (HttpRequestParser.len hp.parser.mark p)
  | .statusCode => .ok (hp.onResponseStatus (buffer.drop hp.parser.mark))
  | .httpVersion =>
    .ok (hp.onResponseVersion (buffer.drop hp.parser.mark) (HttpRequestParser.len hp.parser.mark p))
  | .chunkSize =>
    let size := asInt (strtol 16 (buffer.drop hp.parser.mark))
    .ok { hp with parser := { hp.parser with
      chunked := true, contentLen := size, chunksDone := size ≤ 0 } }
  | .transChunked => .ok { hp with parser := { hp.parser with chunked := true } }
  | .done => .ok { hp with parser := { hp.parser with bodyStart := p + 1 } }

def setCs (hp : HttpResponseParser) (cs : Nat) : HttpResponseParser :=
  { hp with parser := { hp.parser with cs := cs } }

/-- The automaton from offset `p` on, where `bytes` is left of `buffer`. It stops on an
error and after `done`, which is the last action of its edge. -/
def exec (buffer : List UInt8) (p : Nat) (hp : HttpResponseParser) :
    List UInt8 → Except ClientFault (HttpResponseParser × Nat)
  | [] => .ok (hp, p)
  | b :: bytes =>
    match clientTransition hp.parser.cs b with
    -- no edge: the error state, and the byte is not taken
    | none => .ok (hp.setCs httpclientParserError, p)
    | some (target, acts) => do
      let hp ← acts.foldlM (act buffer p) hp
      if .done ∈ acts then return (hp.setCs target, p + 1)
      exec buffer (p + 1) (hp.setCs target) bytes

/-- The assignments at the head of `httpclient_parser_execute`. -/
def enter (hp : HttpResponseParser) : HttpResponseParser :=
  { hp with parser := { hp.parser with nread := 0, mark := 0, fieldLen := 0, fieldStart := 0 } }

/-- The assertions at its end. -/
def asserts (parser : HttpClientParser) (len : Nat) : Bool :=
  parser.nread ≤ len && parser.bodyStart ≤ len

/-- The checks behind them; when one fails, the result is -1. -/
def checks (parser : HttpClientParser) (len : Nat) : Bool :=
  parser.mark < len && parser.fieldLen ≤ len && parser.fieldStart < len

/-- `Execute`: what is parsed is moved out of the buffer. -/
def execute (hp : HttpResponseParser) (buffer : List UInt8) (chunck : Bool) :
    Except ClientFault (HttpResponseParser × List UInt8) := do
  let hp := if chunck then { hp with parser := .init } else hp
  let (hp, p) ← exec buffer 0 hp.enter buffer
  let hp := { hp with parser := { hp.parser with nread := p } }
  -- a failed assertion ends the program; a failed check is -1, with which `memmove` goes wrong
  if !asserts hp.parser buffer.length then throw .assertion
  if !checks hp.parser buffer.length then throw .wildMove
  return (hp, buffer.drop p)

def hasError (hp : HttpResponseParser) : Bool :=
  hp.error != 0 || hp.parser.cs == httpclientParserError

/-- `IsFinished`; it is called when there is no error. -/
def isFinished (hp : HttpResponseParser) : Bool :=
  hp.parser.cs == httpclientParserFirstFinal

/-- `GetContentLength`. -/
def getContentLength (lexicalCast : List UInt8 → Option UInt64) (hp : HttpResponseParser) : UInt64 :=
  hp.data.getHeaderAs lexicalCast (ascii "content-length") 0

end HttpResponseParser

end ServerFrame.Http
