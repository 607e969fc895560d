import ServerFrame.Http.Request
import ServerFrame.Http.States

/-!
# `HttpRequestParser`

`http_parser_execute` walks through one buffer and hands what it finds to the callbacks
of `HttpRequestParser`. Its marks are offsets in that buffer. A call begins by setting
`mark`, `field_start` and `field_len` to zero; `query_start` keeps the offset it had in
the buffer before.
-/
namespace ServerFrame.Http

/-- What ends a call other than by returning: `std::length_error` out of a callback, or a
failed assertion of `http_parser_execute`. -/
inductive Fault where
  | lengthError
  | assertion
  deriving DecidableEq, Repr

/-- `http_parser`. `content_len` is left out, which nothing reads. -/
structure HttpParser where
  cs : Nat
  bodyStart : Nat
  nread : Nat
  mark : Nat
  fieldStart : Nat
  fieldLen : Nat
  queryStart : Nat
  xmlSent : Bool
  jsonSent : Bool
  uriRelaxed : Bool
  deriving DecidableEq, Repr

structure HttpRequestParser where
  parser : HttpParser
  data : HttpRequest
  error : Nat
  deriving DecidableEq, Repr

/-- The fields of `http_parser` that `http_parser_init` leaves as they are. -/
structure Uninitialized where
  uriRelaxed : Bool
  queryStart : Nat

/-- `http_parser_init`. -/
def HttpParser.init (memory : Uninitialized) : HttpParser where
  cs := httpParserStart
  bodyStart := 0
  nread := 0
  mark := 0
  fieldStart := 0
  fieldLen := 0
  queryStart := memory.queryStart
  xmlSent := false
  jsonSent := false
  uriRelaxed := memory.uriRelaxed

def HttpRequestParser.new (memory : Uninitialized) : HttpRequestParser :=
  ⟨.init memory, .new, 0⟩

namespace HttpRequestParser

def setError (hp : HttpRequestParser) (error : Nat) : HttpRequestParser := { hp with error := error }

/-- `std::string::max_size`. -/
def maxSize : Nat := 2 ^ 63 - 1

/-- `std::string(at, length)`. -/
def str (chars : List UInt8) (length : Nat) : Except Fault (List UInt8) :=
  if length ≤ maxSize then .ok (chars.take length) else .error .lengthError

/-- `strncmp(at, s, length) == 0`. -/
def sameChars (chars : List UInt8) (s : String) (length : Nat) : Bool :=
  chars.take length == (ascii s).take length

def onRequestMethod (hp : HttpRequestParser) (chars : List UInt8) : HttpRequestParser :=
  match charsToHttpMethod chars with
  | none => hp.setError 1000
  | some m => { hp with data := { hp.data with method := m } }

def onRequestFragment (hp : HttpRequestParser) (chars : List UInt8) (length : Nat) :
    Except Fault HttpRequestParser := do
  return { hp with data := { hp.data with fragment := ← str chars length } }

def onRequestPath (hp : HttpRequestParser) (chars : List UInt8) (length : Nat) :
    Except Fault HttpRequestParser := do
  return { hp with data := { hp.data with path := ← str chars length } }

def onRequestQuery (hp : HttpRequestParser) (chars : List UInt8) (length : Nat) :
    Except Fault HttpRequestParser := do
  return { hp with data := { hp.data with query := ← str chars length } }

def onRequestVersion (hp : HttpRequestParser) (chars : List UInt8) (length : Nat) :
    HttpRequestParser :=
  if sameChars chars "HTTP/1.1" length then { hp with data := { hp.data with version := 0x11 } }
  else if sameChars chars "HTTP/1.0" length then
    { hp with data := { hp.data with version := 0x10 } }
  else hp.setError 1001

/-- An empty field name is not an error. -/
def onRequestHttpField (hp : HttpRequestParser) (field : List UInt8) (flen : Nat)
    (value : List UInt8) (vlen : Nat) : Except Fault HttpRequestParser := do
  if flen = 0 then return hp
  return { hp with data := hp.data.setHeader (← str field flen) (← str value vlen) }

/-- `LEN(AT, FPC)` in `size_t`, where a difference below zero wraps around. -/
def len (start p : Nat) : Nat := if start ≤ p then p - start else 2 ^ 64 - (start - p)

/-- An action at offset `p` of `buffer`. `OnRequestUri` and `OnRequestHeaderDone` do
nothing. -/
def act (buffer : List UInt8) (p : Nat) (hp : HttpRequestParser) :
    Act → Except Fault HttpRequestParser
  | .mark => .ok { hp with parser := { hp.parser with mark := p } }
  | .startField => .ok { hp with parser := { hp.parser with fieldStart := p } }
  | .writeField =>
    .ok { hp with parser := { hp.parser with fieldLen := len hp.parser.fieldStart p } }
  | .writeValue =>
    hp.onRequestHttpField (buffer.drop hp.parser.fieldStart) hp.parser.fieldLen
      (buffer.drop hp.parser.mark) (len hp.parser.mark p)
  | .requestMethod => .ok (hp.onRequestMethod (buffer.drop hp.parser.mark))
  | .requestUri => .ok hp
  | .fragment => hp.onRequestFragment (buffer.drop hp.parser.mark) (len hp.parser.mark p)
  | .startQuery => .ok { hp with parser := { hp.parser with queryStart := p } }
  | .queryString =>
    hp.onRequestQuery (buffer.drop hp.parser.queryStart) (len hp.parser.queryStart p)
  | .httpVersion => .ok (hp.onRequestVersion (buffer.drop hp.parser.mark) (len hp.parser.mark p))
  | .requestPath => hp.onRequestPath (buffer.drop hp.parser.mark) (len hp.parser.mark p)
  | .done =>
    let bodyStart := if hp.parser.xmlSent || hp.parser.jsonSent then hp.parser.mark else p + 1
    .ok { hp with parser := { hp.parser with bodyStart := bodyStart } }
  | .xml => .ok { hp with parser := { hp.parser with xmlSent := true } }
  | .json => .ok { hp with parser := { hp.parser with jsonSent := true } }

def setCs (hp : HttpRequestParser) (cs : Nat) : HttpRequestParser :=
  { hp with parser := { hp.parser with cs := cs } }

/-- The automaton from offset `p` on, where `bytes` is left of `buffer`. It stops on an
error and after `done`, which is the last action of its edge. -/
def exec (buffer : List UInt8) (p : Nat) (hp : HttpRequestParser) :
    List UInt8 → Except Fault (HttpRequestParser × Nat)
  | [] => .ok (hp, p)
  | b :: bytes =>
    match transition hp.parser.uriRelaxed hp.parser.cs b with
    | none => .ok (hp.setCs httpParserError, p)
    | some (target, acts) => do
      let hp ← acts.foldlM (act buffer p) hp
      if .done ∈ acts then return (hp.setCs target, p + 1)
      exec buffer (p + 1) (hp.setCs target) bytes

/-- The assignments at the head of `http_parser_execute`. -/
def enter (hp : HttpRequestParser) : HttpRequestParser :=
  { hp with parser := { hp.parser with nread := 0, mark := 0, fieldLen := 0, fieldStart := 0 } }

/-- The assertions at its end. -/
def asserts (parser : HttpParser) (len : Nat) : Bool :=
  parser.nread ≤ len && parser.bodyStart ≤ len && parser.mark < len && parser.fieldLen ≤ len &&
    parser.fieldStart < len

/-- `http_parser_execute` on a whole buffer; `Execute` is called with offset zero only and
not after an error. -/
def execute (hp : HttpRequestParser) (buffer : List UInt8) :
    Except Fault (HttpRequestParser × Nat) := do
  if buffer = [] then return (hp, 0)
  let (hp, p) ← exec buffer 0 hp.enter buffer
  let hp := { hp with parser := { hp.parser with nread := p } }
  if asserts hp.parser buffer.length then return (hp, p) else throw .assertion

def hasError (hp : HttpRequestParser) : Bool :=
  hp.error != 0 || hp.parser.cs == httpParserError

/-- `IsFinished`; it is called when there is no error. -/
def isFinished (hp : HttpRequestParser) : Bool :=
  httpParserFirstFinal ≤ hp.parser.cs

/-- `GetContentLength`. -/
def getContentLength (lexicalCast : List UInt8 → Option UInt64) (hp : HttpRequestParser) : UInt64 :=
  hp.data.getHeaderAs lexicalCast (ascii "content-length") 0

end HttpRequestParser

end ServerFrame.Http
