import Mathlib.Algebra.Order.Ring.Int
import Mathlib.Data.FinEnum
import ServerFrame.Http.Response
import ServerFrame.Http.RoundTrip

/-!
# How messages are framed

`Dump` prints the header map and then its own `content-length`. Of the headers in the map it
leaves out `connection`, which it prints itself, but not `content-length`.
-/
namespace ServerFrame.Http

/-! ## The response -/

/-- `HTTP_STATUS_MAP`. -/
def httpStatusMap : List (Int × String) :=
  [(100, "Continue"), (101, "Switching Protocols"), (102, "Processing"), (200, "OK"),
    (201, "Created"), (202, "Accepted"), (203, "Non-Authoritative Information"),
    (204, "No Content"), (205, "Reset Content"), (206, "Partial Content"), (207, "Multi-Status"),
    (208, "Already Reported"), (226, "IM Used"), (300, "Multiple Choices"),
    (301, "Moved Permanently"), (302, "Found"), (303, "See Other"), (304, "Not Modified"),
    (305, "Use Proxy"), (307, "Temporary Redirect"), (308, "Permanent Redirect"),
    (400, "Bad Request"), (401, "Unauthorized"), (402, "Payment Required"), (403, "Forbidden"),
    (404, "Not Found"), (405, "Method Not Allowed"), (406, "Not Acceptable"),
    (407, "Proxy Authentication Required"), (408, "Request Timeout"), (409, "Conflict"),
    (410, "Gone"), (411, "Length Required"), (412, "Precondition Failed"),
    (413, "Payload Too Large"), (414, "URI Too Long"), (415, "Unsupported Media Type"),
    (416, "Range Not Satisfiable"), (417, "Expectation Failed"), (421, "Misdirected Request"),
    (422, "Unprocessable Entity"), (423, "Locked"), (424, "Failed Dependency"),
    (426, "Upgrade Required"), (428, "Precondition Required"), (429, "Too Many Requests"),
    (431, "Request Header Fields Too Large"), (451, "Unavailable For Legal Reasons"),
    (500, "Internal Server Error"), (501, "Not Implemented"), (502, "Bad Gateway"),
    (503, "Service Unavailable"), (504, "Gateway Timeout"), (505, "HTTP Version Not Supported"),
    (506, "Variant Also Negotiates"), (507, "Insufficient Storage"), (508, "Loop Detected"),
    (510, "Not Extended"), (511, "Network Authentication Required")]

def httpStatusToString (s : Int) : String :=
  ((httpStatusMap.find? fun entry => entry.1 = s).map (·.2)).getD "<unknown>"

/-- `Dump`; `websocket` and `cookies` are `websocket_` and `cookies_`. -/
def HttpResponse.dump (r : HttpResponse) (websocket : Bool) (cookies : List (List UInt8)) :
    List UInt8 :=
  ascii "HTTP/" ++ printed (r.version >>> 4).toNat ++ ascii "." ++
    printed (r.version &&& 0x0f).toNat ++ ascii " " ++ printed (r.status % 2 ^ 32).toNat ++
    ascii " " ++ (if r.reason = [] then ascii (httpStatusToString r.status) else r.reason) ++
    ascii "\r\n" ++
    r.headers.flatMap (fun (name, value) =>
      if !websocket && strcasecmp name (ascii "connection") == .eq then []
      else headerLine name value) ++
    cookies.flatMap (fun cookie => headerLine (ascii "Set-Cookie") cookie) ++
    (if websocket then []
      else headerLine (ascii "connection") (ascii (if r.close then "close" else "keep-alive"))) ++
    if r.body = [] then ascii "\r\n"
    else headerLine (ascii "content-length") (printed r.body.length) ++ ascii "\r\n" ++ r.body

/-! ## What a reader finds -/

/-- The lines of a text between one CR LF and the next; `line` is what has been read of the first. -/
def linesOf (line : List UInt8) : List UInt8 → List (List UInt8)
  | [] => [line]
  | [b] => [line ++ [b]]
  | b :: c :: text =>
    if b = 13 ∧ c = 10 then line :: linesOf [] text else linesOf (line ++ [b]) (c :: text)

def isLength (name : List UInt8) : Bool := strcasecmp name (ascii "content-length") == .eq

/-- A number in decimal digits. -/
def number (text : List UInt8) : Option Nat :=
  if text ≠ [] ∧ ∀ b ∈ text, 48 ≤ b ∧ b ≤ 57 then some (digitsValue 10 0 text) else none

def isBlank (b : UInt8) : Bool := b == 32 || b == 9

/-- A value without the blanks around it. -/
def strip (text : List UInt8) : List UInt8 :=
  ((text.dropWhile isBlank).reverse.dropWhile isBlank).reverse

/-- A line is named by what stands in front of its first colon. -/
def lineName (line : List UInt8) : List UInt8 := line.takeWhile (· != 58)

def lineValue (line : List UInt8) : List UInt8 := strip ((line.dropWhile (· != 58)).drop 1)

/-- The lengths that the lines announce. -/
def lengths (lines : List (List UInt8)) : List (List UInt8) :=
  (lines.filter fun line => isLength (lineName line)).map lineValue

/-- What `Dump` is called on: a request or a response with its `websocket_`, the latter also
with its `cookies_`. -/
inductive Message where
  | request (r : HttpRequest) (websocket : Bool)
  | response (r : HttpResponse) (websocket : Bool) (cookies : List (List UInt8))
  deriving DecidableEq, Repr

namespace Message

def dump : Message → List UInt8
  | request r websocket => r.dump websocket
  | response r websocket cookies => r.dump websocket cookies

def headers : Message → MapType
  | request r _ => r.headers
  | response r _ _ => r.headers

def body : Message → List UInt8
  | request r _ => r.body
  | response r _ _ => r.body

def cookies : Message → List (List UInt8)
  | request .. => []
  | response _ _ cookies => cookies

/-- The request line or the status line without its end. -/
def start : Message → List UInt8
  | request r _ =>
    ascii (httpMethodToString r.method) ++ ascii " " ++ r.path ++
      (if r.query = [] then [] else ascii "?") ++ r.query ++
      (if r.fragment = [] then [] else ascii "#") ++ r.fragment ++
      ascii " HTTP/" ++ printed (r.version >>> 4).toNat ++ ascii "." ++
      printed (r.version &&& 0x0f).toNat
  | response r _ _ =>
    ascii "HTTP/" ++ printed (r.version >>> 4).toNat ++ ascii "." ++
      printed (r.version &&& 0x0f).toNat ++ ascii " " ++ printed (r.status % 2 ^ 32).toNat ++
      ascii " " ++ (if r.reason = [] then ascii (httpStatusToString r.status) else r.reason)

def startLine (m : Message) : List UInt8 := m.start ++ ascii "\r\n"

end Message

/-- The headers of the map that are printed. -/
def printedHeaders (websocket : Bool) (m : MapType) : MapType :=
  m.filter fun e => websocket || strcasecmp e.1 (ascii "connection") != .eq

def connectionField (websocket close : Bool) : List (List UInt8 × List UInt8) :=
  if websocket then [] else [(ascii "connection", ascii (if close then "close" else "keep-alive"))]

def lengthField (body : List UInt8) : List (List UInt8 × List UInt8) :=
  if body = [] then [] else [(ascii "content-length", printed body.length)]

/-- The header lines in the order in which they are printed. -/
def Message.fields : Message → List (List UInt8 × List UInt8)
  | request r websocket =>
    connectionField websocket r.close ++ (printedHeaders websocket r.headers ++ lengthField r.body)
  | response r websocket cookies =>
    printedHeaders websocket r.headers ++ (cookies.map (ascii "Set-Cookie", ·) ++
      (connectionField websocket r.close ++ lengthField r.body))

theorem flatMap_printed (websocket : Bool) (m : MapType) :
    m.flatMap (fun (name, value) =>
      if !websocket && strcasecmp name (ascii "connection") == .eq then []
      else headerLine name value) = headerLines (printedHeaders websocket m) := by
  induction m with
  | nil => rfl
  | cons e m ih =>
    rw [List.flatMap_cons, ih, headerLines, headerLines, printedHeaders, printedHeaders,
      List.filter_cons]
    cases websocket with
    | true => rfl
    | false =>
      cases same : strcasecmp e.1 (ascii "connection") == .eq with
      | true => simp [same, bne]
      | false => simp [same, bne]

theorem headerLines_append (front back : List (List UInt8 × List UInt8)) :
    headerLines (front ++ back) = headerLines front ++ headerLines back := List.flatMap_append

theorem headerLines_connection (websocket close : Bool) :
    headerLines (connectionField websocket close) =
      if websocket then []
      else headerLine (ascii "connection") (ascii (if close then "close" else "keep-alive")) := by
  cases websocket with
  | true => rfl
  | false => exact List.append_nil _

theorem headerLines_length (body : List UInt8) :
    headerLines (lengthField body) ++ ascii "\r\n" ++ body =
      if body = [] then ascii "\r\n"
      else headerLine (ascii "content-length") (printed body.length) ++ ascii "\r\n" ++ body := by
  by_cases empty : body = []
  · rw [lengthField, if_pos empty, if_pos empty, empty, List.append_nil]
    rfl
  · rw [lengthField, if_neg empty, if_neg empty]
    simp [headerLines]

theorem headerLines_cookies (cookies : List (List UInt8)) :
    headerLines (cookies.map (ascii "Set-Cookie", ·)) =
      cookies.flatMap fun cookie => headerLine (ascii "Set-Cookie") cookie := List.flatMap_map ..

/-- The start line, the header lines, an empty line and the body. -/
theorem dump_lines (m : Message) :
    m.dump = m.startLine ++ (headerLines m.fields ++ (ascii "\r\n" ++ m.body)) := by
  cases m with
  | request r websocket =>
    rw [Message.dump, HttpRequest.dump, flatMap_printed, ← headerLines_length,
      ← headerLines_connection, Message.fields, headerLines_append, headerLines_append]
    simp only [Message.startLine, Message.start, Message.body, List.append_assoc]
  | response r websocket cookies =>
    rw [Message.dump, HttpResponse.dump, flatMap_printed, ← headerLines_length,
      ← headerLines_connection, ← headerLines_cookies, Message.fields, headerLines_append,
      headerLines_append, headerLines_append]
    simp only [Message.startLine, Message.start, Message.body, List.append_assoc]

/-! ## The block is read -/

/-- The texts of a block, each with its end. -/
def ended (texts : List (List UInt8)) : List UInt8 := texts.flatMap fun text => text ++ [13, 10]

theorem digitValue_decimal {b : UInt8} (first : 48 ≤ b.toNat) (last : b.toNat ≤ 57) :
    digitValue 10 b = some (b.toNat - 48) := by
  have digit : 48 ≤ b ∧ b ≤ 57 := ⟨UInt8.le_iff_toNat_le.mpr first, UInt8.le_iff_toNat_le.mpr last⟩
  rw [digitValue, if_pos digit, if_pos (by omega)]

/-- A number that is printed is read as it was. -/
theorem digitsValue_printed (n : Nat) : digitsValue 10 0 (printed n) = n := by
  induction n using Nat.strongRecOn with
  | ind n ih =>
    have digits : ∀ (m : Nat) (c : UInt8), c ∈ printed m → (digitValue 10 c).isSome := by
      intro m c member
      obtain ⟨first, last⟩ := digit_of_mem_printed member
      rw [digitValue_decimal first last]
      rfl
    have last_digit : ∀ d < 10, digitValue 10 (Nat.digitChar d).toNat.toUInt8 = some d := by decide
    by_cases small : n < 10
    · rw [printed, Nat.toDigits_of_lt_base small, List.map_singleton]
      simp only [digitsValue, last_digit n small]
      omega
    · have split : printed n = printed (n / 10) ++ [(Nat.digitChar (n % 10)).toNat.toUInt8] := by
        rw [printed, Nat.toDigits_of_base_le (by decide) (by omega), List.map_append]
        rfl
      rw [split, digitsValue_append (digits _), ih (n / 10) (by omega)]
      simp only [digitsValue, last_digit _ (Nat.mod_lt n (by decide))]
      omega

/-- What the names of `Dump` and of a map have in common. -/
structure Named (e : List UInt8 × List UInt8) : Prop where
  token : ∀ b ∈ e.1, b ∈ Rules.token

theorem Named.unbroken {e : List UInt8 × List UInt8} (named : Named e) : 13 ∉ e.1 ++ ascii ": " := by
  have no_return : 13 ∉ Rules.token := by decide
  have no_return' : 13 ∉ ascii ": " := by decide
  simp only [List.mem_append, not_or]
  exact ⟨fun inside => no_return (named.token 13 inside), no_return'⟩

/-- What is announced before the printer's own: by a line that a CR LF in the start line begins, by the
map, and by a line that one in a cookie begins. -/
def Message.announced (m : Message) : List (List UInt8) :=
  lengths (linesOf [] m.start).tail ++
    (((m.headers.filter fun e => isLength e.1).map fun e => strip e.2) ++
      lengths (m.cookies.flatMap fun cookie => (linesOf [] cookie).tail))

/-- The printer's own. -/
def Message.own (m : Message) : List (List UInt8) :=
  if m.body = [] then [] else [printed m.body.length]

section Fields

variable {m : Message} (names : ∀ e ∈ m.headers, ∀ b ∈ e.1, b ∈ Rules.token)
  (values : ∀ e ∈ m.headers, 13 ∉ e.2 ∧ 10 ∉ e.2)

include names values

end Fields

end ServerFrame.Http
