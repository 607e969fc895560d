import ServerFrame.Http.UriStates
import ServerFrame.Http.Response
import ServerFrame.Http.Dump

/-!
# `Uri`

`Uri::Create` walks through the text once, with one pointer `mark` for all parts, and takes the
actions of the state at the end. `std::string(mark, n)` throws when `mark` is null.
-/
namespace ServerFrame.Http

structure Uri where
  scheme : List UInt8
  userinfo : List UInt8
  host : List UInt8
  path : List UInt8
  query : List UInt8
  fragment : List UInt8
  port : Int
  deriving DecidableEq, Repr

def Uri.new : Uri := ⟨[], [], [], [], [], [], 0⟩

/-- What ends `Create` other than by returning: `std::logic_error`, or `atoi` of a null pointer. -/
inductive UriFault where
  | nullString
  | nullNumber
  deriving DecidableEq, Repr

/-- `mark`, an offset or null, and `uri`. -/
structure UriData where
  mark : Option Nat
  uri : Uri
  deriving DecidableEq, Repr

/-- `std::string(mark, p - mark)`. -/
def UriData.string (d : UriData) (text : List UInt8) (p : Nat) : Except UriFault (List UInt8) :=
  match d.mark with
  | none => .error .nullString
  | some start => .ok (Span.text ⟨start, p⟩ text)

/-- An action with the pointer at `p`. -/
def UriData.act (text : List UInt8) (p : Nat) (d : UriData) : UriAct → Except UriFault UriData
  | .mark => .ok { d with mark := some p }
  | .saveScheme => do
    let scheme ← d.string text p
    .ok ⟨none, { d.uri with scheme := scheme }⟩
  | .savePort =>
    match d.mark with
    | none => .error .nullNumber
    | some start =>
      .ok ⟨none, if p = start then d.uri else { d.uri with port := atoi (text.drop start) }⟩
  | .saveUserinfo => do
    if d.mark.isNone then .ok d
    else
      let userinfo ← d.string text p
      .ok ⟨none, { d.uri with userinfo := userinfo }⟩
  -- `mark` is kept
  | .saveHost => do
    if d.mark.isNone then .ok d
    else
      let host ← d.string text p
      .ok { d with uri := { d.uri with host := host } }
  | .savePath => do
    let path ← d.string text p
    .ok ⟨none, { d.uri with path := path }⟩
  | .saveQuery => do
    let query ← d.string text p
    .ok ⟨none, { d.uri with query := query }⟩
  | .saveFragment => do
    let fragment ← d.string text p
    .ok ⟨none, { d.uri with fragment := fragment }⟩

def UriData.actAll (text : List UInt8) (p : Nat) : UriData → List UriAct → Except UriFault UriData
  | d, [] => .ok d
  | d, a :: acts => do
    let d ← d.act text p a
    d.actAll text p acts

/-- The generated loop from state `cs` and position `p` on: the state it ends in. -/
def uriExecute (text : List UInt8) : Nat → Nat → UriData → List UInt8 →
    Except UriFault (Nat × UriData)
  | cs, p, d, [] => do
    let d ← d.actAll text p (uriEofActs cs)
    .ok (cs, d)
  | cs, p, d, b :: rest =>
    match uriTransition cs b with
    | none => .ok (uriParserError, d)
    | some (target, acts) => do
      let d ← d.actAll text p acts
      uriExecute text target (p + 1) d rest

/-- `Uri::Create`; `none` is `nullptr`. -/
def Uri.create (text : List UInt8) : Except UriFault (Option Uri) := do
  let (cs, d) ← uriExecute text uriParserStart 0 ⟨none, .new⟩ text
  if cs = uriParserError then .ok none
  else if uriParserFirstFinal ≤ cs then .ok (some d.uri)
  else .ok none

namespace Uri

def isDefaultPort (u : Uri) : Bool :=
  if u.port = 0 then true
  else if u.scheme = ascii "http" ∨ u.scheme = ascii "ws" then u.port == 80
  else if u.scheme = ascii "https" ∨ u.scheme = ascii "wss" then u.port == 443
  else false

def getPath (u : Uri) : List UInt8 := if u.path = [] then ascii "/" else u.path

def getPort (u : Uri) : Int :=
  if u.port ≠ 0 then u.port
  else if u.scheme = ascii "http" ∨ u.scheme = ascii "ws" then 80
  else if u.scheme = ascii "https" ∨ u.scheme = ascii "wss" then 443
  else u.port

/-- `std::to_string`. -/
def portText : Int → List UInt8
  | .ofNat n => printed n
  | .negSucc n => 45 :: printed (n + 1)

/-- `Dump` and `ToString`. -/
def toText (u : Uri) : List UInt8 :=
  u.scheme ++ ascii "://" ++ u.userinfo ++ (if u.userinfo = [] then [] else ascii "@") ++ u.host ++
    (if u.isDefaultPort then [] else ascii ":" ++ portText u.port) ++ u.getPath ++
    (if u.query = [] then [] else ascii "?") ++ u.query ++
    (if u.fragment = [] then [] else ascii "#") ++ u.fragment

end Uri

/-- An address with `sin_port` in network order. -/
structure IPAddress where
  sinAddr : List UInt8
  sinPort : UInt16
  deriving DecidableEq, Repr

/-- `ByteswapOnLittleEndian` on a little-endian machine. -/
def byteswap (v : UInt16) : UInt16 := v <<< 8 ||| v >>> 8

/-- `IPv4Address::SetPort`, and that of `IPv6Address`. -/
def IPAddress.setPort (a : IPAddress) (v : UInt16) : IPAddress := { a with sinPort := byteswap v }

def IPAddress.getPort (a : IPAddress) : UInt16 := byteswap a.sinPort

/-- `CreateAddress`; `lookup` is `LookupAnyIPAddress`. The `int32_t` becomes a `uint16_t`. -/
def Uri.createAddress (lookup : List UInt8 → Option IPAddress) (u : Uri) : Option IPAddress :=
  (lookup u.host).map fun addr => addr.setPort (UInt16.ofInt u.getPort)

end ServerFrame.Http
