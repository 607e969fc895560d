import Mathlib.Algebra.Ring.Nat
import Mathlib.Data.List.Basic

/-!
# `HttpRequest`

The part of a request that the parser fills in. Parameters and cookies are made from it
later and on demand.
-/
namespace ServerFrame.Http

def ascii (s : String) : List UInt8 :=
  s.toList.map fun c => c.toNat.toUInt8

inductive HttpMethod where
  | delete | get | head | post | put
  | connect | options | trace
  | copy | lock | mkcol | move | propfind | proppatch | search | unlock | bind | rebind | unbind | acl
  | report | mkactivity | checkout | merge
  | msearch | notify | subscribe | unsubscribe
  | patch | purge
  | mkcalendar
  | link | unlink
  | source
  deriving DecidableEq, Repr

/-- `HTTP_METHOD_MAP`. -/
def httpMethodMap : List (HttpMethod × String) :=
  [(.delete, "DELETE"), (.get, "GET"), (.head, "HEAD"), (.post, "POST"), (.put, "PUT"),
    (.connect, "CONNECT"), (.options, "OPTIONS"), (.trace, "TRACE"),
    (.copy, "COPY"), (.lock, "LOCK"), (.mkcol, "MKCOL"), (.move, "MOVE"),
    (.propfind, "PROPFIND"), (.proppatch, "PROPPATCH"), (.search, "SEARCH"),
    (.unlock, "UNLOCK"), (.bind, "BIND"), (.rebind, "REBIND"), (.unbind, "UNBIND"),
    (.acl, "ACL"),
    (.report, "REPORT"), (.mkactivity, "MKACTIVITY"), (.checkout, "CHECKOUT"),
    (.merge, "MERGE"),
    (.msearch, "M-SEARCH"), (.notify, "NOTIFY"), (.subscribe, "SUBSCRIBE"),
    (.unsubscribe, "UNSUBSCRIBE"),
    (.patch, "PATCH"), (.purge, "PURGE"),
    (.mkcalendar, "MKCALENDAR"),
    (.link, "LINK"), (.unlink, "UNLINK"),
    (.source, "SOURCE")]

/-- `CharsToHttpMethod`: the first name that the characters at `m` begin with. The length
of the token is not looked at. -/
def charsToHttpMethod (m : List UInt8) : Option HttpMethod :=
  (httpMethodMap.find? fun entry => (ascii entry.2).isPrefixOf m).map (·.1)

def tolower (b : UInt8) : UInt8 := if 65 ≤ b ∧ b ≤ 90 then b + 32 else b

/-- `strcasecmp` on strings that end at their first zero byte or at their last byte. -/
def strcasecmp : List UInt8 → List UInt8 → Ordering
  | [], [] => .eq
  | [], b :: _ => if b = 0 then .eq else .lt
  | a :: _, [] => if a = 0 then .eq else .gt
  | a :: as, b :: bs =>
    match compare (tolower a) (tolower b) with
    | .eq => if a = 0 then .eq else strcasecmp as bs
    | order => order

/-- `HttpRequest::MapType`: the entries in the order of `CaseInsensitiveLess`. -/
abbrev MapType := List (List UInt8 × List UInt8)

/-- `m[key] = val`; a key that is there already keeps its spelling. -/
def MapType.set (key val : List UInt8) : MapType → MapType
  | [] => [(key, val)]
  | (k, v) :: m =>
    match strcasecmp key k with
    | .lt => (key, val) :: (k, v) :: m
    | .eq => (k, val) :: m
    | .gt => (k, v) :: MapType.set key val m

def MapType.find (m : MapType) (key : List UInt8) : Option (List UInt8) :=
  (List.find? (fun entry => strcasecmp entry.1 key == .eq) m).map (·.2)

structure HttpRequest where
  method : HttpMethod
  version : UInt8
  close : Bool
  path : List UInt8
  query : List UInt8
  fragment : List UInt8
  body : List UInt8
  headers : MapType
  deriving DecidableEq, Repr

/-- The constructor with its default arguments. -/
def HttpRequest.new : HttpRequest where
  method := .get
  version := 0x11
  close := true
  path := ascii "/"
  query := []
  fragment := []
  body := []
  headers := []

def HttpRequest.setHeader (r : HttpRequest) (key val : List UInt8) : HttpRequest :=
  { r with headers := r.headers.set key val }

/-- `GetHeader`; the default is the empty string. -/
def HttpRequest.getHeader (r : HttpRequest) (key : List UInt8) : List UInt8 :=
  (r.headers.find key).getD []

/-- `GetHeaderAs<uint64_t>`, where `lexicalCast` is `boost::lexical_cast`, which fails on
what is not a number. -/
def HttpRequest.getHeaderAs (lexicalCast : List UInt8 → Option UInt64) (r : HttpRequest)
    (key : List UInt8) (default : UInt64) : UInt64 :=
  match r.headers.find key with
  | none => default
  | some value => (lexicalCast value).getD default

/-- `Init`. -/
def HttpRequest.init (r : HttpRequest) : HttpRequest :=
  let conn := r.getHeader (ascii "connection")
  if conn = [] then r
  else { r with close := strcasecmp conn (ascii "keep-alive") != .eq }

end ServerFrame.Http
