import ServerFrame.Http.Response
import ServerFrame.Http.Session

/-!
# `HttpConnection::RecvResponse`

The header of the response, then its body, which comes in chunks or in one piece. What the
parser has not taken stays at the front of the buffer.
-/
namespace ServerFrame.Http

/-- A connection: its buffer, the cast of numbers, and `ZlibStream` for the content encodings
`gzip` and `deflate`. -/
structure ClientEnv extends Env where
  gunzip : List UInt8 → List UInt8
  inflate : List UInt8 → List UInt8

/-- `Read` behind what is in the buffer; `none` is an error or the end of the connection. -/
def refill (env : ClientEnv) (kept : List UInt8) (socket : Socket) : Option (List UInt8 × Socket) :=
  match read (env.bufferSize - kept.length) socket with
  | none => none
  | some (got, socket) => if got = [] then none else some (kept ++ got, socket)

/-- `Execute` and the tests behind it; `none` when the connection is closed. -/
def parse (env : ClientEnv) (hp : HttpResponseParser) (buffer : List UInt8) (chunck : Bool) :
    Except ClientFault (Option (HttpResponseParser × List UInt8)) := do
  let (hp, kept) ← hp.execute buffer chunck
  if hp.hasError then return none
  if kept.length = env.bufferSize then return none
  return some (hp, kept)

/-- The loop for the header. Every pass reads at least one byte. -/
def recvHeader (env : ClientEnv) : Nat → HttpResponseParser → List UInt8 → Socket →
    Except ClientFault (Option (HttpResponseParser × List UInt8 × Socket))
  | 0, _, _, _ => .ok none
  | fuel + 1, hp, kept, socket =>
    match refill env kept socket with
    | none => .ok none
    | some (buffer, socket) => do
      match ← parse env hp buffer false with
      | none => return none
      | some (hp, kept) =>
        if hp.isFinished then return some (hp, kept, socket)
        recvHeader env fuel hp kept socket

/-- The loop for the size line of a chunk; `start` is `begin`. -/
def recvSize (env : ClientEnv) : Nat → Bool → HttpResponseParser → List UInt8 → Socket →
    Except ClientFault (Option (HttpResponseParser × List UInt8 × Socket))
  | 0, _, _, _, _ => .ok none
  | fuel + 1, start, hp, kept, socket =>
    -- `if (!begin || len == 0)`
    match if !start || kept = [] then refill env kept socket else some (kept, socket) with
    | none => .ok none
    | some (buffer, socket) => do
      match ← parse env hp buffer true with
      | none => return none
      | some (hp, kept) =>
        if hp.isFinished then return some (hp, kept, socket)
        recvSize env fuel false hp kept socket

/-- The loop for what is left of a chunk. Every pass reads at least one byte. -/
def recvLeft (env : ClientEnv) : Nat → Nat → Socket → Option (List UInt8 × Socket)
  | _, 0, socket => some ([], socket)
  | 0, _ + 1, _ => none
  | fuel + 1, left + 1, socket =>
    match read (min (left + 1) env.bufferSize) socket with
    | none => none
    | some (got, socket) =>
      if got = [] then none
      else (recvLeft env fuel (left + 1 - got.length) socket).map fun (rest, socket) =>
        (got ++ rest, socket)

/-- The data of a chunk of length `size` and the line end behind it. A length below zero is
a large `size_t` to `append`, and so is one to `resize`. -/
def recvData (env : ClientEnv) (size : Int) (kept : List UInt8) (socket : Socket)
    (body : List UInt8) : Except ClientFault (Option (List UInt8 × List UInt8 × Socket)) :=
  if 0x80000000 ≤ size + 2 then .error .overflow
  -- `if (client_parser.content_len + 2 <= len)`
  else if size + 2 ≤ kept.length then
    if size < 0 then .error .lengthError
    else .ok (some (body ++ kept.take size.toNat, kept.drop (size.toNat + 2), socket))
  else
    let left := (size - kept.length + 2).toNat
    match recvLeft env left left socket with
    | none => .ok none
    | some (got, socket) =>
      let body := body ++ kept ++ got
      if body.length < 2 then .error .lengthError
      else .ok (some (body.take (body.length - 2), [], socket))

/-- The loop over the chunks. Every pass takes at least one byte. -/
def recvChunks (env : ClientEnv) : Nat → HttpResponseParser → List UInt8 → Socket → List UInt8 →
    Except ClientFault (Option (HttpResponseParser × List UInt8 × Socket))
  | 0, _, _, _, _ => .ok none
  | fuel + 1, hp, kept, socket, body => do
    match ← recvSize env (socket.flatten.length + 2) true hp kept socket with
    | none => return none
    | some (hp, kept, socket) =>
      match ← recvData env hp.parser.contentLen kept socket body with
      | none => return none
      | some (body, kept, socket) =>
        -- `while (!client_parser.chunks_done)`
        if hp.parser.chunksDone then return some (hp, body, socket)
        recvChunks env fuel hp kept socket body

/-- The response and its body, as long as the content encoding is not undone. -/
def recvContent (env : ClientEnv) (socket : Socket) :
    Except ClientFault (Option (HttpResponseParser × List UInt8 × Socket)) := do
  match ← recvHeader env (socket.flatten.length + 1) .new [] socket with
  | none => return none
  | some (hp, kept, socket) =>
    if hp.parser.chunked then
      recvChunks env (kept.length + socket.flatten.length + 1) hp kept socket []
    else
      -- without chunks the body has the announced length
      let length := toInt64 (hp.getContentLength env.lexicalCast)
      if 0 < length then
        return (recvBody length.toNat kept socket).map fun (body, socket) => (hp, body, socket)
      else return some (hp, [], socket)

/-- `RecvResponse`: `none` is the null pointer, after the connection was closed. -/
def recvResponse (env : ClientEnv) (socket : Socket) :
    Except ClientFault (Option (HttpResponse × Socket)) := do
  match ← recvContent env socket with
  | none => return none
  | some (hp, body, socket) =>
    -- an empty body is not set and not decoded
    if body = [] then return some (hp.data, socket)
    let encoding := hp.data.getHeader (ascii "content-encoding")
    let body :=
      if strcasecmp encoding (ascii "gzip") = .eq then env.gunzip body
      else if strcasecmp encoding (ascii "deflate") = .eq then env.inflate body
      else body
    return some ({ hp.data with body := body }, socket)

end ServerFrame.Http
