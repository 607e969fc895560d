import ServerFrame.Http.ResponseRoundTrip
import ServerFrame.Lib.Run
import Mathlib.Data.List.Forall2

/-!
# A client and a server on one connection

`HttpServer::HandleClient` receives, answers and sends in a loop; the client sends the next
request when it has the response to the last one. What lies on the connection is a list of
segments each way. Between `Dump` and the reads of the other side the bytes may be cut
anywhere behind the header.
-/
namespace ServerFrame.Http

open Segments

/-! ## A request in segments -/

/-- The first read brings the whole header. -/
def HeadFirst (env : Env) (head : List UInt8) : Socket → Prop
  | [] => False
  | s :: _ => head.length ≤ min env.bufferSize s.length

section Request

variable {env : Env} {memory : Uninitialized} {r : HttpRequest} {s after : List UInt8} {socket : Socket}

/-- No read ends inside of a header that lies in the first segment. -/
theorem harmless_first_segment {uriRelaxed : Bool} {head : List UInt8} {data : HttpRequest}
    (parses : Parses uriRelaxed head data) (whole : head.length ≤ s.length) :
    harmless head (cutBefore (s :: socket)) (tokens uriRelaxed head) = true := by
  have one_piece : ∀ p, p < head.length → cutBefore (s :: socket) p = (fun _ => 0) p := by
    intro p inside
    rw [cutBefore, if_pos (by omega)]
  rw [← received_iff_harmless (cuts_cutBefore _) parses, deliverAll_congr token_ends one_piece]
  exact parses

/-- A request that is dumped is received as it was, whatever the segments of its body are. -/
theorem recvRequest_dump (plain : r.Plain memory.uriRelaxed) (no_hyphen : r.method ≠ .msearch)
    (stream : (s :: socket).flatten = r.dump false ++ after) (nonempty : ∀ t ∈ s :: socket, t ≠ [])
    (whole : r.head.length ≤ min env.bufferSize s.length)
    (inside : min env.bufferSize s.length ≤ (r.dump false).length) (small : r.body.length < 2 ^ 31)
    (cast : env.lexicalCast (printed r.body.length) = some r.body.length.toUInt64) :
    ∃ request, recvRequest env memory (s :: socket) = .ok (some (request,
        dropFront (r.dump false).length (s :: socket))) ∧ request.GivesBack r := by
  obtain ⟨good, parses⟩ := parses_head plain no_hyphen
  have pos := pos_of_accepts good
  rw [dump_eq plain] at stream inside ⊢
  rw [List.append_assoc] at stream
  rw [List.length_append] at inside ⊢
  have length : toInt64 ((r.started.setHeaders r.entries).getHeaderAs env.lexicalCast
      (ascii "content-length") 0) = r.body.length := by
    rw [contentLength_parsed plain cast, toInt64_toUInt64 small]
  have read_eq : headRead env (s :: socket) r.head = min env.bufferSize s.length := by
    rw [headRead, readEnd, if_pos (by omega)]
  have left_fits : restFits (r.head.length + r.body.length - headRead env (s :: socket) r.head) = true := by
    generalize left_eq : r.head.length + r.body.length - headRead env (s :: socket) r.head = left
    have same : toInt left = left := by
      unfold toInt
      exact Int.bmod_eq_of_le (by omega) (by omega)
    rw [restFits, same, Bool.or_eq_true, decide_eq_true_eq, decide_eq_true_eq]
    omega
  have returns := (recvRequest_iff good (by omega) stream nonempty parses length).mpr
    ⟨harmless_first_segment parses (by omega), left_fits, rfl⟩
  rw [read_eq, Nat.max_eq_right inside] at returns
  exact ⟨_, returns, givesBack_parsed plain⟩

end Request

/-! ## The two sides -/

/-- What `HttpServer` has, and what its servlets make of a request. -/
structure HttpServer where
  name : List UInt8
  isKeepalive : Bool
  rootPath : List UInt8
  fs : FileSystem
  handle : HttpRequest → HttpResponse → HttpResponse × List (List UInt8)

namespace HttpServer

/-- The response that the loop of `HandleClient` begins with. -/
def fresh (server : HttpServer) (req : HttpRequest) : HttpResponse :=
  HttpResponse.setHeader
    { HttpResponse.new with version := req.version, close := req.close || !server.isKeepalive }
    (ascii "Server") server.name

/-- `SendDocument`, or the servlets where there is no document; `none` when an exception leaves
the loop. -/
def respond (server : HttpServer) (req : HttpRequest) : Option (HttpResponse × List (List UInt8)) :=
  match sendDocument server.fs server.rootPath req (server.fresh req) [] with
  | .ok (true, rsp) _ => some (rsp, [])
  | .ok (false, rsp) _ => some (server.handle req rsp)
  | .error _ _ => none

/-- `!is_keepalive_ || req->IsClose()` does not hold. -/
def goesOn (server : HttpServer) (req : HttpRequest) : Bool := server.isKeepalive && !req.close

end HttpServer

/-- A request that the server has received, the response to it and its cookies. -/
abbrev Handled := HttpRequest × HttpResponse × List (List UInt8)

structure Exchange where
  toServer : Socket
  toClient : Socket
  /-- The loop of `HandleClient` goes on. -/
  serving : Bool
  sent : List HttpRequest
  handled : List Handled
  received : List HttpResponse

namespace Exchange

def start : Exchange := ⟨[], [], true, [], [], []⟩

inductive Action where
  /-- `SendRequest`, whose bytes arrive in these segments. -/
  | send (r : HttpRequest) (segments : Socket)
  /-- A pass through the loop of `HandleClient`. -/
  | serve (memory : Uninitialized) (segments : Socket)
  /-- `RecvResponse`. -/
  | receive

/-- The segments of `bytes`. -/
def cut (bytes : List UInt8) (segments : Socket) : Bool :=
  segments.flatten = bytes && segments.all (· ≠ [])

/-- `none` when the call waits, or does not come back. -/
def step (env : ClientEnv) (server : HttpServer) (s : Exchange) : Action → Option Exchange
  | .send r segments =>
    if s.received.length = s.sent.length ∧ cut (r.dump false) segments then
      some { s with toServer := s.toServer ++ segments, sent := s.sent ++ [r] }
    else none
  | .serve memory segments =>
    if s.serving = false ∨ s.toServer = [] then none
    else
      match recvRequest env.toEnv memory s.toServer with
      | .ok (some (req, rest)) =>
        match server.respond req with
        | some (rsp, cookies) =>
          if cut (rsp.dump false cookies) segments then
            some { s with
              toServer := rest
              toClient := s.toClient ++ segments
              serving := server.goesOn req
              handled := s.handled ++ [(req, rsp, cookies)] }
          else none
        | none => none
      -- the session is closed
      | .ok none => some { s with toServer := [], serving := false }
      | .error _ => none
  | .receive =>
    if s.toClient = [] then none
    else
      match recvResponse env s.toClient with
      | .ok (some (rsp, rest)) => some { s with toClient := rest, received := s.received ++ [rsp] }
      | .ok none => some { s with toClient := [] }
      | .error _ => none

/-- The client sends what `Dump` can write while the server listens; what the server answers can
be written too. The header of a message lies in its first segment. -/
def admitted (env : ClientEnv) (server : HttpServer) (s : Exchange) : Action → Prop
  | .send r segments =>
    s.serving = true ∧ (∀ uriRelaxed, r.Plain uriRelaxed) ∧ r.method ≠ .msearch ∧
      r.body.length < 2 ^ 31 ∧ HeadFirst env.toEnv r.head segments
  | .serve memory segments =>
    ∀ req rest rsp cookies, recvRequest env.toEnv memory s.toServer = .ok (some (req, rest)) →
      server.respond req = some (rsp, cookies) →
      rsp.Plain cookies ∧ rsp.body.length < 2 ^ 31 ∧ HeadFirst env.toEnv (rsp.head cookies) segments
  | .receive => True

/-! ## What holds in every state -/

/-- Where the last request is. -/
inductive Phase (env : ClientEnv) (s : Exchange) : Prop
  | idle (handled : s.sent.length = s.handled.length) (received : s.received.length = s.handled.length)
      (empty : s.toServer = [] ∧ s.toClient = [])
  | asked (front : List HttpRequest) (r : HttpRequest) (sent : s.sent = front ++ [r])
      (handled : front.length = s.handled.length) (received : s.received.length = s.handled.length)
      (empty : s.toClient = []) (waiting : s.toServer ≠ []) (serving : s.serving = true)
      (arrives : ∀ memory, ∃ req, recvRequest env.toEnv memory s.toServer = .ok (some (req, [])) ∧
        req.GivesBack r)
  | answered (front : List Handled) (h : Handled) (handled : s.handled = front ++ [h])
      (sent : s.sent.length = s.handled.length) (received : s.received.length = front.length)
      (empty : s.toServer = []) (waiting : s.toClient ≠ [])
      (arrives : ∃ rsp, recvResponse env s.toClient = .ok (some (rsp, [])) ∧
        h.2.1.GivesBack env h.2.2 rsp)

/-- The requests are handled as they were sent and in their order, the responses are received as
they were made and in their order, and the server goes on until a request says otherwise. -/
structure InOrder (env : ClientEnv) (server : HttpServer) (s : Exchange) : Prop where
  requests : List.Forall₂ (fun r h => h.1.GivesBack r) (s.sent.take s.handled.length) s.handled
  replies : ∀ h ∈ s.handled, server.respond h.1 = some h.2
  responses : List.Forall₂ (fun h rsp => h.2.1.GivesBack env h.2.2 rsp)
    (s.handled.take s.received.length) s.received
  serving : s.serving = s.handled.all fun h => server.goesOn h.1
  phase : Phase env s

section Steps

variable {env : ClientEnv} {server : HttpServer} {s s' : Exchange}

theorem inOrder_start : InOrder env server start :=
  ⟨.nil, fun _ member => absurd member List.not_mem_nil, .nil, rfl, .idle rfl rfl ⟨rfl, rfl⟩⟩

theorem nil_of_flatten {segments : Socket} (nonempty : ∀ t ∈ segments, t ≠ [])
    (empty : segments.flatten = []) : segments = [] := by
  cases segments with
  | nil => rfl
  | cons t segments =>
    rw [List.flatten_cons, List.append_eq_nil_iff] at empty
    exact absurd empty.1 (nonempty t (List.mem_cons_self ..))

theorem of_cut {bytes : List UInt8} {segments : Socket} (is : cut bytes segments = true) :
    segments.flatten = bytes ∧ ∀ t ∈ segments, t ≠ [] := by
  rw [cut, Bool.and_eq_true, decide_eq_true_eq, List.all_eq_true] at is
  exact ⟨is.1, fun t member => by simpa using is.2 t member⟩

theorem cons_of_headFirst {env : Env} {head : List UInt8} {segments : Socket}
    (first : HeadFirst env head segments) :
    ∃ t rest, segments = t :: rest ∧ head.length ≤ min env.bufferSize t.length := by
  cases segments with
  | nil => exact absurd first not_false
  | cons t rest => exact ⟨t, rest, rfl, first⟩

/-- A first segment is not longer than the whole. -/
theorem first_le {bytes t : List UInt8} {rest : Socket} (stream : (t :: rest).flatten = bytes) (n : Nat) :
    min n t.length ≤ bytes.length := by
  rw [← stream, List.flatten_cons, List.length_append]
  omega

theorem dropFront_all {bytes : List UInt8} {segments : Socket} (is : cut bytes segments = true) :
    dropFront bytes.length segments = [] := by
  obtain ⟨stream, nonempty⟩ := of_cut is
  refine nil_of_flatten (fun t member => ne_nil_of_mem_dropFront nonempty member) ?_
  rw [flatten_dropFront, stream, List.drop_length]

/-- The bytes of a request arrive as the request, and nothing is left of them. -/
theorem request_arrives {memory : Uninitialized} {r : HttpRequest} {segments : Socket}
    (cast : ∀ n < 2 ^ 31, env.lexicalCast (printed n) = some n.toUInt64)
    (plain : r.Plain memory.uriRelaxed) (no_hyphen : r.method ≠ .msearch) (small : r.body.length < 2 ^ 31)
    (first : HeadFirst env.toEnv r.head segments) (is : cut (r.dump false) segments = true) :
    ∃ req, recvRequest env.toEnv memory segments = .ok (some (req, [])) ∧ req.GivesBack r := by
  obtain ⟨t, rest, rfl, whole⟩ := cons_of_headFirst first
  obtain ⟨stream, nonempty⟩ := of_cut is
  obtain ⟨req, returns, back⟩ := recvRequest_dump plain no_hyphen
    (by rw [stream, List.append_nil]) nonempty whole (first_le stream _) small (cast _ small)
  exact ⟨req, by rw [returns, dropFront_all is], back⟩

/-- So do those of a response. -/
theorem response_arrives {rsp : HttpResponse} {cookies : List (List UInt8)} {segments : Socket}
    (cast : ∀ n < 2 ^ 31, env.lexicalCast (printed n) = some n.toUInt64) (plain : rsp.Plain cookies)
    (small : rsp.body.length < 2 ^ 31) (first : HeadFirst env.toEnv (rsp.head cookies) segments)
    (is : cut (rsp.dump false cookies) segments = true) :
    ∃ response, recvResponse env segments = .ok (some (response, [])) ∧
      rsp.GivesBack env cookies response := by
  obtain ⟨t, rest, rfl, whole⟩ := cons_of_headFirst first
  obtain ⟨stream, nonempty⟩ := of_cut is
  obtain ⟨response, returns, back⟩ := recvResponse_dump plain
    (by rw [stream, List.append_nil]) nonempty whole (first_le stream _) small (cast _ small)
  exact ⟨response, by rw [returns, dropFront_all is], back⟩

theorem inOrder_send {r : HttpRequest} {segments : Socket}
    (cast : ∀ n < 2 ^ 31, env.lexicalCast (printed n) = some n.toUInt64) (inOrder : InOrder env server s)
    (allowed : admitted env server s (.send r segments))
    (stepped : step env server s (.send r segments) = some s') : InOrder env server s' := by
  obtain ⟨serving, plain, no_hyphen, small, first⟩ := allowed
  simp only [step] at stepped
  split at stepped
  next here =>
    cases stepped
    obtain ⟨answered, is⟩ := here
    cases inOrder.phase with
    | idle handled received empty =>
      refine ⟨?_, inOrder.replies, inOrder.responses, inOrder.serving, ?_⟩
      · have requests := inOrder.requests
        rwa [List.take_append_of_le_length (Nat.le_of_eq handled.symm)]
      · refine .asked s.sent r rfl handled received empty.2 ?_ serving fun memory => ?_
        · obtain ⟨t, rest, rfl, -⟩ := cons_of_headFirst first
          simp
        · rw [empty.1, List.nil_append]
          exact request_arrives cast (plain memory.uriRelaxed) no_hyphen small first is
    | asked front last sent handled received =>
      rw [sent, List.length_append, List.length_singleton] at answered
      omega
    | answered front h handled sent received =>
      rw [sent, handled, List.length_append, List.length_singleton] at answered
      omega
  next => cases stepped

theorem inOrder_serve {memory : Uninitialized} {segments : Socket}
    (cast : ∀ n < 2 ^ 31, env.lexicalCast (printed n) = some n.toUInt64) (inOrder : InOrder env server s)
    (allowed : admitted env server s (.serve memory segments))
    (stepped : step env server s (.serve memory segments) = some s') : InOrder env server s' := by
  simp only [step] at stepped
  split at stepped
  next => cases stepped
  next here =>
    cases inOrder.phase with
    | idle handled received empty => exact absurd (.inr empty.1) here
    | answered front h handled sent received empty => exact absurd (.inr empty) here
    | asked front r sent handled received empty waiting serving arrives =>
      obtain ⟨req, returns, back⟩ := arrives memory
      rw [returns] at stepped
      dsimp only at stepped
      cases responds : server.respond req with
      | none =>
        rw [responds] at stepped
        cases stepped
      | some answer =>
        obtain ⟨rsp, cookies⟩ := answer
        obtain ⟨plain, small, first⟩ := allowed req [] rsp cookies returns responds
        rw [responds] at stepped
        dsimp only at stepped
        split at stepped
        next is =>
          cases stepped
          refine ⟨?_, fun h member => ?_, ?_, ?_, ?_⟩
          · have requests := inOrder.requests
            have whole : s.sent.length = (s.handled ++ [(req, rsp, cookies)]).length := by
              rw [sent, List.length_append, List.length_append, handled]
              rfl
            rw [sent, ← handled, List.take_left] at requests
            rw [← whole, List.take_length, sent]
            exact List.rel_append requests (.cons back .nil)
          · rcases List.mem_append.mp member with member | member
            · exact inOrder.replies h member
            · obtain rfl := List.mem_singleton.mp member
              exact responds
          · have responses := inOrder.responses
            rwa [List.take_append_of_le_length (Nat.le_of_eq received)]
          · have before := inOrder.serving
            rw [serving] at before
            rw [List.all_append, ← before, Bool.true_and, List.all_cons, List.all_nil, Bool.and_true]
          · refine .answered s.handled (req, rsp, cookies) rfl ?_ received rfl ?_ ?_
            · rw [sent, List.length_append, List.length_append, handled]
              rfl
            · obtain ⟨t, rest, rfl, -⟩ := cons_of_headFirst first
              simp
            · rw [empty, List.nil_append]
              exact response_arrives cast plain small first is
        next => cases stepped

theorem inOrder_receive (inOrder : InOrder env server s)
    (stepped : step env server s .receive = some s') : InOrder env server s' := by
  simp only [step] at stepped
  split at stepped
  next => cases stepped
  next here =>
    cases inOrder.phase with
    | idle handled received empty => exact absurd empty.2 here
    | asked front r sent handled received empty => exact absurd empty here
    | answered front h handled sent received empty waiting arrives =>
      obtain ⟨rsp, returns, back⟩ := arrives
      rw [returns] at stepped
      dsimp only at stepped
      cases stepped
      refine ⟨inOrder.requests, inOrder.replies, ?_, inOrder.serving, ?_⟩
      · have responses := inOrder.responses
        have whole : (s.received ++ [rsp]).length = s.handled.length := by
          rw [handled, List.length_append, List.length_append, received]
          rfl
        rw [handled, received, List.take_left] at responses
        rw [whole, List.take_length, handled]
        exact List.rel_append responses (.cons back .nil)
      · refine .idle sent ?_ ⟨empty, rfl⟩
        rw [handled, List.length_append, List.length_append, received]
        rfl

end Steps

/-- A server without documents, whose only servlet answers 404. -/
def bare : HttpServer where
  name := ascii "ygw"
  isKeepalive := true
  rootPath := []
  fs := ⟨fun _ => none, fun _ => none, fun _ => none⟩
  handle := fun _ rsp => ({ rsp with status := 404, body := ascii "gone" }, [])

def asking : HttpRequest := { HttpRequest.new with close := false }

/-- The request as it is received. -/
def asked : HttpRequest := { asking with headers := [asking.connectionHeader] }

def answer : HttpResponse := (bare.handle asked (bare.fresh asked)).1

def answerSegments : Socket :=
  [(answer.dump false []).take ((answer.head []).length + 1),
    (answer.dump false []).drop ((answer.head []).length + 1)]

end Exchange

end ServerFrame.Http
