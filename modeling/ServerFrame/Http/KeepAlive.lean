import ServerFrame.Http.Boundaries

/-!
# Requests back to back

`HandleClient` calls `RecvRequest` again and again on one session. Each call has a buffer
of its own, so that what the read that completes a header brings behind the request is
lost for the next call.
-/
namespace ServerFrame.Http

open Segments

/-- Calls of `RecvRequest` one after the other: the requests, each with what is left on the
connection behind it. -/
def recvRequests (env : Env) : List Uninitialized → Socket →
    Except Fault (Option (List (HttpRequest × List UInt8)))
  | [], _ => .ok (some [])
  | memory :: memories, socket => do
    match ← recvRequest env memory socket with
    | none => return none
    | some (request, rest) =>
      return (← recvRequests env memories rest).map ((request, rest.flatten) :: ·)

/-- A request that is well formed, fits into the buffer and says the length of its body;
`request` is what comes of it when it is sent alone and in one piece, and `memory` what
the call finds that receives it. -/
structure Sent (env : Env) where
  memory : Uninitialized
  head : List UInt8
  body : List UInt8
  request : HttpRequest
  good : accepts memory.uriRelaxed head = true
  fits : head.length ≤ env.bufferSize
  whole : ∃ rest, recvRequest env memory [head ++ body] = .ok (some (request, rest))
  length : toInt64 (request.getHeaderAs env.lexicalCast (ascii "content-length") 0) = body.length

variable {env : Env}

def Sent.wire (s : Sent env) : List UInt8 := s.head ++ s.body

/-- The bytes of the requests, one after the other. -/
def wires (sent : List (Sent env)) : List UInt8 := (sent.map Sent.wire).flatten

/-- Every request, with the requests behind it left on the connection. -/
def inOrder : List (Sent env) → List (HttpRequest × List UInt8)
  | [] => []
  | s :: sent => (s.request, wires sent) :: inOrder sent

/-- No cut harms a token, and the read that completes a header ends inside of its request. -/
def conserves : List (Sent env) → Socket → Bool
  | [], _ => true
  | s :: sent, socket =>
    harmless s.head (cutBefore socket) (tokens s.memory.uriRelaxed s.head) &&
    restFits (s.wire.length - headRead env socket s.head) &&
    headRead env socket s.head ≤ s.wire.length &&
    conserves sent (dropFront s.wire.length socket)

theorem recvRequests_cons {memory : Uninitialized} {memories : List Uninitialized} {socket : Socket}
    {request : HttpRequest} {left : List UInt8} {later : List (HttpRequest × List UInt8)} :
    recvRequests env (memory :: memories) socket = .ok (some ((request, left) :: later)) ↔
      ∃ rest, recvRequest env memory socket = .ok (some (request, rest)) ∧ rest.flatten = left ∧
        recvRequests env memories rest = .ok (some later) := by
  rw [recvRequests]
  cases recvRequest env memory socket with
  | error fault => simp [bind, Except.bind]
  | ok result =>
    cases result with
    | none => simp [bind, Except.bind, pure, Except.pure]
    | some got =>
      obtain ⟨request', rest⟩ := got
      constructor
      · intro returns
        cases results : recvRequests env memories rest with
        | error fault =>
          simp only [bind, Except.bind, results] at returns
          cases returns
        | ok result =>
          simp only [bind, Except.bind, results] at returns
          cases result with
          | none => cases returns
          | some later' =>
            cases returns
            exact ⟨rest, rfl, rfl, results⟩
      · rintro ⟨rest', same, rfl, results⟩
        cases same
        simp only [bind, Except.bind, results]
        rfl

/-- One call receives its request and leaves the next ones alone. -/
theorem recvRequest_first_iff (s : Sent env) {after : List UInt8} {socket rest : Socket}
    (stream : socket.flatten = s.wire ++ after) (nonempty : ∀ t ∈ socket, t ≠ []) :
    recvRequest env s.memory socket = .ok (some (s.request, rest)) ∧ rest.flatten = after ↔
      (harmless s.head (cutBefore socket) (tokens s.memory.uriRelaxed s.head) = true ∧
        restFits (s.wire.length - headRead env socket s.head) = true ∧
        headRead env socket s.head ≤ s.wire.length) ∧
      rest = dropFront s.wire.length socket := by
  obtain ⟨_, whole⟩ := s.whole
  obtain ⟨data, parses, length, request_eq⟩ := parses_of_whole s.good s.fits whole s.length
  have wire_length : s.wire.length = s.head.length + s.body.length := List.length_append
  rw [Sent.wire, List.append_assoc] at stream
  have upper := (headRead_bounds stream (pos_of_accepts s.good) s.fits).2
  rw [request_eq, recvRequest_iff s.good s.fits stream nonempty parses length, wire_length]
  constructor
  · rintro ⟨⟨unharmed, taken, rfl⟩, left⟩
    have inside : headRead env socket s.head ≤ s.head.length + s.body.length := by
      by_contra beyond
      have lengths := congrArg List.length left
      rw [flatten_dropFront, stream, List.length_drop] at lengths
      simp only [List.length_append] at lengths
      omega
    exact ⟨⟨unharmed, taken, inside⟩, by rw [Nat.max_eq_right inside]⟩
  · rintro ⟨⟨unharmed, taken, inside⟩, rfl⟩
    refine ⟨⟨unharmed, taken, by rw [Nat.max_eq_right inside]⟩, ?_⟩
    rw [flatten_dropFront, stream, ← List.append_assoc, ← List.length_append, List.drop_left]

/-- The requests are received in order and nothing of the stream is lost if and only if no
cut harms a token and no read that completes a header goes past the end of its request. -/
theorem recvRequests_iff (sent : List (Sent env)) {socket : Socket}
    (stream : socket.flatten = wires sent) (nonempty : ∀ t ∈ socket, t ≠ []) :
    recvRequests env (sent.map (·.memory)) socket = .ok (some (inOrder sent)) ↔
      conserves sent socket = true := by
  induction sent generalizing socket with
  | nil => simp [recvRequests, inOrder, conserves]
  | cons s sent ih =>
    have stream' : socket.flatten = s.wire ++ wires sent := stream
    rw [List.map_cons, inOrder, recvRequests_cons, conserves]
    simp only [Bool.and_eq_true, decide_eq_true_eq]
    have rest_stream : (dropFront s.wire.length socket).flatten = wires sent := by
      rw [flatten_dropFront, stream', List.drop_left]
    have later := ih rest_stream fun t member => ne_nil_of_mem_dropFront nonempty member
    constructor
    · rintro ⟨rest, returns, left, received⟩
      obtain ⟨⟨unharmed, taken, inside⟩, rfl⟩ :=
        (recvRequest_first_iff s stream' nonempty).mp ⟨returns, left⟩
      exact ⟨⟨⟨unharmed, taken⟩, inside⟩, later.mp received⟩
    · rintro ⟨⟨⟨unharmed, taken⟩, inside⟩, conserved⟩
      obtain ⟨returns, left⟩ :=
        (recvRequest_first_iff s stream' nonempty).mpr ⟨⟨unharmed, taken, inside⟩, rfl⟩
      exact ⟨_, returns, left, later.mpr conserved⟩

/-- No read begins inside of a token of a request, and the read that completes a header ends inside of
its request. -/
def Undisturbed : List (Sent env) → Socket → Prop
  | [], _ => True
  | s :: sent, socket =>
    (∀ t ∈ tokens s.memory.uriRelaxed s.head, t.Spared s.head (cutBefore socket)) ∧
      restFits (s.wire.length - headRead env socket s.head) = true ∧
      headRead env socket s.head ≤ s.wire.length ∧
      Undisturbed sent (dropFront s.wire.length socket)

/-- No header has two lines of the same name. -/
def Distinct (sent : List (Sent env)) : Prop :=
  ∀ s ∈ sent, DistinctNames s.head (tokens s.memory.uriRelaxed s.head)

theorem Sent.parses (s : Sent env) : ∃ data, Parses s.memory.uriRelaxed s.head data := by
  obtain ⟨rest, whole⟩ := s.whole
  obtain ⟨data, parses, -, -⟩ := parses_of_whole s.good s.fits whole s.length
  exact ⟨data, parses⟩

theorem conserves_of_undisturbed {sent : List (Sent env)} {socket : Socket}
    (undisturbed : Undisturbed sent socket) : conserves sent socket = true := by
  induction sent generalizing socket with
  | nil => rfl
  | cons s sent ih =>
    obtain ⟨spared, taken, inside, later⟩ := undisturbed
    obtain ⟨data, parses⟩ := s.parses
    rw [conserves, harmless_of_spared (cuts_cutBefore socket) parses spared, taken, ih later,
      decide_eq_true inside]
    rfl

theorem undisturbed_of_conserves {sent : List (Sent env)} {socket : Socket} (distinct : Distinct sent)
    (conserved : conserves sent socket = true) : Undisturbed sent socket := by
  induction sent generalizing socket with
  | nil => trivial
  | cons s sent ih =>
    simp only [conserves, Bool.and_eq_true, decide_eq_true_eq] at conserved
    obtain ⟨⟨⟨unharmed, taken⟩, inside⟩, later⟩ := conserved
    obtain ⟨data, parses⟩ := s.parses
    have spared := spared_of_harmless (cuts_cutBefore socket) parses unharmed
    refine ⟨fun t member => spared t member fun _ => distinct s (List.mem_cons_self ..), taken, inside, ?_⟩
    exact ih (fun r member => distinct r (List.mem_cons_of_mem _ member)) later

/-- The requests are received in order and nothing of the stream is lost when no read begins inside
of a token and no read that completes a header goes past the end of its request; and only then,
when no header has two lines of the same name. -/
theorem recvRequests_undisturbed (sent : List (Sent env)) {socket : Socket}
    (stream : socket.flatten = wires sent) (nonempty : ∀ t ∈ socket, t ≠ []) :
    (Undisturbed sent socket →
      recvRequests env (sent.map (·.memory)) socket = .ok (some (inOrder sent))) ∧
    (Distinct sent → recvRequests env (sent.map (·.memory)) socket = .ok (some (inOrder sent)) →
      Undisturbed sent socket) := by
  have received := recvRequests_iff sent stream nonempty
  exact ⟨fun undisturbed => received.mpr (conserves_of_undisturbed undisturbed),
    fun distinct in_order => undisturbed_of_conserves distinct (received.mp in_order)⟩

def posting : Sent session where
  memory := ⟨false, 0⟩
  head := ascii "POST /a HTTP/1.1\r\nconnection: keep-alive\r\ncontent-length: 3\r\n\r\n"
  body := ascii "abc"
  request := { posted with
    close := false
    headers := (ascii "connection", ascii "keep-alive") :: posted.headers }
  good := by decide
  fits := by decide
  whole := ⟨[], by decide⟩
  length := by decide

def getting : Sent session where
  memory := ⟨true, 7⟩
  head := ascii "GET /b HTTP/1.1\r\nconnection: keep-alive\r\n\r\n"
  body := []
  request := { HttpRequest.new with
    path := ascii "/b"
    close := false
    headers := [(ascii "connection", ascii "keep-alive")] }
  good := by decide
  fits := by decide
  whole := ⟨[], by decide⟩
  length := by decide

/-- Two requests, of which the second begins in the segment that brings the end of the
body of the first: what is not asked for stays on the connection. -/
theorem recvRequests_undisturbed_body :
    recvRequests session [⟨false, 0⟩, ⟨true, 7⟩]
        [ascii "POST /a HTTP/1.1\r\nconnection: keep-alive\r\ncontent-length: 3\r\n\r\na",
          ascii "bcGET /b HTTP/1.1\r\nconnection: keep-alive\r\n\r\n"] =
      .ok (some (inOrder [posting, getting])) :=
  (recvRequests_undisturbed [posting, getting] (by decide) (by decide)).1
    ⟨by decide, by decide, by decide, by decide, by decide, by decide, trivial⟩

/-- Two requests in one segment: the second call finds the connection empty. -/
theorem second_request_lost :
    recvRequests session [⟨false, 0⟩, ⟨true, 7⟩] [wires [posting, getting]] = .ok none := by
  decide +kernel

end ServerFrame.Http
