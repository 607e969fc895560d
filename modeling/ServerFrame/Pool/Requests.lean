import ServerFrame.Pool.Accounting
import ServerFrame.Http.Exchange

/-!
# Requests over a pool of connections

Any number of threads call `HttpConnectionPool::DoRequest`. Each takes a connection from the pool
or makes one, sends its request, receives a response and lets the connection go, which puts it
back for the next thread. At the other end of each connection `HandleClient` loops. The pool and
the two ends of a connection are the models of their own modules; a connection that is not
connected any more is thrown out of the pool.
-/
namespace ServerFrame.Pool.Requests

open Http

/-- `HttpResult::Error`, as far as `DoRequest` of a pool answers with it. -/
inductive Error where
  | ok
  | sendCloseByPeer
  | sendSocketError
  | timeout
  | poolGetConnection
  deriving DecidableEq, Repr

structure HttpResult where
  result : Error
  response : Option HttpResponse

/-- Where a thread stands in `DoRequest`. -/
inductive Call where
  | out
  /-- In `GetConnection`. -/
  | getting (r : HttpRequest)
  | sending (r : HttpRequest) (conn : Nat)
  | receiving (r : HttpRequest) (conn : Nat)
  /-- It has its result and drops its pointer to the connection. -/
  | leaving (conn : Nat)
  /-- In `ReleasePtr`. -/
  | releasing

/-- The connection that a thread uses. -/
def Call.conn : Call → Option Nat
  | .sending _ conn => some conn
  | .receiving _ conn => some conn
  | .leaving conn => some conn
  | _ => none

/-- `connected` is what `IsConnected()` of each connection answers, and `results` what `DoRequest`
has returned for each request. -/
structure State where
  pool : HttpConnectionPool
  exchanges : Nat → Exchange
  connected : Nat → Bool
  calls : Nat → Call
  results : List (HttpRequest × HttpResult)

def start (maxAliveTime maxRequest : UInt64) : State where
  pool := .new maxAliveTime maxRequest
  exchanges := fun _ => .start
  connected := fun _ => false
  calls := fun _ => .out
  results := []

namespace State

def goto (s : State) (t : Nat) (call : Call) : State :=
  { s with calls := Function.update s.calls t call }

def exchange (s : State) (conn : Nat) (exchange : Exchange) : State :=
  { s with exchanges := Function.update s.exchanges conn exchange }

/-- `DoRequest` returns. -/
def answer (s : State) (r : HttpRequest) (error : Error) (response : Option HttpResponse) : State :=
  { s with results := s.results ++ [(r, ⟨error, response⟩)] }

/-- `Close()` of a connection. -/
def close (s : State) (conn : Nat) : State :=
  { s with connected := Function.update s.connected conn false }

/-- A step of the pool. -/
def lift (n : Nat) (s : State) (label : Label) : Option State :=
  (Pool.step n s.pool label).map fun pool => { s with pool := pool }

end State

inductive Action where
  | begin (t : Nat) (r : HttpRequest) (now : UInt64)
  | delete (t : Nat)
  | subtract (t : Nat)
  | connect (t : Nat) (ok : Bool)
  | count (t : Nat)
  /-- `SendRequest` is successful; these segments arrive. -/
  | send (t : Nat) (segments : Socket)
  /-- `SendRequest` is not; this much has been sent. -/
  | sendFails (t : Nat) (closed : Bool) (segments : Socket)
  /-- A pass of `HandleClient` at the other end of a connection. -/
  | serve (conn : Nat) (memory : Uninitialized) (segments : Socket)
  | receive (t : Nat)
  /-- A read of `RecvResponse` fails, or times out. -/
  | fails (t : Nat)
  | drop (t : Nat)
  | test (t : Nat) (now : UInt64)
  | discount (t : Nat)
  | putBack (t : Nat)

/-- One step of `n` threads and of the servers. -/
def step (n : Nat) (env : ClientEnv) (server : HttpServer) (s : State) : Action → Option State
  | .begin t r now =>
    match s.calls t with
    | .out => (s.lift n (.take t now (s.pool.conns.filter fun conn => !s.connected conn))).map
        fun s' => s'.goto t (.getting r)
    | _ => none
  | .delete t => s.lift n (.delete t)
  | .subtract t =>
    match s.calls t, s.pool.pc t with
    | .getting r, .collect _ _ (some conn) => (s.lift n (.subtract t)).map fun s' => s'.goto t (.sending r conn)
    | .getting _, _ => s.lift n (.subtract t)
    | _, _ => none
  | .connect t ok =>
    match s.calls t with
    | .getting r =>
      (s.lift n (.connect t ok)).map fun s' =>
        if ok then
          { s'.exchange s.pool.made .start with connected := Function.update s.connected s.pool.made true }
        else (s'.answer r .poolGetConnection none).goto t .out
    | _ => none
  | .count t =>
    match s.calls t, s.pool.pc t with
    | .getting r, .count conn => (s.lift n (.count t)).map fun s' => s'.goto t (.sending r conn)
    | _, _ => none
  | .send t segments =>
    match s.calls t with
    | .sending r conn =>
      if s.connected conn ∧ Exchange.cut (r.dump false) segments then
        let ex := s.exchanges conn
        some ((s.exchange conn { ex with
          toServer := ex.toServer ++ segments, sent := ex.sent ++ [r] }).goto t (.receiving r conn))
      else none
    | _ => none
  -- the connection is not closed, whatever has been sent
  | .sendFails t closed segments =>
    match s.calls t with
    | .sending r conn =>
      if segments.flatten <+: r.dump false then
        let ex := s.exchanges conn
        some (((s.exchange conn { ex with toServer := ex.toServer ++ segments }).answer r
          (if closed then .sendCloseByPeer else .sendSocketError) none).goto t (.leaving conn))
      else none
    | _ => none
  | .serve conn memory segments =>
    (Exchange.step env server (s.exchanges conn) (.serve memory segments)).map fun ex =>
      s.exchange conn ex
  | .receive t =>
    match s.calls t with
    | .receiving r conn =>
      let ex := s.exchanges conn
      if s.connected conn ∧ ex.toClient ≠ [] then
        match recvResponse env ex.toClient with
        | .ok (some (rsp, rest)) =>
          some (((s.exchange conn { ex with
            toClient := rest, received := ex.received ++ [rsp] }).answer r .ok (some rsp)).goto t
            (.leaving conn))
        | .ok none => some (((s.close conn).answer r .timeout none).goto t (.leaving conn))
        | .error _ => none
      else none
    | _ => none
  | .fails t =>
    match s.calls t with
    | .receiving r conn => some (((s.close conn).answer r .timeout none).goto t (.leaving conn))
    | _ => none
  | .drop t =>
    match s.calls t with
    | .leaving conn => (s.lift n (.drop t conn)).map fun s' => s'.goto t .releasing
    | _ => none
  | .test t now =>
    match s.calls t, s.pool.pc t with
    | .releasing, .release conn => s.lift n (.test t now (s.connected conn))
    | _, _ => none
  | .discount t =>
    match s.calls t with
    | .releasing => (s.lift n (.discount t)).map fun s' => s'.goto t .out
    | _ => none
  | .putBack t =>
    match s.calls t with
    | .releasing => (s.lift n (.putBack t)).map fun s' => s'.goto t .out
    | _ => none

/-- The requests can be written by `Dump`, and no `SendRequest` fails behind its first byte. The
header of a message lies in its first segment. -/
def admitted (env : ClientEnv) (server : HttpServer) (s : State) : Action → Prop
  | .begin _ r _ => (∀ uriRelaxed, r.Plain uriRelaxed) ∧ r.method ≠ .msearch ∧ r.body.length < 2 ^ 31
  | .send t segments => ∀ r conn, s.calls t = .sending r conn → HeadFirst env.toEnv r.head segments
  | .sendFails _ _ segments => segments = []
  | .serve conn memory segments =>
    Exchange.admitted env server (s.exchanges conn) (.serve memory segments)
  | _ => True

/-! ## The invariant -/

/-- `rsp` is what the client makes of the response to what the server makes of `r`. -/
def Answers (env : ClientEnv) (server : HttpServer) (r : HttpRequest) (rsp : HttpResponse) : Prop :=
  ∃ req rsp' cookies, req.GivesBack r ∧ server.respond req = some (rsp', cookies) ∧
    rsp'.GivesBack env cookies rsp

/-- The server has left its loop, and nothing comes any more. -/
def Over (ex : Exchange) : Prop := ex.serving = false ∧ ex.toClient = []

/-- Nothing is on the way. -/
def Ready (env : ClientEnv) (server : HttpServer) (ex : Exchange) : Prop :=
  Exchange.InOrder env server ex ∧ ex.sent.length = ex.received.length ∨ Over ex

/-- The response to `r` is what comes next. -/
def Asked (env : ClientEnv) (server : HttpServer) (r : HttpRequest) (ex : Exchange) : Prop :=
  Exchange.InOrder env server ex ∧
    (∃ front, ex.sent = front ++ [r] ∧ front.length = ex.received.length) ∨ Over ex

/-- What `Dump` can write. -/
def Sendable (r : HttpRequest) : Prop :=
  (∀ uriRelaxed, r.Plain uriRelaxed) ∧ r.method ≠ .msearch ∧ r.body.length < 2 ^ 31

/-- The request of a call that has not been sent. -/
def Call.request : Call → Option HttpRequest
  | .getting r => some r
  | .sending r _ => some r
  | _ => none

/-- Each connection in use has one user, a connected one that no thread waits on is ready, and
every response was made for its request. -/
structure Sound (n : Nat) (env : ClientEnv) (server : HttpServer) (s : State) : Prop where
  pool : Pool.Sound n s.pool
  held : ∀ t conn, (s.calls t).conn = some conn → conn ∈ s.pool.held
  apart : ∀ t u conn, (s.calls t).conn = some conn → (s.calls u).conn = some conn → t = u
  sendable : ∀ t r, (s.calls t).request = some r → Sendable r
  asked : ∀ t r conn, s.calls t = .receiving r conn → s.connected conn = true →
    Asked env server r (s.exchanges conn)
  ready : ∀ conn, s.connected conn = true → (∀ t r, s.calls t ≠ .receiving r conn) →
    Ready env server (s.exchanges conn)
  answers : ∀ r result, (r, result) ∈ s.results → ∀ rsp, result.response = some rsp →
    Answers env server r rsp

section Pool

variable {n t : Nat} {p p' : HttpConnectionPool} {conn : Nat}

/-- Connections in the hands of a thread are not held by a caller. -/
theorem not_held (sound : Pool.Sound n p) (owned : conn ∈ (p.pc t).owns) : conn ∉ p.held := by
  have busy : p.pc t ≠ .idle := by
    intro idle
    rw [idle] at owned
    exact absurd owned List.not_mem_nil
  have once : (p.conns ++ p.held ++ p.deleted ++
      (List.range n).flatMap fun t => (p.pc t).owns).Nodup :=
    sound.places.nodup_iff.mpr List.nodup_range
  have inside : conn ∈ (List.range n).flatMap fun t => (p.pc t).owns :=
    List.mem_flatMap.mpr ⟨t, List.mem_range.mpr (bound_of_busy sound busy), owned⟩
  intro held
  obtain ⟨-, -, across⟩ := List.nodup_append.mp once
  exact across conn (by simp [held]) conn inside rfl

theorem held_lt (sound : Pool.Sound n p) (held : conn ∈ p.held) : conn < p.made :=
  List.mem_range.mp (sound.places.mem_iff.mp (by simp [held]))

/-- The steps of a thread that leave the connections alone which callers hold. -/
def keepsHeld (p : HttpConnectionPool) : Label → Bool
  | .subtract t =>
    match p.pc t with
    | .collect _ _ (some _) => false
    | _ => true
  | .count _ => false
  | .drop _ _ => false
  | _ => true

theorem held_of_keepsHeld {label : Label} (keeps : keepsHeld p label = true)
    (stepped : Pool.step n p label = some p') : p'.held = p.held := by
  cases label with
  | take t now closed =>
    simp only [Pool.step] at stepped
    split at stepped <;> cases stepped
    rfl
  | delete t =>
    simp only [Pool.step] at stepped
    split at stepped <;> cases stepped
    rfl
  | subtract t =>
    simp only [Pool.step] at stepped
    simp only [keepsHeld] at keeps
    split at stepped
    next at_ =>
      rw [at_] at keeps
      cases keeps
    next =>
      cases stepped
      rfl
    next => cases stepped
  | connect t ok =>
    simp only [Pool.step] at stepped
    split at stepped
    · split at stepped <;> cases stepped <;> rfl
    · cases stepped
  | count t => cases keeps
  | drop t conn => cases keeps
  | test t now connected =>
    simp only [Pool.step] at stepped
    split at stepped
    · split at stepped <;> cases stepped <;> rfl
    · cases stepped
  | discount t =>
    simp only [Pool.step] at stepped
    split at stepped <;> cases stepped
    rfl
  | putBack t =>
    simp only [Pool.step] at stepped
    split at stepped <;> cases stepped
    rfl

end Pool

section Steps

variable {n t : Nat} {env : ClientEnv} {server : HttpServer} {s s' : State} {r : HttpRequest} {conn : Nat}

theorem lift_eq {label : Label} (stepped : s.lift n label = some s') :
    ∃ pool, Pool.step n s.pool label = some pool ∧ s' = { s with pool := pool } := by
  obtain ⟨pool, ran, rfl⟩ := Option.map_eq_some_iff.mp stepped
  exact ⟨pool, ran, rfl⟩

/-- What a step of thread `t`, which goes to `call`, has to keep. It touches one connection at most,
and nobody else uses that. -/
structure Moves (n : Nat) (env : ClientEnv) (server : HttpServer) (s : State) (t : Nat) (call : Call)
    (touched : Option Nat) (s' : State) : Prop where
  pool : Pool.Sound n s'.pool
  calls : s'.calls = Function.update s.calls t call
  held : ∀ conn, some conn ≠ touched → conn ∈ s.pool.held → conn ∈ s'.pool.held
  before : ∀ conn, (s.calls t).conn = some conn → touched = some conn
  after : ∀ conn, call.conn = some conn → touched = some conn ∧ conn ∈ s'.pool.held
  alone : ∀ conn, touched = some conn → ∀ u, u ≠ t → (s.calls u).conn ≠ some conn
  sendable : ∀ r, call.request = some r → Sendable r
  others : ∀ conn, touched ≠ some conn →
    s'.connected conn = s.connected conn ∧ s'.exchanges conn = s.exchanges conn
  asked : ∀ r conn, call = .receiving r conn → s'.connected conn = true →
    Asked env server r (s'.exchanges conn)
  ready : ∀ conn, touched = some conn → s'.connected conn = true → (∀ r, call ≠ .receiving r conn) →
    Ready env server (s'.exchanges conn)
  answers : ∀ r result, (r, result) ∈ s'.results → (r, result) ∈ s.results ∨
    ∀ rsp, result.response = some rsp → Answers env server r rsp

theorem receiving_conn {call : Call} (is : call = .receiving r conn) : call.conn = some conn := by
  rw [is]
  rfl

theorem Sound.move {call : Call} {touched : Option Nat} (sound : Sound n env server s)
    (moves : Moves n env server s t call touched s') : Sound n env server s' := by
  have mine : s'.calls t = call := by rw [moves.calls, Function.update_self]
  have theirs : ∀ u, u ≠ t → s'.calls u = s.calls u := fun u other => by
    rw [moves.calls, Function.update_of_ne other]
  have untouched : ∀ u conn, u ≠ t → (s.calls u).conn = some conn → touched ≠ some conn :=
    fun u conn other uses is => moves.alone conn is u other uses
  refine ⟨moves.pool, fun u conn uses => ?_, fun u v conn uses uses' => ?_, fun u r is => ?_,
    fun u r conn is connected => ?_, fun conn connected nobody => ?_, fun r result member => ?_⟩
  · by_cases same : u = t
    · subst same
      rw [mine] at uses
      exact (moves.after conn uses).2
    · rw [theirs u same] at uses
      exact moves.held conn (untouched u conn same uses).symm (sound.held u conn uses)
  · by_cases first : u = t
    · by_cases second : v = t
      · rw [first, second]
      · subst first
        rw [mine] at uses
        rw [theirs v second] at uses'
        exact absurd uses' (moves.alone conn (moves.after conn uses).1 v second)
    · rw [theirs u first] at uses
      by_cases second : v = t
      · subst second
        rw [mine] at uses'
        exact absurd uses (moves.alone conn (moves.after conn uses').1 u first)
      · rw [theirs v second] at uses'
        exact sound.apart u v conn uses uses'
  · by_cases same : u = t
    · subst same
      rw [mine] at is
      exact moves.sendable r is
    · rw [theirs u same] at is
      exact sound.sendable u r is
  · by_cases same : u = t
    · subst same
      rw [mine] at is
      exact moves.asked r conn is connected
    · rw [theirs u same] at is
      obtain ⟨connected_eq, exchange_eq⟩ := moves.others conn (untouched u conn same (receiving_conn is))
      rw [exchange_eq]
      exact sound.asked u r conn is (connected_eq ▸ connected)
  · by_cases same : touched = some conn
    · exact moves.ready conn same connected fun r is => nobody t r (mine.trans is)
    · obtain ⟨connected_eq, exchange_eq⟩ := moves.others conn same
      rw [exchange_eq]
      refine sound.ready conn (connected_eq ▸ connected) fun u r is => ?_
      by_cases first : u = t
      · subst first
        exact same (moves.before conn (receiving_conn is))
      · exact nobody u r ((theirs u first).trans is)
  · rcases moves.answers r result member with before | answers
    · exact sound.answers r result before
    · exact answers

/-- A step that only the pool sees. -/
theorem Sound.lift {label : Label} (sound : Sound n env server s)
    (keeps : keepsHeld s.pool label = true) (stepped : s.lift n label = some s') :
    Sound n env server s' := by
  obtain ⟨pool, ran, rfl⟩ := lift_eq stepped
  have held_eq := held_of_keepsHeld keeps ran
  exact { sound with
    pool := sound_step sound.pool ran
    held := fun u conn uses => by
      rw [held_eq]
      exact sound.held u conn uses }

theorem answered {results : List (HttpRequest × HttpResult)} {error : Error} {response : Option HttpResponse}
    (answers : ∀ rsp, response = some rsp → Answers env server r rsp) (r' : HttpRequest)
    (result : HttpResult) (member : (r', result) ∈ results ++ [(r, ⟨error, response⟩)]) :
    (r', result) ∈ results ∨ ∀ rsp, result.response = some rsp → Answers env server r' rsp := by
  rcases List.mem_append.mp member with before | last
  · exact .inl before
  · cases List.mem_singleton.mp last
    exact .inr answers

/-- One more result. -/
theorem Sound.answer {error : Error} {response : Option HttpResponse} (sound : Sound n env server s)
    (answers : ∀ rsp, response = some rsp → Answers env server r rsp) :
    Sound n env server (s.answer r error response) := by
  refine { sound with answers := fun r' result member => ?_ }
  rcases answered answers r' result member with before | is
  · exact sound.answers r' result before
  · exact is

/-- A thread without a connection goes where it has none. -/
theorem Sound.goto {call : Call} (sound : Sound n env server s) (none_before : (s.calls t).conn = none)
    (none_after : call.conn = none) (sendable : ∀ r, call.request = some r → Sendable r) :
    Sound n env server (s.goto t call) := by
  have moves : Moves n env server s t call none (s.goto t call) := by
    refine ⟨sound.pool, rfl, fun _ _ => id, ?_, ?_, nofun, sendable, fun _ _ => ⟨rfl, rfl⟩, ?_, nofun,
      fun _ _ => .inl⟩
    · intro conn is
      rw [none_before] at is
      cases is
    · intro conn is
      rw [none_after] at is
      cases is
    · intro r conn is
      rw [receiving_conn is] at none_after
      cases none_after
  exact sound.move moves

/-- A thread gets a connection that nobody has. -/
theorem Sound.taken {pool : HttpConnectionPool} (sound : Sound n env server s)
    (at_ : s.calls t = .getting r) (kept : Pool.Sound n pool)
    (held : pool.held = s.pool.held ++ [conn]) (unheld : conn ∉ s.pool.held) :
    Sound n env server ({ s with pool := pool }.goto t (.sending r conn)) := by
  have moves : Moves n env server s t (.sending r conn) (some conn)
      ({ s with pool := pool }.goto t (.sending r conn)) := by
    refine ⟨kept, rfl, fun c _ member => ?_, fun c is => ?_, fun c is => ?_, fun c is u _ uses => ?_,
      fun r' is => ?_, fun _ _ => ⟨rfl, rfl⟩, nofun, fun c is connected _ => ?_, fun _ _ => .inl⟩
    · have member' : c ∈ pool.held := by
        rw [held]
        exact List.mem_append_left _ member
      exact member'
    · rw [at_] at is
      cases is
    · cases is
      have member : conn ∈ pool.held := by
        rw [held]
        exact List.mem_append_right _ (List.mem_singleton_self conn)
      exact ⟨rfl, member⟩
    · cases is
      exact unheld (sound.held u conn uses)
    · cases is
      exact sound.sendable t r (by rw [at_]; rfl)
    · cases is
      exact sound.ready conn connected fun u r' is => unheld (sound.held u conn (receiving_conn is))
  exact sound.move moves

/-- A thread uses the connection that it has. -/
theorem Sound.use {call : Call} (sound : Sound n env server s) (before : (s.calls t).conn = some conn)
    (after : call.conn = some conn) (pool : s'.pool = s.pool)
    (calls : s'.calls = Function.update s.calls t call)
    (sendable : ∀ r, call.request = some r → Sendable r)
    (others : ∀ c, c ≠ conn → s'.connected c = s.connected c ∧ s'.exchanges c = s.exchanges c)
    (asked : ∀ r, call = .receiving r conn → s'.connected conn = true →
      Asked env server r (s'.exchanges conn))
    (ready : s'.connected conn = true → (∀ r, call ≠ .receiving r conn) →
      Ready env server (s'.exchanges conn))
    (answers : ∀ r result, (r, result) ∈ s'.results → (r, result) ∈ s.results ∨
      ∀ rsp, result.response = some rsp → Answers env server r rsp) : Sound n env server s' := by
  have mine : ∀ c, call.conn = some c → c = conn := fun c is => Option.some.inj (is.symm.trans after)
  have moves : Moves n env server s t call (some conn) s' := by
    refine ⟨pool ▸ sound.pool, calls, fun c _ => pool ▸ id, fun c is => is ▸ before.symm, fun c is => ?_,
      fun c is u other uses => ?_, sendable, fun c other => others c fun same => other (same ▸ rfl),
      fun r c is => ?_, fun c is => ?_, answers⟩
    · obtain rfl := mine c is
      exact ⟨rfl, pool ▸ sound.held t c before⟩
    · cases is
      exact other (sound.apart u t conn uses before)
    · obtain rfl := mine c (receiving_conn is)
      exact asked r is
    · cases is
      exact ready
  exact sound.move moves

/-- A connection whose user does not receive is ready. -/
theorem Sound.ready_of_use (sound : Sound n env server s) (uses : (s.calls t).conn = some conn)
    (elsewhere : ∀ r, s.calls t ≠ .receiving r conn) (connected : s.connected conn = true) :
    Ready env server (s.exchanges conn) := by
  refine sound.ready conn connected fun u r is => ?_
  obtain rfl := sound.apart u t conn (receiving_conn is) uses
  exact elsewhere r is

end Steps

/-! ## What a connection goes through -/

section Exchanges

variable {env : ClientEnv} {server : HttpServer} {ex ex' : Exchange} {r : HttpRequest}

/-- Where as many responses were received as requests were sent, nothing is on the way. -/
theorem toClient_of_ready (inOrder : Exchange.InOrder env server ex)
    (level : ex.sent.length = ex.received.length) : ex.toClient = [] := by
  cases inOrder.phase with
  | idle handled received empty => exact empty.2
  | asked front last sent handled received empty => exact empty
  | answered front h handled sent received =>
    rw [sent, handled, List.length_append, List.length_singleton] at level
    omega

theorem asked_of_send {segments : Socket}
    (cast : ∀ n < 2 ^ 31, env.lexicalCast (printed n) = some n.toUInt64)
    (ready : Ready env server ex) (sendable : Sendable r) (is : Exchange.cut (r.dump false) segments = true)
    (first : HeadFirst env.toEnv r.head segments) :
    Asked env server r { ex with toServer := ex.toServer ++ segments, sent := ex.sent ++ [r] } := by
  rcases ready with ⟨inOrder, level⟩ | ⟨left, nothing⟩
  · by_cases serving : ex.serving = true
    · refine .inl ⟨Exchange.inOrder_send cast inOrder
        ⟨serving, sendable.1, sendable.2.1, sendable.2.2, first⟩ ?_, ex.sent, rfl, level⟩
      rw [Exchange.step, if_pos ⟨level.symm, is⟩]
    · have nothing := toClient_of_ready inOrder level
      exact .inr ⟨eq_false_of_ne_true serving, nothing⟩
  · exact .inr ⟨left, nothing⟩

/-- What is received was made for the request, and then nothing is on the way. -/
theorem answers_of_receive {rsp : HttpResponse} {rest : Socket} (asked : Asked env server r ex)
    (waiting : ex.toClient ≠ []) (returns : recvResponse env ex.toClient = .ok (some (rsp, rest))) :
    Answers env server r rsp ∧
      Ready env server { ex with toClient := rest, received := ex.received ++ [rsp] } := by
  rcases asked with ⟨inOrder, front, sent, level⟩ | ⟨-, nothing⟩
  · have stepped : Exchange.step env server ex .receive =
        some { ex with toClient := rest, received := ex.received ++ [rsp] } := by
      rw [Exchange.step, if_neg waiting, returns]
    refine ⟨?_, .inl ⟨Exchange.inOrder_receive inOrder stepped, ?_⟩⟩
    · cases inOrder.phase with
      | idle handled received empty => exact absurd empty.2 waiting
      | asked front last sent handled received empty => exact absurd empty waiting
      | answered done h handled sent_length received empty _ arrives =>
        obtain ⟨rsp', returns', back⟩ := arrives
        rw [returns] at returns'
        cases returns'
        have requests := inOrder.requests
        rw [← sent_length, List.take_length, sent, handled] at requests
        have last := List.forall₂_drop_append _ _ _ requests
        rw [← received, ← level, List.drop_left] at last
        cases last with
        | cons asked _ =>
          exact ⟨h.1, h.2.1, h.2.2, asked, inOrder.replies h (by simp [handled]), back⟩
    · dsimp only
      rw [sent, List.length_append, List.length_append, level]
      rfl
  · exact absurd nothing waiting

theorem sent_of_serve {memory : Uninitialized} {segments : Socket}
    (stepped : Exchange.step env server ex (.serve memory segments) = some ex') :
    ex'.sent = ex.sent ∧ ex'.received = ex.received := by
  simp only [Exchange.step] at stepped
  split at stepped
  · cases stepped
  · split at stepped
    · split at stepped
      · split at stepped <;> cases stepped
        exact ⟨rfl, rfl⟩
      · cases stepped
    · cases stepped
      exact ⟨rfl, rfl⟩
    · cases stepped

/-- A server that has left its loop does not make a pass. -/
theorem not_serve {memory : Uninitialized} {segments : Socket} (left : ex.serving = false) :
    Exchange.step env server ex (.serve memory segments) = none := by
  rw [Exchange.step, if_pos (.inl left)]

theorem ready_of_serve {memory : Uninitialized} {segments : Socket}
    (cast : ∀ n < 2 ^ 31, env.lexicalCast (printed n) = some n.toUInt64)
    (allowed : Exchange.admitted env server ex (.serve memory segments))
    (stepped : Exchange.step env server ex (.serve memory segments) = some ex')
    (ready : Ready env server ex) : Ready env server ex' := by
  obtain ⟨sent, received⟩ := sent_of_serve stepped
  rcases ready with ⟨inOrder, level⟩ | ⟨left, -⟩
  · refine .inl ⟨Exchange.inOrder_serve cast inOrder allowed stepped, ?_⟩
    rw [sent, received, level]
  · rw [not_serve left] at stepped
    cases stepped

theorem asked_of_serve {memory : Uninitialized} {segments : Socket}
    (cast : ∀ n < 2 ^ 31, env.lexicalCast (printed n) = some n.toUInt64)
    (allowed : Exchange.admitted env server ex (.serve memory segments))
    (stepped : Exchange.step env server ex (.serve memory segments) = some ex')
    (asked : Asked env server r ex) : Asked env server r ex' := by
  obtain ⟨sent, received⟩ := sent_of_serve stepped
  rcases asked with ⟨inOrder, front, last, level⟩ | ⟨left, -⟩
  · refine .inl ⟨Exchange.inOrder_serve cast inOrder allowed stepped, front, ?_, ?_⟩
    · rw [sent, last]
    · rw [received, level]
  · rw [not_serve left] at stepped
    cases stepped

end Exchanges

/-! ## What every step keeps -/

section Sound

variable {n t : Nat} {env : ClientEnv} {server : HttpServer} {s s' : State} {r : HttpRequest} {conn : Nat}

theorem sound_start (maxAliveTime maxRequest : UInt64) :
    Sound n env server (start maxAliveTime maxRequest) :=
  ⟨sound_new n maxAliveTime maxRequest, nofun, nofun, nofun, nofun, nofun,
    fun _ _ member => absurd member List.not_mem_nil⟩

theorem sound_subtract (sound : Sound n env server s)
    (stepped : step n env server s (.subtract t) = some s') : Sound n env server s' := by
  simp only [step] at stepped
  split at stepped
  next r rest invalid conn at_ here =>
    obtain ⟨between, lifted, rfl⟩ := Option.map_eq_some_iff.mp stepped
    obtain ⟨pool, ran, rfl⟩ := lift_eq lifted
    have owned : conn ∈ (s.pool.pc t).owns := by simp [here, Pc.owns]
    refine sound.taken at_ (Pool.sound_step sound.pool ran) ?_ (not_held sound.pool owned)
    simp only [Pool.step, here] at ran
    split at ran
    next same =>
      cases same
      cases ran
      rfl
    next same => cases same
    next => cases ran
  next r _ at_ elsewhere =>
    refine sound.lift ?_ stepped
    simp only [keepsHeld]
  next => cases stepped

theorem sound_connect {ok : Bool} (sound : Sound n env server s)
    (stepped : step n env server s (.connect t ok) = some s') : Sound n env server s' := by
  simp only [step] at stepped
  split at stepped
  next r at_ =>
    obtain ⟨between, lifted, rfl⟩ := Option.map_eq_some_iff.mp stepped
    have kept := sound.lift rfl lifted
    obtain ⟨pool, ran, rfl⟩ := lift_eq lifted
    have has_none : (s.calls t).conn = none := by
      rw [at_]
      rfl
    split
    next =>
      -- nobody has the number of the new connection
      have unused : ∀ u, (s.calls u).conn ≠ some s.pool.made := fun u uses =>
        Nat.lt_irrefl _ (held_lt sound.pool (sound.held u s.pool.made uses))
      refine { kept with asked := ?_, ready := ?_ }
      · intro u r' conn is connected
        have other : conn ≠ s.pool.made := fun same => unused u (same ▸ receiving_conn is)
        have before := kept.asked u r' conn is
        simp only [State.exchange, Function.update_of_ne other] at connected before ⊢
        exact before connected
      · intro conn connected nobody
        by_cases same : conn = s.pool.made
        · rw [same]
          simp only [State.exchange, Function.update_self]
          exact .inl ⟨Exchange.inOrder_start, rfl⟩
        · have before := kept.ready conn
          simp only [State.exchange, Function.update_of_ne same] at connected before ⊢
          exact before connected nobody
    next => exact (kept.answer fun _ is => by cases is).goto has_none rfl nofun
  next => cases stepped

theorem sound_count (sound : Sound n env server s)
    (stepped : step n env server s (.count t) = some s') : Sound n env server s' := by
  simp only [step] at stepped
  split at stepped
  next r conn at_ here =>
    obtain ⟨between, lifted, rfl⟩ := Option.map_eq_some_iff.mp stepped
    obtain ⟨pool, ran, rfl⟩ := lift_eq lifted
    have owned : conn ∈ (s.pool.pc t).owns := by simp [here, Pc.owns]
    refine sound.taken at_ (Pool.sound_step sound.pool ran) ?_ (not_held sound.pool owned)
    simp only [Pool.step, here] at ran
    cases ran
    rfl
  next => cases stepped

theorem sound_send {segments : Socket}
    (cast : ∀ n < 2 ^ 31, env.lexicalCast (printed n) = some n.toUInt64) (sound : Sound n env server s)
    (allowed : admitted env server s (.send t segments))
    (stepped : step n env server s (.send t segments) = some s') : Sound n env server s' := by
  simp only [step] at stepped
  split at stepped
  next r conn at_ =>
    split at stepped
    next can =>
      cases stepped
      have uses : (s.calls t).conn = some conn := by
        rw [at_]
        rfl
      have ready := sound.ready_of_use uses (fun r' is => by cases at_.symm.trans is) can.1
      have sendable := sound.sendable t r (by rw [at_]; rfl)
      refine sound.use uses rfl rfl rfl nofun
        (fun c other => ⟨rfl, Function.update_of_ne other _ _⟩) (fun r' is _ => ?_)
        (fun _ elsewhere => absurd rfl (elsewhere r)) (fun _ _ => .inl)
      cases is
      simp only [State.goto, State.exchange, Function.update_self]
      exact asked_of_send cast ready sendable can.2 (allowed r conn at_)
    next => cases stepped
  next => cases stepped

theorem sound_sendFails {closed : Bool} (sound : Sound n env server s)
    (stepped : step n env server s (.sendFails t closed []) = some s') : Sound n env server s' := by
  simp only [step] at stepped
  split at stepped
  next r conn at_ =>
    split at stepped
    next =>
      cases stepped
      have uses : (s.calls t).conn = some conn := by
        rw [at_]
        rfl
      refine sound.use uses rfl rfl rfl nofun
        (fun c other => ⟨rfl, Function.update_of_ne other _ _⟩) nofun (fun connected _ => ?_)
        (answered nofun)
      have ready := sound.ready_of_use uses (fun r' is => by cases at_.symm.trans is) connected
      simp only [State.goto, State.answer, State.exchange, Function.update_self, List.append_nil]
      exact ready
    next => cases stepped
  next => cases stepped

/-- `RecvResponse` has closed the connection. -/
theorem sound_close {error : Error} (sound : Sound n env server s) (at_ : s.calls t = .receiving r conn) :
    Sound n env server (((s.close conn).answer r error none).goto t (.leaving conn)) := by
  have closed : ∀ {P : Prop}, Function.update s.connected conn false conn = true → P := fun is => by
    rw [Function.update_self] at is
    cases is
  exact sound.use (receiving_conn at_) rfl rfl rfl nofun
    (fun c other => ⟨Function.update_of_ne other _ _, rfl⟩) nofun (fun connected _ => closed connected)
    (answered nofun)

theorem sound_receive (sound : Sound n env server s)
    (stepped : step n env server s (.receive t) = some s') : Sound n env server s' := by
  simp only [step] at stepped
  split at stepped
  next r conn at_ =>
    split at stepped
    next can =>
      split at stepped
      next rsp rest returns =>
        cases stepped
        obtain ⟨answers, ready⟩ := answers_of_receive (sound.asked t r conn at_ can.1) can.2 returns
        refine sound.use (receiving_conn at_) rfl rfl rfl nofun
          (fun c other => ⟨rfl, Function.update_of_ne other _ _⟩) nofun (fun _ _ => ?_)
          (answered fun rsp' is => Option.some.inj is ▸ answers)
        simp only [State.goto, State.answer, State.exchange, Function.update_self]
        exact ready
      next =>
        cases stepped
        exact sound_close sound at_
      next => cases stepped
    next => cases stepped
  next => cases stepped

theorem sound_drop (sound : Sound n env server s)
    (stepped : step n env server s (.drop t) = some s') : Sound n env server s' := by
  simp only [step] at stepped
  split at stepped
  next conn at_ =>
    obtain ⟨between, lifted, rfl⟩ := Option.map_eq_some_iff.mp stepped
    obtain ⟨pool, ran, rfl⟩ := lift_eq lifted
    have held : pool.held = s.pool.held.erase conn := by
      simp only [Pool.step] at ran
      split at ran <;> cases ran
      rfl
    have uses : (s.calls t).conn = some conn := by
      rw [at_]
      rfl
    have moves : Moves n env server s t .releasing (some conn)
        ({ s with pool := pool }.goto t .releasing) := by
      refine ⟨Pool.sound_step sound.pool ran, rfl, fun c other member => ?_, fun c is => is ▸ uses.symm,
        fun c is => ?_, fun c is u other uses' => ?_, fun r is => ?_, fun _ _ => ⟨rfl, rfl⟩, fun r c is => ?_,
        fun c is connected _ => ?_, fun _ _ => .inl⟩
      · have kept : c ∈ pool.held := by
          rw [held]
          exact (List.mem_erase_of_ne fun same => other (congrArg some same)).mpr member
        exact kept
      · cases is
      · cases is
        exact other (sound.apart u t conn uses' uses)
      · cases is
      · cases is
      · cases is
        exact sound.ready_of_use uses (fun r is => by cases at_.symm.trans is) connected
    exact sound.move moves
  next => cases stepped

theorem sound_serve {memory : Uninitialized} {segments : Socket}
    (cast : ∀ n < 2 ^ 31, env.lexicalCast (printed n) = some n.toUInt64) (sound : Sound n env server s)
    (allowed : Exchange.admitted env server (s.exchanges conn) (.serve memory segments))
    (stepped : step n env server s (.serve conn memory segments) = some s') : Sound n env server s' := by
  obtain ⟨ex, served, rfl⟩ := Option.map_eq_some_iff.mp stepped
  refine { sound with asked := fun u r c is connected => ?_, ready := fun c connected nobody => ?_ }
  · have before := sound.asked u r c is connected
    by_cases same : c = conn
    · subst same
      simp only [State.exchange, Function.update_self]
      exact asked_of_serve cast allowed served before
    · simp only [State.exchange, Function.update_of_ne same]
      exact before
  · have before := sound.ready c connected nobody
    by_cases same : c = conn
    · subst same
      simp only [State.exchange, Function.update_self]
      exact ready_of_serve cast allowed served before
    · simp only [State.exchange, Function.update_of_ne same]
      exact before

/-- A step in `ReleasePtr` that only the pool sees, and what follows it. -/
theorem sound_releasing {label : Label} {call : Call} (sound : Sound n env server s)
    (keeps : keepsHeld s.pool label = true) (at_ : s.calls t = .releasing) (none_after : call.conn = none)
    (nothing : call.request = none)
    (stepped : (s.lift n label).map (fun s' => s'.goto t call) = some s') : Sound n env server s' := by
  obtain ⟨between, lifted, rfl⟩ := Option.map_eq_some_iff.mp stepped
  have kept := sound.lift keeps lifted
  obtain ⟨pool, -, rfl⟩ := lift_eq lifted
  refine kept.goto ?_ none_after fun r is => ?_
  · rw [show _ = Call.releasing from at_]
    rfl
  · rw [nothing] at is
    cases is

/-- One case for each step. -/
theorem sound_step (cast : ∀ n < 2 ^ 31, env.lexicalCast (printed n) = some n.toUInt64)
    {action : Action} (sound : Sound n env server s) (allowed : admitted env server s action)
    (stepped : step n env server s action = some s') : Sound n env server s' := by
  cases action with
  | begin t r now =>
    simp only [step] at stepped
    split at stepped
    next at_ =>
      obtain ⟨between, lifted, rfl⟩ := Option.map_eq_some_iff.mp stepped
      have kept := sound.lift rfl lifted
      obtain ⟨pool, -, rfl⟩ := lift_eq lifted
      have has_none : (s.calls t).conn = none := by
        rw [at_]
        rfl
      exact kept.goto has_none rfl fun r' is => Option.some.inj is ▸ allowed
    next => cases stepped
  | delete t => exact sound.lift rfl stepped
  | subtract t => exact sound_subtract sound stepped
  | connect t ok => exact sound_connect sound stepped
  | count t => exact sound_count sound stepped
  | send t segments => exact sound_send cast sound allowed stepped
  | sendFails t closed segments =>
    obtain rfl : segments = [] := allowed
    exact sound_sendFails sound stepped
  | serve conn memory segments => exact sound_serve cast sound allowed stepped
  | receive t => exact sound_receive sound stepped
  | fails t =>
    simp only [step] at stepped
    split at stepped
    next r conn at_ =>
      cases stepped
      exact sound_close sound at_
    next => cases stepped
  | drop t => exact sound_drop sound stepped
  | test t now =>
    simp only [step] at stepped
    split at stepped
    next => exact sound.lift rfl stepped
    next => cases stepped
  | discount t =>
    simp only [step] at stepped
    split at stepped
    next at_ => exact sound_releasing sound rfl at_ rfl rfl stepped
    next => cases stepped
  | putBack t =>
    simp only [step] at stepped
    split at stepped
    next at_ => exact sound_releasing sound rfl at_ rfl rfl stepped
    next => cases stepped

end Sound

/-- Calls that ask for one thing, and passes of the servers that find it. -/
def usual (s : State) : Action → Prop
  | .begin _ r _ => r = Exchange.asking
  | .send t segments => (s.calls t).request = some Exchange.asking ∧ segments = [Exchange.asking.dump false]
  | .sendFails _ _ segments => segments = []
  | .serve conn ⟨uriRelaxed, queryStart⟩ segments => uriRelaxed = false ∧ queryStart = 0 ∧
    (s.exchanges conn).toServer = [Exchange.asking.dump false] ∧ segments = Exchange.answerSegments
  | _ => True

instance decidableUsual (s : State) (action : Action) : Decidable (usual s action) :=
  match action with
  | .begin _ r _ => inferInstanceAs (Decidable (r = _))
  | .send _ _ => inferInstanceAs (Decidable (_ ∧ _))
  | .sendFails _ _ segments => inferInstanceAs (Decidable (segments = []))
  | .serve _ _ _ => inferInstanceAs (Decidable (_ ∧ _))
  | .delete _ => .isTrue trivial
  | .subtract _ => .isTrue trivial
  | .connect _ _ => .isTrue trivial
  | .count _ => .isTrue trivial
  | .receive _ => .isTrue trivial
  | .fails _ => .isTrue trivial
  | .drop _ => .isTrue trivial
  | .test _ _ => .isTrue trivial
  | .discount _ => .isTrue trivial
  | .putBack _ => .isTrue trivial

/-- A call by each of two threads over one connection. -/
def twoCalls : List Action :=
  [.begin 0 Exchange.asking 5, .subtract 0, .connect 0 true, .count 0, .send 0 [Exchange.asking.dump false],
    .serve 0 ⟨false, 0⟩ Exchange.answerSegments, .receive 0, .drop 0, .test 0 6, .putBack 0,
    .begin 1 Exchange.asking 7, .subtract 1, .send 1 [Exchange.asking.dump false],
    .serve 0 ⟨false, 0⟩ Exchange.answerSegments, .receive 1]

/-- A server that answers with the path it was asked for. -/
def echo : HttpServer :=
  { Exchange.bare with handle := fun req rsp => ({ rsp with status := 200, body := req.path }, []) }

def askingFor (path : List UInt8) : HttpRequest := { Exchange.asking with path := path }

/-- What of a request is sent when its last 14 bytes are not. -/
def unfinished (r : HttpRequest) : List UInt8 := (r.dump false).take (r.head.length - 14)

def echoed (path : List UInt8) : List UInt8 :=
  (HttpResponse.dump { echo.fresh Exchange.asked with status := 200, body := path } false [])

/-- `SendRequest` of thread 0 fails with half of the request on its way. The connection goes back to
the pool, and thread 1 gets the answer to what thread 0 had asked for. -/
theorem answered_for_another :
    (Run.run (step 2 browsing echo) (start 0 10)
      [.begin 0 (askingFor (ascii "/a")) 5, .subtract 0, .connect 0 true, .count 0,
        .sendFails 0 false [unfinished (askingFor (ascii "/a"))], .drop 0, .test 0 6, .putBack 0,
        .begin 1 (askingFor (ascii "/b")) 7, .subtract 1, .send 1 [(askingFor (ascii "/b")).dump false],
        .serve 0 ⟨false, 0⟩ [echoed (ascii "/a")], .receive 1]).map (fun s =>
      s.results.map fun (r, result) => (r.path, result.response.map HttpResponse.body)) =
      some [(ascii "/a", none), (ascii "/b", some (ascii "/a"))] := by
  decide +kernel

end ServerFrame.Pool.Requests
