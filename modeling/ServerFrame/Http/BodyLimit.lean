import Mathlib.Algebra.Order.Ring.Int
import ServerFrame.Http.Announced
import ServerFrame.Http.Framing

/-!
# The limits of bodies

The configured limits are read by nothing. The announced length goes through `uint64_t` and
`int64_t`: what does not fit is no length or a negative one, and the message has no body.
-/
namespace ServerFrame.Http

open Segments

/-! ## The limits -/

/-- `http.request.max_body_size` and its counterpart for responses, with their defaults. -/
structure MaxBodySize where
  request : UInt64 := 64 * 1024 * 1024
  response : UInt64 := 64 * 1024 * 1024

/-- What `boost::lexical_cast<uint64_t>` makes of decimal numbers. -/
def CastsNumbers (lexicalCast : List UInt8 → Option UInt64) : Prop :=
  ∀ text n, number text = some n → lexicalCast text = if n < 2 ^ 64 then some n.toUInt64 else none

/-- The size of the body that goes with a `content-length`, if there is to be one: the test
`length > 0`. -/
def sizedTo (contentLength : UInt64) : Option Nat :=
  if 0 < toInt64 contentLength then some (toInt64 contentLength).toNat else none

/-- What `RecvRequest` has when the header is read. -/
def readRequest (env : Env) (memory : Uninitialized) (socket : Socket) :
    Option (HttpRequestParser × List UInt8 × Socket) :=
  match recvHead env (socket.flatten.length + 1) (.new memory) [] socket with
  | .ok read => read
  | .error _ => none

/-- What `RecvResponse` has when the header is read. -/
def readResponse (env : ClientEnv) (socket : Socket) :
    Option (HttpResponseParser × List UInt8 × Socket) :=
  match recvHeader env (socket.flatten.length + 1) .new [] socket with
  | .ok read => read
  | .error _ => none

/-- A decimal `content-length` other than zero is not passed over. -/
def NotSkipped (headers : MapType) (sized : Option Nat) : Prop :=
  ∀ value ∈ headers.find (ascii "content-length"), ∀ n ∈ number value, sized = none → n = 0

/-- No request on this connection gets a body of more than `max` bytes, nor none when it has one. -/
structure RequestLimited (env : Env) (memory : Uninitialized) (max : Nat) (socket : Socket) : Prop where
  sized : ∀ read ∈ readRequest env memory socket,
    ∀ n ∈ sizedTo (read.1.getContentLength env.lexicalCast), n ≤ max
  returned : ∀ r rest, recvRequest env memory socket = .ok (some (r, rest)) → r.body.length ≤ max
  skipped : ∀ read ∈ readRequest env memory socket,
    NotSkipped read.1.data.headers (sizedTo (read.1.getContentLength env.lexicalCast))

/-- The same of a response, whose body is the one that is still encoded. -/
structure ResponseLimited (env : ClientEnv) (max : Nat) (socket : Socket) : Prop where
  returned : ∀ hp body rest, recvContent env socket = .ok (some (hp, body, rest)) → body.length ≤ max
  skipped : ∀ read ∈ readResponse env socket, read.1.parser.chunked = false →
    NotSkipped read.1.data.headers (sizedTo (read.1.getContentLength env.lexicalCast))

/-! ## The conditions -/

/-- The announced length fits into an `int64_t` when it is a number, and is a length that `serves`. -/
def LengthServes (lexicalCast : List UInt8 → Option UInt64) (serves : Nat → Prop) (headers : MapType) :
    Prop :=
  ∀ value ∈ headers.find (ascii "content-length"),
    (∀ n ∈ number value, n < 2 ^ 63 ∧ serves n) ∧
      (number value = none → ∀ w ∈ lexicalCast value, w.toNat < 2 ^ 63 → serves w.toNat)

instance (lexicalCast : List UInt8 → Option UInt64) (serves : Nat → Prop) [DecidablePred serves]
    (headers : MapType) : Decidable (LengthServes lexicalCast serves headers) :=
  inferInstanceAs (Decidable (∀ value ∈ headers.find (ascii "content-length"), _ ∧ _))

/-- The connection brings a body of `n` bytes, and `ReadFixSize` does not take the rest of it for
an error. -/
def BodyArrives (n : Nat) (kept : List UInt8) (socket : Socket) : Prop :=
  n ≤ kept.length ∨ n ≤ kept.length + socket.flatten.length ∧ 0 < toInt (n - kept.length)

instance (n : Nat) (kept : List UInt8) (socket : Socket) : Decidable (BodyArrives n kept socket) :=
  inferInstanceAs (Decidable (_ ∨ _))

/-- The size that the headers of the chunks announce behind the header of a response. -/
def bodyAnnounced (env : ClientEnv) (kept : List UInt8) (socket : Socket) : Option Nat :=
  announced env.bufferSize (kept.length + socket.flatten.length + 1) kept.length (socket.map List.length)
    (kept ++ socket.flatten) 0

/-- The condition on a response whose header is read: the sizes that its chunks announce add up to what
is allowed, or its announced length is allowed or not all there. -/
def ResponseServes (env : ClientEnv) (max : Nat) (hp : HttpResponseParser) (kept : List UInt8)
    (socket : Socket) : Prop :=
  if hp.parser.chunked then ∀ n ∈ bodyAnnounced env kept socket, n ≤ max
  else LengthServes env.lexicalCast (fun n => n ≤ max ∨ ¬ BodyArrives n kept socket) hp.data.headers

instance (env : ClientEnv) (max : Nat) (hp : HttpResponseParser) (kept : List UInt8) (socket : Socket) :
    Decidable (ResponseServes env max hp kept socket) :=
  inferInstanceAs (Decidable (if hp.parser.chunked then ∀ n ∈ bodyAnnounced env kept socket, n ≤ max
    else LengthServes env.lexicalCast (fun n => n ≤ max ∨ ¬ BodyArrives n kept socket) hp.data.headers))

/-- The condition on both sides of the connections. -/
def LengthsServe (env : ClientEnv) (memory : Uninitialized) (limits : MaxBodySize)
    (requests responses : Socket) : Prop :=
  (∀ read ∈ readRequest env.toEnv memory requests,
      LengthServes env.lexicalCast (· ≤ limits.request.toNat) read.1.data.headers) ∧
    ∀ read ∈ readResponse env responses,
      ResponseServes env limits.response.toNat read.1 read.2.1 read.2.2

/-! ## The announced length -/

theorem sizedTo_eq (w : UInt64) :
    sizedTo w = if 0 < w.toNat ∧ w.toNat < 2 ^ 63 then some w.toNat else none := by
  have below := w.toNat_lt
  have signed : toInt64 w = if w.toNat < 2 ^ 63 then (w.toNat : Int) else w.toNat - 2 ^ 64 := by
    have wrapped : (w.toNat : Int) % ((2 ^ 64 : Nat) : Int) = w.toNat :=
      Int.emod_eq_of_lt (Int.natCast_nonneg _) (Int.ofNat_lt.mpr below)
    unfold toInt64
    rw [Int.bmod_def, wrapped]
    split <;> split <;> omega
  rw [sizedTo, signed]
  split
  · split
    · rw [if_pos (by omega), Int.toNat_natCast]
    · rw [if_neg (by omega)]
  · rw [if_neg (by omega), if_neg (by omega)]

theorem sizedTo_some {w : UInt64} {n : Nat} (is_sized : sizedTo w = some n) :
    0 < toInt64 w ∧ (toInt64 w).toNat = n := by
  rw [sizedTo, Option.ite_none_right_eq_some] at is_sized
  exact ⟨is_sized.1, Option.some.inj is_sized.2⟩

theorem not_positive_of_sizedTo {w : UInt64} (none_sized : sizedTo w = none) : ¬ 0 < toInt64 w := by
  rw [sizedTo] at none_sized
  intro positive
  rw [if_pos positive] at none_sized
  cases none_sized

theorem sizedTo_zero : sizedTo 0 = none := by
  rw [sizedTo_eq]
  exact if_neg fun positive => absurd positive.1 (Nat.lt_irrefl 0)

section Length

variable {lexicalCast : List UInt8 → Option UInt64} {serves : Nat → Prop}

/-- From 2 ^ 63 on a number leaves no length behind. -/
theorem sizedTo_number (casts : CastsNumbers lexicalCast) {value : List UInt8} {n : Nat}
    (is : number value = some n) :
    sizedTo ((lexicalCast value).getD 0) = if 0 < n ∧ n < 2 ^ 63 then some n else none := by
  rw [casts value n is]
  by_cases fits : n < 2 ^ 64
  · have same : n.toUInt64.toNat = n := Nat.mod_eq_of_lt fits
    rw [if_pos fits, Option.getD_some, sizedTo_eq, same]
  · rw [if_neg fits, Option.getD_none, if_neg (by omega), sizedTo_zero]

/-- The condition on the header is what the size of the body has to fulfil. -/
theorem lengthServes_iff (casts : CastsNumbers lexicalCast) (zero : serves 0) (headers : MapType) {w : UInt64}
    (is_length : w = match headers.find (ascii "content-length") with
      | none => 0
      | some value => (lexicalCast value).getD 0) :
    LengthServes lexicalCast serves headers ↔
      (∀ n ∈ sizedTo w, serves n) ∧ NotSkipped headers (sizedTo w) := by
  subst is_length
  rw [LengthServes, NotSkipped]
  cases headers.find (ascii "content-length") with
  | none => simp [sizedTo_zero]
  | some value =>
    simp only [Option.mem_some_iff, forall_eq']
    cases is : number value with
    | some n =>
      have announced : (∀ m ∈ some n, m < 2 ^ 63 ∧ serves m) ∧ (some n = none →
          ∀ w ∈ lexicalCast value, w.toNat < 2 ^ 63 → serves w.toNat) ↔ n < 2 ^ 63 ∧ serves n := by
        simp only [Option.mem_some_iff, forall_eq', reduceCtorEq, false_implies, and_true]
      rw [announced, sizedTo_number casts is]
      by_cases fits : 0 < n ∧ n < 2 ^ 63
      · rw [if_pos fits]
        simp only [Option.mem_some_iff, forall_eq', reduceCtorEq, false_implies, and_true]
        exact and_iff_right fits.2
      · rw [if_neg fits]
        simp only [Option.mem_some_iff, forall_eq', forall_const]
        -- the number is zero, or too large to leave a length behind
        refine ⟨fun ⟨below, _⟩ => ⟨fun m member => (nomatch member), by omega⟩, ?_⟩
        rintro ⟨-, rfl⟩
        exact ⟨by decide, zero⟩
    | none =>
      have no_number : ∀ P : Nat → Prop, ∀ n ∈ (none : Option Nat), P n := fun P n member => (nomatch member)
      rw [and_iff_right (no_number _), imp_iff_right rfl, and_iff_left (no_number _)]
      cases lexicalCast value with
      | none => simp [sizedTo_zero]
      | some w =>
        rw [Option.getD_some, sizedTo_eq]
        by_cases fits : 0 < w.toNat ∧ w.toNat < 2 ^ 63
        · simp [fits]
        · rw [if_neg fits]
          refine ⟨fun _ m member => (nomatch member), fun _ m member small => ?_⟩
          cases member
          have is_zero : w.toNat = 0 := by omega
          rw [is_zero]
          exact zero

end Length

/-! ## Bodies of an announced length -/

section Body

variable {n : Nat} {kept body got : List UInt8} {socket rest : Socket}

theorem readFixLoop_some {fuel left : Nat} (ran : readFixLoop fuel left socket = some (got, rest)) :
    got.length = left ∧ left ≤ socket.flatten.length := by
  induction fuel generalizing left got socket with
  | zero =>
    cases left with
    | zero =>
      cases ran
      exact ⟨rfl, Nat.zero_le _⟩
    | succ left => cases ran
  | succ fuel ih =>
    cases left with
    | zero =>
      cases ran
      exact ⟨rfl, Nat.zero_le _⟩
    | succ left =>
      rw [readFixLoop] at ran
      cases front : read (left + 1) socket with
      | none =>
        rw [front] at ran
        cases ran
      | some result =>
        obtain ⟨bytes, between⟩ := result
        have within := read_length front
        have stream := read_flatten front
        rw [front] at ran
        dsimp only at ran
        split at ran
        next => cases ran
        next =>
          obtain ⟨later, is_later, same⟩ := Option.map_eq_some_iff.mp ran
          cases same
          obtain ⟨length_eq, there⟩ := ih is_later
          rw [← stream, List.length_append, List.length_append]
          omega

/-- The body is returned if and only if it arrives, and then it has the announced length. -/
theorem recvBody_some (ran : recvBody n kept socket = some (body, rest)) :
    body.length = n ∧ BodyArrives n kept socket := by
  rw [recvBody] at ran
  split at ran
  next short =>
    obtain ⟨later, is_later, same⟩ := Option.map_eq_some_iff.mp ran
    cases same
    rw [readFixSize] at is_later
    cases looped : readFixLoop (n - kept.length) (n - kept.length) socket with
    | none =>
      rw [looped] at is_later
      cases is_later
    | some result =>
      obtain ⟨got, left⟩ := result
      obtain ⟨length_eq, there⟩ := readFixLoop_some looped
      rw [looped] at is_later
      dsimp only at is_later
      split at is_later
      next => cases is_later
      next positive =>
        cases is_later
        refine ⟨?_, .inr ⟨by omega, Int.not_le.mp positive⟩⟩
        simp only [List.length_append]
        omega
  next held =>
    cases ran
    rw [List.length_take]
    exact ⟨by omega, .inl (Nat.not_lt.mp held)⟩

theorem recvBody_arrives (nonempty : ∀ s ∈ socket, s ≠ []) (arrives : BodyArrives n kept socket) :
    ∃ body rest, recvBody n kept socket = some (body, rest) := by
  rw [recvBody]
  by_cases short : kept.length < n
  · rw [if_pos short]
    rcases arrives with held | ⟨there, positive⟩
    · omega
    · have looped := readFixLoop_eq nonempty (Nat.le_refl (n - kept.length)) (by omega)
      rw [readFixSize, looped]
      dsimp only
      rw [if_neg (Int.not_le.mpr positive)]
      exact ⟨_, _, rfl⟩
  · rw [if_neg short]
    exact ⟨_, _, rfl⟩

end Body

/-! ## Requests -/

section Request

variable {hp hp' : HttpRequestParser} {buffer : List UInt8}

theorem request_act_body {p : Nat} {a : Act} (acted : HttpRequestParser.act buffer p hp a = .ok hp') :
    hp'.data.body = hp.data.body := by
  cases a with
  | writeValue =>
    rw [HttpRequestParser.act, HttpRequestParser.onRequestHttpField] at acted
    split at acted
    next =>
      cases acted
      rfl
    next =>
      obtain ⟨name, -, named⟩ := EState.except_bind_ok acted
      obtain ⟨text, -, valued⟩ := EState.except_bind_ok named
      cases valued
      rfl
  | requestMethod =>
    cases acted
    rw [HttpRequestParser.onRequestMethod]
    split
    · rfl
    · rfl
  | httpVersion =>
    cases acted
    rw [HttpRequestParser.onRequestVersion]
    split
    · rfl
    · split
      · rfl
      · rfl
  | fragment =>
    obtain ⟨text, -, set⟩ := EState.except_bind_ok acted
    cases set
    rfl
  | queryString =>
    obtain ⟨text, -, set⟩ := EState.except_bind_ok acted
    cases set
    rfl
  | requestPath =>
    obtain ⟨text, -, set⟩ := EState.except_bind_ok acted
    cases set
    rfl
  | _ =>
    cases acted
    rfl

theorem request_acts_body {p : Nat} {acts : List Act}
    (acted : acts.foldlM (HttpRequestParser.act buffer p) hp = .ok hp') : hp'.data.body = hp.data.body := by
  induction acts generalizing hp with
  | nil =>
    cases acted
    rfl
  | cons a acts ih =>
    rw [List.foldlM_cons] at acted
    obtain ⟨hp₁, first, later⟩ := EState.except_bind_ok acted
    exact (ih later).trans (request_act_body first)

theorem request_exec_body {bytes : List UInt8} {p n : Nat}
    (ran : HttpRequestParser.exec buffer p hp bytes = .ok (hp', n)) : hp'.data.body = hp.data.body := by
  induction bytes generalizing p hp with
  | nil =>
    cases ran
    rfl
  | cons b bytes ih =>
    rw [HttpRequestParser.exec] at ran
    split at ran
    next =>
      cases ran
      rfl
    next =>
      obtain ⟨hp₁, acted, later⟩ := EState.except_bind_ok ran
      have same := request_acts_body acted
      split at later
      next =>
        cases later
        exact same
      next => exact (ih later).trans same

theorem request_execute_body {n : Nat} (ran : hp.execute buffer = .ok (hp', n)) :
    hp'.data.body = hp.data.body := by
  rw [HttpRequestParser.execute] at ran
  split at ran
  next =>
    cases ran
    rfl
  next =>
    obtain ⟨⟨hp₁, p⟩, executed, tested⟩ := EState.except_bind_ok ran
    have same : hp₁.data.body = hp.enter.data.body := request_exec_body executed
    dsimp only at tested
    split at tested
    next =>
      cases tested
      exact same
    next => cases tested

/-- The header of a request leaves no body. -/
theorem recvHead_body {env : Env} {fuel : Nat} {kept kept' : List UInt8} {socket socket' : Socket}
    (ran : recvHead env fuel hp kept socket = .ok (some (hp', kept', socket'))) :
    hp'.data.body = hp.data.body := by
  induction fuel generalizing hp kept socket with
  | zero => cases ran
  | succ fuel ih =>
    rw [recvHead] at ran
    split at ran
    next => cases ran
    next =>
      split at ran
      next => cases ran
      next =>
        obtain ⟨⟨hp₁, nparse⟩, executed, later⟩ := EState.except_bind_ok ran
        have same := request_execute_body executed
        dsimp only at later
        split at later
        next => cases later
        next =>
          split at later
          next => cases later
          next =>
            split at later
            next =>
              cases later
              exact same
            next => exact (ih later).trans same

theorem init_body (r : HttpRequest) : r.init.body = r.body := by
  rw [HttpRequest.init]
  split
  · rfl
  · rfl

/-- A request is returned behind a header, with a body of the size that goes with it. -/
theorem recvRequest_body {env : Env} {memory : Uninitialized} {socket rest : Socket} {r : HttpRequest}
    (ran : recvRequest env memory socket = .ok (some (r, rest))) :
    ∃ read ∈ readRequest env memory socket,
      r.body.length = (sizedTo (read.1.getContentLength env.lexicalCast)).getD 0 := by
  obtain ⟨head, is_head, later⟩ := EState.except_bind_ok ran
  cases head with
  | none => cases later
  | some read =>
    obtain ⟨hp, kept, left⟩ := read
    have no_body : hp.data.body = [] := recvHead_body is_head
    refine ⟨(hp, kept, left), ?_, ?_⟩
    · rw [readRequest, is_head]
      rfl
    · have rested : recvRest env hp kept left = some (r, rest) := Except.ok.inj later
      rw [recvRest] at rested
      dsimp only
      rw [sizedTo]
      by_cases positive : 0 < toInt64 (hp.getContentLength env.lexicalCast)
      · rw [if_pos positive] at rested ⊢
        obtain ⟨⟨bytes, behind⟩, is_brought, same⟩ := Option.map_eq_some_iff.mp rested
        cases same
        rw [init_body, Option.getD_some]
        exact (recvBody_some is_brought).1
      · rw [if_neg positive] at rested ⊢
        cases rested
        rw [init_body, no_body]
        rfl

/-- The requests on a connection are limited if and only if the length that each header announces is
a size within the limit. -/
theorem requestLimited_iff {env : Env} (casts : CastsNumbers env.lexicalCast) (memory : Uninitialized)
    (max : Nat) (socket : Socket) :
    RequestLimited env memory max socket ↔
      ∀ read ∈ readRequest env memory socket,
        LengthServes env.lexicalCast (· ≤ max) read.1.data.headers := by
  have serves : ∀ read : HttpRequestParser × List UInt8 × Socket,
      LengthServes env.lexicalCast (· ≤ max) read.1.data.headers ↔
        (∀ n ∈ sizedTo (read.1.getContentLength env.lexicalCast), n ≤ max) ∧
          NotSkipped read.1.data.headers (sizedTo (read.1.getContentLength env.lexicalCast)) :=
    fun read => lengthServes_iff casts (Nat.zero_le max) read.1.data.headers rfl
  constructor
  · intro limited read member
    exact (serves read).mpr ⟨limited.sized read member, limited.skipped read member⟩
  · intro all
    refine ⟨fun read member => ((serves read).mp (all read member)).1, ?_,
      fun read member => ((serves read).mp (all read member)).2⟩
    intro r rest ran
    obtain ⟨read, member, length_eq⟩ := recvRequest_body ran
    have within := ((serves read).mp (all read member)).1
    rw [length_eq]
    cases sized : sizedTo (read.1.getContentLength env.lexicalCast) with
    | none => exact Nat.zero_le max
    | some n => exact within n sized

end Request

/-! ## Responses -/

section Response

variable {env : ClientEnv} {hp hp' : HttpResponseParser} {kept kept' body body' : List UInt8}
  {socket socket' : Socket}

theorem headed_of_read (is_read : readResponse env socket = some (hp, kept, socket')) :
    recvHeader env (socket.flatten.length + 1) .new [] socket = .ok (some (hp, kept, socket')) := by
  rw [readResponse] at is_read
  split at is_read
  next ran => rw [ran, is_read]
  next => cases is_read

theorem recvContent_chunks (is_read : readResponse env socket = some (hp, kept, socket'))
    (chunked : hp.parser.chunked = true) :
    recvContent env socket =
      recvChunks env (kept.length + socket'.flatten.length + 1) hp kept socket' [] := by
  simp only [recvContent, headed_of_read is_read, bind, Except.bind, if_pos chunked]

/-- Without chunks the body has the announced size. -/
theorem recvContent_sized (is_read : readResponse env socket = some (hp, kept, socket'))
    (plain : ¬ hp.parser.chunked = true) {n : Nat}
    (is_sized : sizedTo (hp.getContentLength env.lexicalCast) = some n) :
    recvContent env socket =
      .ok ((recvBody n kept socket').map fun (body, socket) => (hp, body, socket)) := by
  obtain ⟨positive, same⟩ := sizedTo_some is_sized
  simp only [recvContent, headed_of_read is_read, bind, Except.bind, if_neg plain, if_pos positive, same,
    pure, Except.pure]

theorem recvContent_empty (is_read : readResponse env socket = some (hp, kept, socket'))
    (plain : ¬ hp.parser.chunked = true)
    (none_sized : sizedTo (hp.getContentLength env.lexicalCast) = none) :
    recvContent env socket = .ok (some (hp, [], socket')) := by
  simp only [recvContent, headed_of_read is_read, bind, Except.bind, if_neg plain,
    if_neg (not_positive_of_sizedTo none_sized), pure, Except.pure]

/-- Nothing is returned without a header. -/
theorem recvContent_reads (ran : recvContent env socket = .ok (some (hp, body, socket'))) :
    ∃ read, readResponse env socket = some read := by
  obtain ⟨head, is_head, later⟩ := EState.except_bind_ok ran
  cases head with
  | none => cases later
  | some read =>
    rw [readResponse, is_head]
    exact ⟨read, rfl⟩

/-- Behind a header that announces chunks. -/
theorem chunked_limited (max : Nat) (is_read : readResponse env socket = some (hp, kept, socket'))
    (nonempty : ∀ s ∈ socket, s ≠ []) (chunked : hp.parser.chunked = true) :
    (∀ hp' body rest, recvContent env socket = .ok (some (hp', body, rest)) → body.length ≤ max) ↔
      ∀ n ∈ bodyAnnounced env kept socket', n ≤ max := by
  have headed := headed_of_read is_read
  have state := recvHeader_keeps ⟨rfl, Nat.zero_le _, nonempty⟩ headed
  have room : 0 < env.bufferSize := by
    by_contra none_fit
    rw [recvHeader_no_room (by omega) _ _ nonempty] at headed
    cases headed
  have lies : Lies env kept.length (socket'.map List.length) (kept ++ socket'.flatten) kept socket' :=
    ⟨state.fits, state.nonempty, rfl, rfl, rfl⟩
  have all := @recvChunks_announced env (kept.length + socket'.flatten.length + 1) _ hp _ _ kept [] socket'
    room state.no_error lies
  rw [List.length_nil] at all
  rw [recvContent_chunks is_read chunked, bodyAnnounced]
  cases told : announced env.bufferSize (kept.length + socket'.flatten.length + 1) kept.length
      (socket'.map List.length) (kept ++ socket'.flatten) 0 with
  | none =>
    rw [told] at all
    exact ⟨fun _ n member => (by cases member), fun _ hp' body rest ran => absurd ran (all _)⟩
  | some n =>
    rw [told] at all
    obtain ⟨hp', body, rest, ran, length_eq⟩ := all
    constructor
    · intro returned m same
      cases same
      exact length_eq ▸ returned hp' body rest ran
    · intro within hp₁ body₁ rest₁ ran₁
      rw [ran] at ran₁
      cases ran₁
      rw [length_eq]
      exact within n rfl

/-- Behind a header that announces a length, or none. -/
theorem plain_limited (max : Nat) (is_read : readResponse env socket = some (hp, kept, socket'))
    (nonempty : ∀ s ∈ socket, s ≠ []) (plain : ¬ hp.parser.chunked = true) :
    (∀ hp' body rest, recvContent env socket = .ok (some (hp', body, rest)) → body.length ≤ max) ↔
      ∀ n ∈ sizedTo (hp.getContentLength env.lexicalCast), n ≤ max ∨ ¬ BodyArrives n kept socket' := by
  have start : LoopState env .new [] socket := ⟨rfl, Nat.zero_le _, nonempty⟩
  have behind := (recvHeader_keeps start (headed_of_read is_read)).nonempty
  cases sized : sizedTo (hp.getContentLength env.lexicalCast) with
  | none =>
    rw [recvContent_empty is_read plain sized]
    refine ⟨fun _ n member => (nomatch member), fun _ hp' body rest ran => ?_⟩
    cases ran
    exact Nat.zero_le max
  | some n =>
    rw [recvContent_sized is_read plain sized]
    constructor
    · intro returned m same
      cases same
      rw [or_iff_not_imp_right, not_not]
      intro arrives
      obtain ⟨body, rest, brought⟩ := recvBody_arrives behind arrives
      have within := returned hp body rest (by rw [brought]; rfl)
      rwa [(recvBody_some brought).1] at within
    · intro within hp' body rest ran
      obtain ⟨⟨bytes, left⟩, brought, same⟩ := Option.map_eq_some_iff.mp (Except.ok.inj ran)
      cases same
      obtain ⟨length_eq, arrives⟩ := recvBody_some brought
      rw [length_eq]
      exact (within n rfl).resolve_right fun missing => missing arrives

/-- The responses on a connection are limited if and only if what they announce is. -/
theorem responseLimited_iff (casts : CastsNumbers env.lexicalCast) (max : Nat)
    (nonempty : ∀ s ∈ socket, s ≠ []) :
    ResponseLimited env max socket ↔
      ∀ read ∈ readResponse env socket, ResponseServes env max read.1 read.2.1 read.2.2 := by
  cases is_read : readResponse env socket with
  | none =>
    refine ⟨fun _ read member => (by cases member), fun _ => ⟨fun hp body rest ran => ?_, ?_⟩⟩
    · obtain ⟨read, some_read⟩ := recvContent_reads ran
      rw [is_read] at some_read
      cases some_read
    · intro read member
      rw [is_read] at member
      cases member
  | some read =>
    obtain ⟨hp, kept, rest⟩ := read
    have only : ∀ {P : HttpResponseParser × List UInt8 × Socket → Prop},
        (∀ read ∈ some (hp, kept, rest), P read) ↔ P (hp, kept, rest) := by simp
    have parts : ResponseLimited env max socket ↔
        (∀ hp' body rest, recvContent env socket = .ok (some (hp', body, rest)) → body.length ≤ max) ∧
          (hp.parser.chunked = false →
            NotSkipped hp.data.headers (sizedTo (hp.getContentLength env.lexicalCast))) := by
      constructor
      · rintro ⟨returned, skipped⟩
        exact ⟨returned, skipped _ is_read⟩
      · rintro ⟨returned, skipped⟩
        refine ⟨returned, ?_⟩
        rw [is_read]
        exact only.mpr skipped
    rw [only, parts, ResponseServes]
    by_cases chunked : hp.parser.chunked = true
    · have none_skipped : hp.parser.chunked = false →
          NotSkipped hp.data.headers (sizedTo (hp.getContentLength env.lexicalCast)) := by
        intro not_chunked
        rw [not_chunked] at chunked
        cases chunked
      rw [chunked_limited max is_read nonempty chunked, if_pos chunked, and_iff_left none_skipped]
    · rw [plain_limited max is_read nonempty chunked, if_neg chunked,
        lengthServes_iff casts (.inl (Nat.zero_le max)) hp.data.headers rfl]
      have skips := imp_iff_right (b := NotSkipped hp.data.headers
        (sizedTo (hp.getContentLength env.lexicalCast))) (Bool.not_eq_true _ ▸ chunked)
      rw [skips]
      exact Iff.rfl

end Response

/-! ## Both sides -/

/-- The limits hold on a connection of either side if and only if every announced length fits into an
`int64_t` and is allowed, for a request as soon as it is announced, for a response when the body
arrives; and the sizes that the chunks of a response announce add up to what is allowed. -/
theorem bodyLimits_announced {env : ClientEnv} (casts : CastsNumbers env.lexicalCast) (limits : MaxBodySize)
    (memory : Uninitialized) (requests : Socket) {responses : Socket} (nonempty : ∀ s ∈ responses, s ≠ []) :
    RequestLimited env.toEnv memory limits.request.toNat requests ∧
        ResponseLimited env limits.response.toNat responses ↔
      LengthsServe env memory limits requests responses :=
  and_congr (requestLimited_iff casts memory limits.request.toNat requests)
    (responseLimited_iff casts limits.response.toNat nonempty)

/-- The cast of decimal numbers, and of nothing else. -/
def castNumber (text : List UInt8) : Option UInt64 :=
  (number text).bind fun n => if n < 2 ^ 64 then some n.toUInt64 else none

theorem castNumber_casts : CastsNumbers castNumber := by
  intro text n is
  rw [castNumber, is, Option.bind_some]

def peer : ClientEnv := { client with lexicalCast := castNumber }

/-- A request with a body of three bytes, and a response with a chunk of three. -/
theorem bodyLimits_announced_three :
    RequestLimited peer.toEnv ⟨false, 0⟩ (64 * 1024 * 1024)
        [ascii "POST / HTTP/1.1\r\ncontent-length: 3\r\n\r\nabc"] ∧
      ResponseLimited peer (64 * 1024 * 1024) [chunkedHead ++ ascii "3\r\nabc\r\n0\r\n\r\n"] :=
  (bodyLimits_announced castNumber_casts {} ⟨false, 0⟩ _ (by decide)).mpr
    ⟨by decide +kernel, by decide⟩

/-- One byte more than the limit is sized, and a length of 2 ^ 63 is passed over. -/
theorem limits_ignored :
    ¬ RequestLimited peer.toEnv ⟨false, 0⟩ (64 * 1024 * 1024)
        [ascii "POST / HTTP/1.1\r\ncontent-length: 67108865\r\n\r\n"] ∧
      ¬ RequestLimited peer.toEnv ⟨false, 0⟩ (64 * 1024 * 1024)
        [ascii "POST / HTTP/1.1\r\ncontent-length: 9223372036854775808\r\n\r\n"] := by
  constructor
  · rintro ⟨sized, -, -⟩
    revert sized
    decide +kernel
  · rintro ⟨-, -, skipped⟩
    revert skipped
    unfold NotSkipped
    decide +kernel

end ServerFrame.Http
