import ServerFrame.Http.Reads

/-!
# Requests in segments

A request that arrives in segments is read as the same request as in one piece if and only
if no cut harms one of its tokens: of each token the parser sees what lies behind the last
cut before its end.
-/
namespace ServerFrame.Http

open Segments

/-! ## Cuts that do no harm -/

/-- What lies behind the cut reads as the token. A path, a query and a fragment are read
as they stand; of a method and of a version only the value counts. -/
def Token.harmless (head : List UInt8) (cut : Nat → Nat) : Token → Bool
  | .method s =>
    charsToHttpMethod ((s.after (cut s.stop)).text head) = charsToHttpMethod (s.text head)
  | .path s => cut s.stop ≤ s.start
  | .query s => cut s.stop ≤ s.start
  | .fragment s => cut s.stop ≤ s.start
  | .version s => versionOf ((s.after (cut s.stop)).text head) = versionOf (s.text head)
  | .field _ _ => true

/-- The headers that the fields make, each as far as it lies behind the cut. -/
def fields (head : List UInt8) (cut : Nat → Nat) : MapType → List Token → MapType
  | headers, [] => headers
  | headers, .field name value :: ts =>
    fields head cut (addField head (cut value.stop) name value headers) ts
  | headers, _ :: ts => fields head cut headers ts

def harmless (head : List UInt8) (cut : Nat → Nat) (ts : List Token) : Bool :=
  ts.all (·.harmless head cut) && fields head cut [] ts == fields head (fun _ => 0) [] ts

/-- `cut p` is the start of the read that holds position `p`. -/
structure Cuts (cut : Nat → Nat) : Prop where
  le : ∀ p, cut p ≤ p
  same : ∀ p q, cut q ≤ p → p ≤ q → cut p = cut q

theorem cuts_cutBefore (socket : Socket) : Cuts (cutBefore socket) :=
  ⟨cutBefore_le socket, fun _ _ start before => cutBefore_eq_of_le start before⟩

/-- The request without its headers. -/
def HttpRequest.line (r : HttpRequest) : HttpRequest := { r with headers := [] }

section Tokens

variable {head : List UInt8} {cut : Nat → Nat} {t : Token} {r r' q q' : HttpRequest × Nat}

theorem Span.after_of_le {s : Span} {c : Nat} (le : c ≤ s.start) : s.after c = s := by
  rw [Span.after, Nat.max_eq_left le]

theorem text_after_zero (s : Span) : (s.after 0).text head = s.text head := by
  rw [Span.after_of_le (Nat.zero_le _)]

/-- The callbacks for a harmless token do the same in segments as in one piece, but for
the headers. -/
theorem deliver_harmless (harmless : t.harmless head cut = true) (cuts : Cuts cut)
    (ends : t.span.start ≤ t.span.stop) (same : r.1.line = r'.1.line) (error : r.2 = r'.2) :
    ∃ q q', deliver head cut r t = .ok q ∧ deliver head (fun _ => 0) r' t = .ok q' ∧
      q.1.line = q'.1.line ∧ q.2 = q'.2 := by
  obtain ⟨data, e⟩ := r
  obtain ⟨data', e'⟩ := r'
  obtain rfl : e = e' := error
  cases t with
  | method s =>
    simp only [Token.harmless, decide_eq_true_eq] at harmless
    simp only [deliver, harmless, text_after_zero]
    cases charsToHttpMethod (s.text head) with
    | none => exact ⟨_, _, rfl, rfl, same, rfl⟩
    | some m => exact ⟨_, _, rfl, rfl, congrArg (fun d => { d with method := m }) same, rfl⟩
  | path s =>
    simp only [Token.harmless, decide_eq_true_eq] at harmless
    simp only [deliver, Span.after_of_le harmless, text_after_zero]
    exact ⟨_, _, rfl, rfl, congrArg (fun d => { d with path := s.text head }) same, rfl⟩
  | query s =>
    simp only [Token.harmless, decide_eq_true_eq] at harmless
    have same_read : cut s.stop - cut s.start = 0 := by
      rw [cuts.same s.start s.stop harmless ends, Nat.sub_self]
    have whole : ¬ s.stop < s.start := Nat.not_lt.mpr ends
    simp only [deliver, same_read, Nat.sub_self, Nat.add_zero, if_neg whole]
    exact ⟨_, _, rfl, rfl, congrArg (fun d => { d with query := s.text head }) same, rfl⟩
  | fragment s =>
    simp only [Token.harmless, decide_eq_true_eq] at harmless
    simp only [deliver, Span.after_of_le harmless, text_after_zero]
    exact ⟨_, _, rfl, rfl, congrArg (fun d => { d with fragment := s.text head }) same, rfl⟩
  | version s =>
    simp only [Token.harmless, decide_eq_true_eq] at harmless
    simp only [deliver, harmless, text_after_zero]
    cases versionOf (s.text head) with
    | none => exact ⟨_, _, rfl, rfl, same, rfl⟩
    | some v => exact ⟨_, _, rfl, rfl, congrArg (fun d => { d with version := v }) same, rfl⟩
  | field name value => exact ⟨_, _, rfl, rfl, same, rfl⟩

theorem deliver_headers (delivered : deliver head cut r t = .ok q) :
    q.1.headers = fields head cut r.1.headers [t] := by
  cases delivered_of_deliver delivered <;> rfl

theorem fields_cons (headers : MapType) (t : Token) (ts : List Token) :
    fields head cut headers (t :: ts) = fields head cut (fields head cut headers [t]) ts := by
  cases t <;> rfl

theorem deliverAll_headers {ts : List Token} (delivered : deliverAll head cut r ts = .ok q) :
    q.1.headers = fields head cut r.1.headers ts := by
  induction ts generalizing r with
  | nil =>
    cases delivered
    rfl
  | cons t ts ih =>
    rw [deliverAll] at delivered
    split at delivered
    next => cases delivered
    next r' first => rw [ih delivered, fields_cons, deliver_headers first]

/-- Harmless tokens make the same request, but for the headers. -/
theorem deliverAll_harmless {ts : List Token} (harmless : ∀ t ∈ ts, t.harmless head cut = true)
    (cuts : Cuts cut) (ends : ∀ t ∈ ts, t.span.start ≤ t.span.stop)
    (same : r.1.line = r'.1.line) (error : r.2 = r'.2) :
    ∃ q q', deliverAll head cut r ts = .ok q ∧ deliverAll head (fun _ => 0) r' ts = .ok q' ∧
      q.1.line = q'.1.line ∧ q.2 = q'.2 := by
  induction ts generalizing r r' with
  | nil => exact ⟨r, r', rfl, rfl, same, error⟩
  | cons t ts ih =>
    obtain ⟨q, q', first, first', same, error⟩ := deliver_harmless
      (harmless t (List.mem_cons_self ..)) cuts (ends t (List.mem_cons_self ..)) same error
    rw [deliverAll, deliverAll, first, first']
    exact ih (fun t member => harmless t (List.mem_cons_of_mem _ member))
      (fun t member => ends t (List.mem_cons_of_mem _ member)) same error

/-! ## Cuts that do harm -/

theorem no_error_before {ts : List Token} (delivered : deliverAll head cut r ts = .ok q)
    (no_error : q.2 = 0) : r.2 = 0 := by
  by_contra failed
  have lost : received (deliverAll head cut r ts) = none := received_of_error ts failed
  obtain ⟨data, error⟩ := q
  cases no_error
  rw [delivered] at lost
  cases lost

/-- One part of the request line. -/
def HttpRequest.part (r : HttpRequest) : Nat → HttpRequest
  | 0 => { HttpRequest.new with method := r.method }
  | 1 => { HttpRequest.new with path := r.path }
  | 2 => { HttpRequest.new with query := r.query }
  | 3 => { HttpRequest.new with fragment := r.fragment }
  | 4 => { HttpRequest.new with version := r.version }
  | _ => .new

theorem part_congr {d d' : HttpRequest} {k : Nat} (method : k = 0 → d.method = d'.method)
    (path : k = 1 → d.path = d'.path) (query : k = 2 → d.query = d'.query)
    (fragment : k = 3 → d.fragment = d'.fragment) (version : k = 4 → d.version = d'.version) :
    d.part k = d'.part k := by
  match k with
  | 0 => simp only [HttpRequest.part, method rfl]
  | 1 => simp only [HttpRequest.part, path rfl]
  | 2 => simp only [HttpRequest.part, query rfl]
  | 3 => simp only [HttpRequest.part, fragment rfl]
  | 4 => simp only [HttpRequest.part, version rfl]
  | _ + 5 => rfl

theorem part_eq_of_line {d d' : HttpRequest} (same : d.line = d'.line) (k : Nat) :
    d.part k = d'.part k := by
  have of_line : ∀ d : HttpRequest, d.part k = d.line.part k := fun d =>
    part_congr (fun _ => rfl) (fun _ => rfl) (fun _ => rfl) (fun _ => rfl) fun _ => rfl
  rw [of_line, of_line d', same]

/-- The callbacks for a token leave the parts alone that it does not belong to. -/
theorem deliver_part {k : Nat} (delivered : deliver head cut r t = .ok q)
    (other : t.part ≠ some k) : q.1.part k = r.1.part k := by
  cases delivered_of_deliver delivered with
  | badMethod => rfl
  | method =>
    exact part_congr (fun eq => absurd (congrArg some eq.symm) other) (fun _ => rfl) (fun _ => rfl)
      (fun _ => rfl) fun _ => rfl
  | path =>
    exact part_congr (fun _ => rfl) (fun eq => absurd (congrArg some eq.symm) other) (fun _ => rfl)
      (fun _ => rfl) fun _ => rfl
  | query =>
    exact part_congr (fun _ => rfl) (fun _ => rfl) (fun eq => absurd (congrArg some eq.symm) other)
      (fun _ => rfl) fun _ => rfl
  | fragment =>
    exact part_congr (fun _ => rfl) (fun _ => rfl) (fun _ => rfl)
      (fun eq => absurd (congrArg some eq.symm) other) fun _ => rfl
  | badVersion => rfl
  | version =>
    exact part_congr (fun _ => rfl) (fun _ => rfl) (fun _ => rfl) (fun _ => rfl)
      fun eq => absurd (congrArg some eq.symm) other
  | field =>
    -- the headers are not part of the request line
    exact part_congr (fun _ => rfl) (fun _ => rfl) (fun _ => rfl) (fun _ => rfl) fun _ => rfl

theorem deliverAll_part {ts : List Token} {k : Nat} (delivered : deliverAll head cut r ts = .ok q)
    (others : ∀ t ∈ ts, t.part ≠ some k) : q.1.part k = r.1.part k := by
  induction ts generalizing r with
  | nil =>
    cases delivered
    rfl
  | cons t ts ih =>
    rw [deliverAll] at delivered
    split at delivered
    next => cases delivered
    next r' first =>
      rw [ih delivered fun t member => others t (List.mem_cons_of_mem _ member),
        deliver_part first (others t (List.mem_cons_self ..))]

/-- A cut inside of a text shortens it. -/
theorem le_start_of_text {s : Span} {c : Nat} (ends : s.start ≤ s.stop) (inside : s.stop ≤ head.length)
    (cut_le : c ≤ s.stop) (same : (s.after c).text head = s.text head) : c ≤ s.start := by
  have lengths := congrArg List.length same
  simp only [Span.text, Span.after, List.length_take, List.length_drop] at lengths
  omega

/-- A token that is reported the same in segments and in one piece is harmless. -/
theorem harmless_of_deliver (cuts : Cuts cut) (ends : t.span.start ≤ t.span.stop)
    (inside : t.span.stop < head.length) (delivered : deliver head cut r t = .ok q)
    (delivered' : deliver head (fun _ => 0) r' t = .ok q') (no_error : q.2 = 0)
    (no_error' : q'.2 = 0) (same : ∀ k, t.part = some k → q.1.part k = q'.1.part k) :
    t.harmless head cut = true := by
  have in_one_piece := delivered_of_deliver delivered'
  -- a token that was cut is shorter, and an error shows in the result
  cases delivered_of_deliver delivered with
  | badMethod => cases no_error
  | method seen =>
    cases in_one_piece with
    | badMethod => cases no_error'
    | method whole =>
      have same := congrArg HttpRequest.method (same 0 rfl)
      rw [text_after_zero] at whole
      simp only [Token.harmless, decide_eq_true_eq, seen, whole]
      exact congrArg some same
  | @path s =>
    cases in_one_piece
    have same := congrArg HttpRequest.path (same 1 rfl)
    simp only [HttpRequest.part, text_after_zero] at same
    simp only [Token.harmless, decide_eq_true_eq]
    exact le_start_of_text ends (Nat.le_of_lt inside) (cuts.le s.stop) same
  | @query s =>
    cases in_one_piece
    have lengths := congrArg (fun d => d.query.length) (same 2 rfl)
    have start_le := cuts.le s.start
    simp only [Token.span] at ends inside
    simp only [HttpRequest.part, Span.text, List.length_take, List.length_drop] at lengths
    simp only [Token.harmless, decide_eq_true_eq]
    omega
  | @fragment s =>
    cases in_one_piece
    have same := congrArg HttpRequest.fragment (same 3 rfl)
    simp only [HttpRequest.part, text_after_zero] at same
    simp only [Token.harmless, decide_eq_true_eq]
    exact le_start_of_text ends (Nat.le_of_lt inside) (cuts.le s.stop) same
  | badVersion => cases no_error
  | version seen =>
    cases in_one_piece with
    | badVersion => cases no_error'
    | version whole =>
      have same := congrArg HttpRequest.version (same 4 rfl)
      rw [text_after_zero] at whole
      simp only [Token.harmless, decide_eq_true_eq, seen, whole]
      exact congrArg some same
  | field => rfl

/-- Tokens that make the same request line are harmless. -/
theorem harmless_of_deliverAll {ts : List Token} (cuts : Cuts cut)
    (apart : ts.Pairwise Token.Apart)
    (ends : ∀ t ∈ ts, t.span.start ≤ t.span.stop ∧ t.span.stop < head.length)
    (delivered : deliverAll head cut r ts = .ok q)
    (delivered' : deliverAll head (fun _ => 0) r' ts = .ok q') (no_error : q.2 = 0)
    (no_error' : q'.2 = 0) (same : q.1.line = q'.1.line) : ∀ t ∈ ts, t.harmless head cut = true := by
  induction ts generalizing r r' with
  | nil =>
    intro t member
    cases member
  | cons t ts ih =>
    obtain ⟨others, apart⟩ := List.pairwise_cons.mp apart
    rw [deliverAll] at delivered delivered'
    split at delivered
    next => cases delivered
    next r₁ first =>
      split at delivered'
      next => cases delivered'
      next r₁' first' =>
        obtain ⟨ends_t, inside_t⟩ := ends t (List.mem_cons_self ..)
        have same_part : ∀ k, t.part = some k → r₁.1.part k = r₁'.1.part k := by
          intro k of_t
          have untouched := fun u member => others u member k of_t
          rw [← deliverAll_part delivered untouched, ← deliverAll_part delivered' untouched,
            part_eq_of_line same]
        have here := harmless_of_deliver cuts ends_t inside_t first first'
          (no_error_before delivered no_error) (no_error_before delivered' no_error') same_part
        have later := ih apart (fun u member => ends u (List.mem_cons_of_mem _ member)) delivered
          delivered'
        intro u member
        rcases List.mem_cons.mp member with rfl | member
        · exact here
        · exact later u member

/-- The callbacks set neither the body nor the close flag. -/
theorem deliver_frame (delivered : deliver head cut r t = .ok q) :
    q.1.body = r.1.body ∧ q.1.close = r.1.close := by
  cases delivered_of_deliver delivered <;> exact ⟨rfl, rfl⟩

theorem deliverAll_frame {ts : List Token} (delivered : deliverAll head cut r ts = .ok q) :
    q.1.body = r.1.body ∧ q.1.close = r.1.close := by
  induction ts generalizing r with
  | nil =>
    cases delivered
    exact ⟨rfl, rfl⟩
  | cons t ts ih =>
    rw [deliverAll] at delivered
    split at delivered
    next => cases delivered
    next r' first =>
      obtain ⟨body, close⟩ := ih delivered
      obtain ⟨body', close'⟩ := deliver_frame first
      exact ⟨body.trans body', close.trans close'⟩

end Tokens

theorem received_eq_some {found : Except Fault (HttpRequest × Nat)} {data : HttpRequest} :
    received found = some data ↔ found = .ok (data, 0) := by
  constructor
  · intro is_data
    match found, is_data with
    | .ok (_, 0), rfl => rfl
  · rintro rfl
    rfl

theorem token_ends {uriRelaxed : Bool} {head : List UInt8} :
    ∀ t ∈ tokens uriRelaxed head, t.span.start ≤ t.span.stop ∧ t.span.stop < head.length := by
  intro t member
  have ends := span_of_mem_scan Marks.behind_new member
  rwa [Nat.zero_add] at ends

/-- The parser makes the same request in segments as in one piece if and only if the cuts
do no harm. -/
theorem received_iff_harmless {uriRelaxed : Bool} {head : List UInt8} {cut : Nat → Nat}
    {data : HttpRequest} (cuts : Cuts cut)
    (whole : received (deliverAll head (fun _ => 0) (.new, 0) (tokens uriRelaxed head)) = some data) :
    received (deliverAll head cut (.new, 0) (tokens uriRelaxed head)) = some data ↔
      harmless head cut (tokens uriRelaxed head) = true := by
  rw [received_eq_some] at whole ⊢
  rw [harmless, Bool.and_eq_true, List.all_eq_true, beq_iff_eq]
  constructor
  · intro delivered
    refine ⟨harmless_of_deliverAll cuts (scan_apart ..) token_ends delivered whole rfl rfl rfl, ?_⟩
    exact (deliverAll_headers delivered).symm.trans (deliverAll_headers whole)
  · rintro ⟨tokens_harmless, same_fields⟩
    have same_line : ((.new, 0) : HttpRequest × Nat).1.line = HttpRequest.new.line := rfl
    obtain ⟨q, q', delivered, delivered', same, error⟩ := deliverAll_harmless tokens_harmless cuts
      (fun t member => (token_ends t member).1) same_line rfl
    rw [whole] at delivered'
    cases delivered'
    obtain ⟨data', e⟩ := q
    obtain rfl : e = 0 := error
    have headers : data'.headers = data.headers :=
      (deliverAll_headers delivered).trans (same_fields.trans (deliverAll_headers whole).symm)
    have same_data : data' = data := calc
      data' = { data'.line with headers := data'.headers } := rfl
      _ = { data.line with headers := data.headers } := by rw [same, headers]
    rw [delivered, same_data]

/-! ## Whole requests -/

theorem init_eq (r : HttpRequest) : ∃ close, r.init = { r with close := close } := by
  rw [HttpRequest.init]
  split
  · exact ⟨_, rfl⟩
  · exact ⟨_, rfl⟩

section Request

variable {env : Env} {head body after : List UInt8} {socket : Socket}

/-- The request that is returned has the headers that were parsed. -/
theorem recvRest_headers {hp : HttpRequestParser} {kept : List UInt8} {request : HttpRequest}
    {rest : Socket} (returns : recvRest env hp kept socket = some (request, rest)) :
    request.headers = hp.data.headers := by
  simp only [recvRest] at returns
  split at returns
  next =>
    rw [Option.map_eq_some_iff] at returns
    obtain ⟨got, -, same⟩ := returns
    obtain ⟨close, init⟩ := init_eq { hp.data with body := got.1 }
    simp only [init, Prod.mk.injEq] at same
    rw [← same.1]
  next =>
    obtain ⟨close, init⟩ := init_eq hp.data
    rw [init] at returns
    cases returns
    rfl

/-- What is returned when the length of the body is what the header says. -/
theorem recvRest_eq (hp : HttpRequestParser) (stream : socket.flatten = head ++ (body ++ after))
    (pos : 0 < head.length) (fits : head.length ≤ env.bufferSize) (nonempty : ∀ s ∈ socket, s ≠ [])
    (no_body : hp.data.body = [])
    (length : toInt64 (hp.getContentLength env.lexicalCast) = body.length) :
    recvRest env hp ((body ++ after).take (headRead env socket head - head.length))
        (dropFront (headRead env socket head) socket) =
      if restFits (head.length + body.length - headRead env socket head) then
        some ({ hp.data with body := body }.init,
          dropFront (max (headRead env socket head) (head.length + body.length)) socket)
      else none := by
  rw [recvRest]
  simp only [length, Int.toNat_natCast]
  by_cases empty : body = []
  · -- nothing is read behind the header
    subst empty
    have lower := (headRead_bounds stream pos fits).1
    have none_left : head.length + ([] : List UInt8).length - headRead env socket head = 0 := by
      rw [List.length_nil]
      omega
    have stop_eq : max (headRead env socket head) (head.length + ([] : List UInt8).length) =
        headRead env socket head := by
      rw [List.length_nil]
      omega
    have same : { hp.data with body := [] } = hp.data := by rw [← no_body]
    rw [none_left, stop_eq, same]
    rfl
  · have positive : (0 : Int) < body.length := by
      have := List.length_pos_iff.mpr empty
      omega
    rw [if_pos positive, recvBody_eq stream pos fits nonempty]
    split <;> rfl

theorem returned_eq_some {α : Type*} {result : Except Fault (Option α)} {a : α} :
    returned result = some a ↔ result = .ok (some a) := by
  cases result with
  | error fault => simp [returned]
  | ok result => simp [returned]

theorem pos_of_accepts {uriRelaxed : Bool} (good : accepts uriRelaxed head = true) :
    0 < head.length := by
  cases head with
  | nil => cases good
  | cons b head => exact Nat.succ_pos _

/-- What the parser makes of the whole header. -/
def Parses (uriRelaxed : Bool) (head : List UInt8) (data : HttpRequest) : Prop :=
  received (deliverAll head (fun _ => 0) (.new, 0) (tokens uriRelaxed head)) = some data

theorem Parses.frame {uriRelaxed : Bool} {cut : Nat → Nat} {data : HttpRequest}
    (parses : received (deliverAll head cut (.new, 0) (tokens uriRelaxed head)) = some data) :
    data.body = [] ∧ data.close = true :=
  deliverAll_frame (received_eq_some.mp parses)

/-- Two parsed requests that end up the same are the same. -/
theorem eq_of_init {data data' : HttpRequest} (frame : data.body = [] ∧ data.close = true)
    (frame' : data'.body = [] ∧ data'.close = true)
    (same : { data with body := body }.init = { data' with body := body }.init) : data = data' := by
  obtain ⟨close, init⟩ := init_eq { data with body := body }
  obtain ⟨close', init'⟩ := init_eq { data' with body := body }
  rw [init, init'] at same
  have same := congrArg (fun r : HttpRequest => { r with body := [], close := true }) same
  calc
    data = { data with body := [], close := true } := by rw [← frame.1, ← frame.2]
    _ = { data' with body := [], close := true } := same
    _ = data' := by rw [← frame'.1, ← frame'.2]

/-- When `RecvRequest` returns the request in the first bytes of the stream, and what it
leaves on the connection. -/
theorem recvRequest_iff {memory : Uninitialized} {data : HttpRequest} {rest : Socket}
    (good : accepts memory.uriRelaxed head = true) (fits : head.length ≤ env.bufferSize)
    (stream : socket.flatten = head ++ (body ++ after)) (nonempty : ∀ s ∈ socket, s ≠ [])
    (parses : Parses memory.uriRelaxed head data)
    (length : toInt64 (data.getHeaderAs env.lexicalCast (ascii "content-length") 0) = body.length) :
    recvRequest env memory socket = .ok (some ({ data with body := body }.init, rest)) ↔
      harmless head (cutBefore socket) (tokens memory.uriRelaxed head) = true ∧
      restFits (head.length + body.length - headRead env socket head) = true ∧
      rest = dropFront (max (headRead env socket head) (head.length + body.length)) socket := by
  have pos := pos_of_accepts good
  obtain ⟨parser, returns⟩ := returned_recvRequest memory good fits stream nonempty
  rw [← returned_eq_some, returns, ← received_iff_harmless (cuts_cutBefore socket) parses,
    Option.bind_eq_some_iff]
  constructor
  · rintro ⟨data', parses', returns'⟩
    have frame' := Parses.frame parses'
    -- the headers are those of the request, and with them the length of the body
    have same_headers : data'.headers = data.headers := by
      obtain ⟨close, init⟩ := init_eq { data with body := body }
      rw [← recvRest_headers returns', init]
    have length' : toInt64 (HttpRequestParser.getContentLength env.lexicalCast
        ⟨parser, data', 0⟩) = body.length := by
      rw [← length, HttpRequestParser.getContentLength, HttpRequest.getHeaderAs,
        HttpRequest.getHeaderAs, same_headers]
    rw [recvRest_eq _ stream pos fits nonempty frame'.1 length'] at returns'
    split at returns'
    next taken =>
      simp only [Option.some.injEq, Prod.mk.injEq] at returns'
      obtain ⟨same, rest_eq⟩ := returns'
      have same_data := eq_of_init frame' (Parses.frame parses) same
      exact ⟨same_data ▸ parses', taken, rest_eq.symm⟩
    next => cases returns'
  · -- harmless cuts: the parser sees what it sees in one piece
    rintro ⟨parses', taken, rfl⟩
    refine ⟨data, parses', ?_⟩
    rw [recvRest_eq ⟨parser, data, 0⟩ stream pos fits nonempty (Parses.frame parses).1 length,
      if_pos taken]

theorem deliver_congr {cut cut' : Nat → Nat} {t : Token} (r : HttpRequest × Nat)
    (start : cut t.span.start = cut' t.span.start) (stop : cut t.span.stop = cut' t.span.stop) :
    deliver head cut r t = deliver head cut' r t := by
  cases t with
  | query s =>
    simp only [Token.span] at start stop
    simp only [deliver, start, stop]
  | _ =>
    simp only [Token.span] at stop
    simp only [deliver, stop]

theorem deliverAll_congr {cut cut' : Nat → Nat} {ts : List Token}
    (ends : ∀ t ∈ ts, t.span.start ≤ t.span.stop ∧ t.span.stop < head.length)
    (same : ∀ p, p < head.length → cut p = cut' p) (r : HttpRequest × Nat) :
    deliverAll head cut r ts = deliverAll head cut' r ts := by
  induction ts generalizing r with
  | nil => rfl
  | cons t ts ih =>
    obtain ⟨le, inside⟩ := ends t (List.mem_cons_self ..)
    rw [deliverAll, deliverAll, deliver_congr r (same _ (by omega)) (same _ inside)]
    cases deliver head cut' r t with
    | error fault => rfl
    | ok r => exact ih (fun t member => ends t (List.mem_cons_of_mem _ member)) r

/-- A request that arrives in one piece is returned as the parser makes it. -/
theorem parses_of_whole {memory : Uninitialized} {request : HttpRequest} {rest : Socket}
    (good : accepts memory.uriRelaxed head = true) (fits : head.length ≤ env.bufferSize)
    (whole : recvRequest env memory [head ++ body] = .ok (some (request, rest)))
    (length : toInt64 (request.getHeaderAs env.lexicalCast (ascii "content-length") 0) =
      body.length) :
    ∃ data, Parses memory.uriRelaxed head data ∧
      toInt64 (data.getHeaderAs env.lexicalCast (ascii "content-length") 0) = body.length ∧
      request = { data with body := body }.init := by
  have pos := pos_of_accepts good
  have stream : [head ++ body].flatten = head ++ (body ++ []) := by simp
  have nonempty : ∀ s ∈ [head ++ body], s ≠ [] := by
    intro s member empty
    rw [List.mem_singleton.mp member, List.append_eq_nil_iff] at empty
    rw [empty.1] at pos
    cases pos
  obtain ⟨parser, returns⟩ := returned_recvRequest memory good fits stream nonempty
  rw [← returned_eq_some, returns, Option.bind_eq_some_iff] at whole
  obtain ⟨data, parses, returns⟩ := whole
  -- in one segment there is no cut inside of the header
  have one_piece : ∀ p, p < head.length → cutBefore [head ++ body] p = (fun _ => 0) p := by
    intro p inside
    rw [cutBefore, if_pos (by rw [List.length_append]; omega)]
  rw [deliverAll_congr token_ends one_piece] at parses
  have same_headers : data.headers = request.headers := (recvRest_headers returns).symm
  have length' : toInt64 (data.getHeaderAs env.lexicalCast (ascii "content-length") 0) =
      body.length := by
    rw [← length, HttpRequest.getHeaderAs, HttpRequest.getHeaderAs, same_headers]
  rw [recvRest_eq ⟨parser, data, 0⟩ stream pos fits nonempty (Parses.frame parses).1 length']
    at returns
  split at returns
  next =>
    simp only [Option.some.injEq, Prod.mk.injEq] at returns
    exact ⟨data, parses, length', returns.1.symm⟩
  next => cases returns

/-- A request that arrives in segments is returned as in one piece if and only if no cut
harms one of its tokens and the number of bytes that `ReadFixSize` is asked for is
positive as an `int`. -/
theorem recvRequest_segments_iff {memory : Uninitialized} {request : HttpRequest} {rest : Socket}
    (good : accepts memory.uriRelaxed head = true) (fits : head.length ≤ env.bufferSize)
    (stream : socket.flatten = head ++ body) (nonempty : ∀ s ∈ socket, s ≠ [])
    (whole : recvRequest env memory [head ++ body] = .ok (some (request, rest)))
    (length : toInt64 (request.getHeaderAs env.lexicalCast (ascii "content-length") 0) =
      body.length) :
    (∃ rest, recvRequest env memory socket = .ok (some (request, rest))) ↔
      harmless head (cutBefore socket) (tokens memory.uriRelaxed head) = true ∧
      restFits (head.length + body.length - headRead env socket head) = true := by
  obtain ⟨data, parses, length', rfl⟩ := parses_of_whole good fits whole length
  have stream' : socket.flatten = head ++ (body ++ []) := by rw [List.append_nil, stream]
  constructor
  · rintro ⟨rest, returns⟩
    obtain ⟨unharmed, taken, -⟩ :=
      (recvRequest_iff good fits stream' nonempty parses length').mp returns
    exact ⟨unharmed, taken⟩
  · rintro ⟨unharmed, taken⟩
    exact ⟨_, (recvRequest_iff good fits stream' nonempty parses length').mpr
      ⟨unharmed, taken, rfl⟩⟩

end Request

/-- `boost::lexical_cast` on digits. -/
def decimal (text : List UInt8) : Option UInt64 :=
  if text = [] then none
  else text.foldlM (fun n b => if 48 ≤ b ∧ b ≤ 57 then some (n * 10 + (b - 48).toUInt64) else none) 0

/-- A session with a buffer of 4 KiB. -/
def session : Env := ⟨4096, by decide, decimal⟩

def posted : HttpRequest :=
  { HttpRequest.new with
    method := .post
    path := ascii "/a"
    body := ascii "abc"
    headers := [(ascii "content-length", ascii "3")] }

end ServerFrame.Http
