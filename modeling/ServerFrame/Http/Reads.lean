import ServerFrame.Http.Buffers
import ServerFrame.Http.Session
import ServerFrame.Lib.Segments

/-!
# The loop of `RecvRequest` over the reads

Each read of the loop is one segment, as long as the header is not complete. The parser
goes on from read to read with its state and forgets its marks, and what it has found at
the end is what `deliver` says for the starts of the segments as cuts.
-/
namespace ServerFrame.Http

open Segments

/-! ## One read -/

/-- The parser before it is called with the buffer that starts at position `c`. -/
structure Ready (cut : Nat → Nat) (c : Nat) (m : Marks) (uriRelaxed : Bool) (more : List UInt8)
    (parser : HttpParser) : Prop where
  behind : m.Behind c
  queryStart : m.asked = true → parser.queryStart + cut m.queryStart = m.queryStart
  bodyStart : parser.bodyStart = 0
  suits : m.Suits parser.cs
  relaxed : parser.uriRelaxed = uriRelaxed
  completes : completes uriRelaxed parser.cs more = true

/-- The assignments at the head of `http_parser_execute`. -/
def HttpParser.entered (parser : HttpParser) : HttpParser :=
  { parser with nread := 0, mark := 0, fieldLen := 0, fieldStart := 0 }

section Call

variable {head buffer more : List UInt8} {cut : Nat → Nat} {c : Nat} {m : Marks} {uriRelaxed : Bool}
  {parser : HttpParser}

/-- The marks of the reads before lie before the buffer. -/
theorem Ready.tracks (ready : Ready cut c m uriRelaxed more parser) :
    Tracks cut c 0 0 m parser.entered := by
  obtain ⟨mark, fieldStart, fieldStop, queryStart⟩ := ready.behind
  refine ⟨ready.behind, ?_, ?_, fun _ => ?_, Nat.le_refl 0, ready.queryStart, ?_⟩
  · simp only [HttpParser.entered]
    omega
  · simp only [HttpParser.entered]
    omega
  · simp only [HttpParser.entered]
    omega
  · exact Nat.le_of_eq ready.bodyStart

/-- Behind a read that ends inside of the header the parser is ready for the next one. -/
theorem Paused.ready {p : Nat} (paused : Paused cut c p m uriRelaxed more parser) (nread : Nat) :
    Ready cut (c + (p + 1)) m uriRelaxed more { parser with nread := nread } where
  behind := paused.tracks.behind.mono (by omega)
  queryStart := paused.tracks.queryStart
  bodyStart := Nat.le_zero.mp paused.tracks.bodyStart
  suits := paused.suits
  relaxed := paused.relaxed
  completes := paused.completes

theorem asserts_of_tracks {p body len nread : Nat} (tracks : Tracks cut c p body m parser)
    (last : p < len) (body_le : body ≤ len) (nread_le : nread ≤ len) :
    HttpRequestParser.asserts { parser with nread := nread } len = true := by
  have mark_le := tracks.mark_le
  have fieldStart_le := tracks.fieldStart_le
  have fieldLen_le := tracks.fieldLen_le
  have bodyStart_le := tracks.bodyStart
  simp only [HttpRequestParser.asserts, Bool.and_eq_true, decide_eq_true_eq]
  omega

theorem execute_eq {parser' : HttpParser} {n : Nat} {found : Except Fault (HttpRequest × Nat)}
    (data : HttpRequest) (error : Nat) (nonempty : buffer ≠ [])
    (exec_eq : HttpRequestParser.exec buffer 0 ⟨parser.entered, data, error⟩ buffer =
      found.map fun r => (⟨parser', r.1, r.2⟩, n))
    (passes : HttpRequestParser.asserts { parser' with nread := n } buffer.length = true) :
    HttpRequestParser.execute ⟨parser, data, error⟩ buffer =
      found.map fun r => (⟨{ parser' with nread := n }, r.1, r.2⟩, n) := by
  have entered : HttpRequestParser.enter ⟨parser, data, error⟩ = ⟨parser.entered, data, error⟩ := rfl
  rw [HttpRequestParser.execute, if_neg nonempty, entered, exec_eq]
  cases found with
  | error fault => rfl
  | ok r =>
    simp only [Except.map]
    exact if_pos passes

/-- `Execute` on a buffer that ends inside of the header. -/
theorem execute_inside (ready : Ready cut c m uriRelaxed (buffer ++ more) parser)
    (nonempty : buffer ≠ []) (agrees : head.drop c = buffer ++ more) (more_ne : more ≠ [])
    (window : ∀ q, q < buffer.length → c + q < head.length → Window head cut buffer c q) :
    ∃ parser' m' ts, Ready cut (c + buffer.length) m' uriRelaxed more parser' ∧
      parser'.cs < httpParserFirstFinal ∧
      scan uriRelaxed parser.cs m c (buffer ++ more) =
        ts ++ scan uriRelaxed parser'.cs m' (c + buffer.length) more ∧
      ∀ data error, HttpRequestParser.execute ⟨parser, data, error⟩ buffer =
        (deliverAll head cut (data, error) ts).map fun r => (⟨parser', r.1, r.2⟩, buffer.length) := by
  obtain ⟨b, bytes, rfl⟩ := List.exists_cons_of_ne_nil nonempty
  have good : completes parser.entered.uriRelaxed parser.entered.cs (b :: bytes ++ more) = true := by
    have good := ready.completes
    rwa [← ready.relaxed] at good
  obtain ⟨parser', m', ts, paused, scan_eq, exec_eq⟩ :=
    exec_inside ready.tracks ready.suits rfl agrees more_ne window good
  have relaxed : parser.entered.uriRelaxed = uriRelaxed := ready.relaxed
  rw [relaxed] at paused scan_eq
  rw [Nat.zero_add] at paused
  have next := paused.ready (b :: bytes).length
  refine ⟨{ parser' with nread := (b :: bytes).length }, m', ts, next, paused.open_, scan_eq,
    fun data error => ?_⟩
  have exec_eq := exec_eq data error
  rw [Nat.zero_add] at exec_eq
  refine execute_eq data error nonempty exec_eq ?_
  exact asserts_of_tracks paused.tracks (Nat.lt_succ_self _) (Nat.zero_le _) (Nat.le_refl _)

/-- `Execute` on a buffer that holds the end of the header. -/
theorem execute_complete (ready : Ready cut c m uriRelaxed more parser) (more_ne : more ≠ [])
    (agrees : head.drop c = more) (beyond : List UInt8)
    (window : ∀ q, q < (more ++ beyond).length → c + q < head.length →
      Window head cut (more ++ beyond) c q) :
    ∃ parser', httpParserFirstFinal ≤ parser'.cs ∧
      ∀ data error, HttpRequestParser.execute ⟨parser, data, error⟩ (more ++ beyond) =
        (deliverAll head cut (data, error) (scan uriRelaxed parser.cs m c more)).map
          fun r => (⟨parser', r.1, r.2⟩, more.length) := by
  obtain ⟨b, bytes, rfl⟩ := List.exists_cons_of_ne_nil more_ne
  have good : completes parser.entered.uriRelaxed parser.entered.cs (b :: bytes) = true := by
    have good := ready.completes
    rwa [← ready.relaxed] at good
  obtain ⟨parser', m', tracks, final, exec_eq⟩ :=
    exec_complete ready.tracks ready.suits rfl agrees window good
  have relaxed : parser.entered.uriRelaxed = uriRelaxed := ready.relaxed
  rw [Nat.zero_add, Nat.zero_add] at tracks
  refine ⟨{ parser' with nread := (b :: bytes).length }, final, fun data error => ?_⟩
  have exec_eq := exec_eq data error
  rw [Nat.zero_add, relaxed] at exec_eq
  refine execute_eq data error (by simp) exec_eq ?_
  have length_eq : (b :: bytes ++ beyond).length = bytes.length + 1 + beyond.length := by
    simp only [List.length_append, List.length_cons]
  refine asserts_of_tracks tracks ?_ ?_ ?_
  all_goals
    simp only [length_eq, List.length_cons]
    omega

theorem Ready.not_error (ready : Ready cut c m uriRelaxed more parser) :
    parser.cs ≠ httpParserError := by
  intro failed
  have good := ready.completes
  rw [failed] at good
  cases more with
  | nil => cases good
  | cons b more => cases good

end Call

/-! ## All reads -/

/-- The request, if the callbacks are through without an error. -/
def received : Except Fault (HttpRequest × Nat) → Option HttpRequest
  | .ok (data, 0) => some data
  | _ => none

/-- The result of a call that returns. -/
def returned {α : Type*} : Except Fault (Option α) → Option α
  | .ok result => result
  | .error _ => none

theorem deliver_keeps_error {head : List UInt8} {cut : Nat → Nat} {r r' : HttpRequest × Nat}
    {t : Token} (delivered : deliver head cut r t = .ok r') (failed : r.2 ≠ 0) : r'.2 ≠ 0 := by
  cases delivered_of_deliver delivered with
  | badMethod => exact Nat.succ_ne_zero _
  | badVersion => exact Nat.succ_ne_zero _
  | _ => exact failed

/-- An error of a callback stays. -/
theorem received_of_error {head : List UInt8} {cut : Nat → Nat} {r : HttpRequest × Nat}
    (ts : List Token) (failed : r.2 ≠ 0) : received (deliverAll head cut r ts) = none := by
  induction ts generalizing r with
  | nil =>
    obtain ⟨data, error⟩ := r
    cases error with
    | zero => exact absurd rfl failed
    | succ error => rfl
  | cons t ts ih =>
    rw [deliverAll]
    cases delivered : deliver head cut r t with
    | error fault => rfl
    | ok r' => exact ih (deliver_keeps_error delivered failed)

/-- The segments that are left are those of the whole stream behind position `c`. -/
def Aligned (cut : Nat → Nat) (c : Nat) (socket : Socket) : Prop :=
  ∀ i, cut (c + i) = c + cutBefore socket i

theorem Aligned.tail {cut : Nat → Nat} {c : Nat} {s : List UInt8} {socket : Socket}
    (aligned : Aligned cut c (s :: socket)) : Aligned cut (c + s.length) socket := by
  intro i
  have here := aligned (s.length + i)
  rw [cutBefore, if_neg (by omega), Nat.add_sub_cancel_left, ← Nat.add_assoc] at here
  rw [here, Nat.add_assoc]

/-- A read that starts at position `c` and ends inside of the first segment. -/
theorem Aligned.window {head buffer after : List UInt8} {cut : Nat → Nat} {c : Nat}
    {s : List UInt8} {socket : Socket} (aligned : Aligned cut c (s :: socket))
    (mono : ∀ p q, p ≤ q → cut p ≤ cut q) (front : buffer <+: head.drop c ++ after)
    (inside : buffer.length ≤ s.length) (small : head.length < 2 ^ 31) :
    ∀ q, q < buffer.length → c + q < head.length → Window head cut buffer c q := by
  intro q in_buffer in_head
  have here : cut (c + q) = c := by
    rw [aligned q, cutBefore, if_pos (by omega), Nat.add_zero]
  refine ⟨?_, here, fun x le => ?_, in_buffer, by omega⟩
  · obtain ⟨rest, whole⟩ := front
    have same : (buffer ++ rest).take q = (head.drop c ++ after).take q := by rw [whole]
    rwa [List.take_append_of_le_length (by omega),
      List.take_append_of_le_length (by rw [List.length_drop]; omega)] at same
  · rw [← here]
    exact mono x (c + q) le

/-- One pass of the loop on a segment that ends inside of the header. -/
theorem recvHead_inside {env : Env} {fuel : Nat} {hp : HttpRequestParser} {s : List UInt8}
    {socket : Socket} {parser' : HttpParser} {found : Except Fault (HttpRequest × Nat)}
    (nonempty : s ≠ []) (fits : s.length < env.bufferSize)
    (executed : hp.execute s = found.map fun r => (⟨parser', r.1, r.2⟩, s.length))
    (no_error : parser'.cs ≠ httpParserError) (open_ : parser'.cs < httpParserFirstFinal) :
    recvHead env (fuel + 1) hp [] (s :: socket) = found.bind fun r =>
      if r.2 = 0 then recvHead env fuel ⟨parser', r.1, 0⟩ [] socket else .ok none := by
  have reads : read (env.bufferSize - ([] : List UInt8).length) (s :: socket) = some (s, socket) := by
    rw [read, List.length_nil, Nat.sub_zero, Nat.min_eq_left env.small]
    exact if_pos (Nat.le_of_lt fits)
  simp only [recvHead, reads, if_neg nonempty, List.nil_append, executed]
  cases found with
  | error fault => rfl
  | ok r =>
    obtain ⟨data, error⟩ := r
    cases error with
    | zero =>
      have goes_on : HttpRequestParser.hasError ⟨parser', data, 0⟩ = false := by
        simp [HttpRequestParser.hasError, no_error]
      have not_full : ¬ ([] : List UInt8).length = env.bufferSize := by
        rw [List.length_nil]
        omega
      have not_finished : HttpRequestParser.isFinished ⟨parser', data, 0⟩ = false := by
        simpa [HttpRequestParser.isFinished] using open_
      simp only [Except.map, Except.bind, bind, pure, Except.pure, goes_on, not_finished,
        Bool.false_eq_true, if_false, if_neg not_full, List.drop_length, if_true]
    | succ error =>
      have stops : HttpRequestParser.hasError ⟨parser', data, error + 1⟩ = true := by
        simp [HttpRequestParser.hasError]
      simp only [Except.map, Except.bind, bind, pure, Except.pure, stops, if_true,
        Nat.succ_ne_zero, if_false]

/-- The pass in which the header becomes complete. -/
theorem recvHead_complete {env : Env} {fuel n : Nat} {hp : HttpRequestParser} {s : List UInt8}
    {socket : Socket} {parser' : HttpParser} {found : Except Fault (HttpRequest × Nat)}
    (nonempty : ∀ t ∈ s :: socket, t ≠ []) (room : 0 < env.bufferSize) (pos : 0 < n)
    (executed : hp.execute (s.take env.bufferSize) = found.map fun r => (⟨parser', r.1, r.2⟩, n))
    (final : httpParserFirstFinal ≤ parser'.cs) :
    recvHead env (fuel + 1) hp [] (s :: socket) = found.bind fun r =>
      if r.2 = 0 then
        .ok (some (⟨parser', r.1, 0⟩, (s.take env.bufferSize).drop n,
          dropFront (min env.bufferSize s.length) (s :: socket)))
      else .ok none := by
  have reads : read (env.bufferSize - ([] : List UInt8).length) (s :: socket) =
      some (s.take env.bufferSize, dropFront (min env.bufferSize s.length) (s :: socket)) := by
    rw [List.length_nil, Nat.sub_zero,
      read_eq (fun t member => nonempty t (List.mem_cons_of_mem s member)),
      Nat.min_eq_left env.small]
  have got : s.take env.bufferSize ≠ [] := by
    rw [← List.length_pos_iff, List.length_take]
    have := List.length_pos_iff.mpr (nonempty s (List.mem_cons_self ..))
    omega
  simp only [recvHead, reads, if_neg got, List.nil_append, executed]
  cases found with
  | error fault => rfl
  | ok r =>
    obtain ⟨data, error⟩ := r
    cases error with
    | zero =>
      have no_error : parser'.cs ≠ httpParserError := by
        rw [httpParserError, httpParserFirstFinal] at *
        omega
      have goes_on : HttpRequestParser.hasError ⟨parser', data, 0⟩ = false := by
        simp [HttpRequestParser.hasError, no_error]
      have not_full : ¬ ((s.take env.bufferSize).drop n).length = env.bufferSize := by
        rw [List.length_drop, List.length_take]
        omega
      have finished : HttpRequestParser.isFinished ⟨parser', data, 0⟩ = true := by
        simpa [HttpRequestParser.isFinished] using final
      simp only [Except.map, Except.bind, bind, pure, Except.pure, goes_on, finished,
        Bool.false_eq_true, if_false, if_neg not_full, if_true]
    | succ error =>
      have stops : HttpRequestParser.hasError ⟨parser', data, error + 1⟩ = true := by
        simp [HttpRequestParser.hasError]
      simp only [Except.map, Except.bind, bind, pure, Except.pure, stops, if_true,
        Nat.succ_ne_zero, if_false]

/-- What the loop returns: the request as `deliver` makes it, what the read that completes
the header holds behind it, and the rest of the connection. -/
theorem returned_recvHead {env : Env} {head after : List UInt8} {cut : Nat → Nat} {c fuel : Nat}
    {m : Marks} {uriRelaxed : Bool} {socket : Socket} {parser : HttpParser}
    (stream : socket.flatten = head.drop c ++ after) (nonempty : ∀ s ∈ socket, s ≠ [])
    (aligned : Aligned cut c socket) (mono : ∀ p q, p ≤ q → cut p ≤ cut q)
    (fits : head.length ≤ env.bufferSize) (inside : c < head.length)
    (ready : Ready cut c m uriRelaxed (head.drop c) parser) (enough : socket.length < fuel) :
    ∃ parser', ∀ data, returned (recvHead env fuel ⟨parser, data, 0⟩ [] socket) =
      (received (deliverAll head cut (data, 0) (scan uriRelaxed parser.cs m c (head.drop c)))).map
        fun data => (⟨parser', data, 0⟩,
          after.take (readEnd env.bufferSize socket (head.length - c - 1) - (head.length - c)),
          dropFront (readEnd env.bufferSize socket (head.length - c - 1)) socket) := by
  have small : head.length < 2 ^ 31 := by
    have := env.small
    rw [recvMax] at this
    omega
  induction socket generalizing c m parser fuel with
  | nil =>
    have none_left := congrArg List.length stream
    simp only [List.flatten_nil, List.length_nil, List.length_append, List.length_drop] at none_left
    omega
  | cons s socket ih =>
    obtain ⟨fuel, rfl⟩ : ∃ k, fuel = k + 1 := ⟨fuel - 1, by omega⟩
    rw [List.flatten_cons] at stream
    have s_ne : s ≠ [] := nonempty s (List.mem_cons_self ..)
    have rest_ne : ∀ t ∈ socket, t ≠ [] := fun t member => nonempty t (List.mem_cons_of_mem s member)
    rcases split_stream stream with ⟨more, more_ne, agrees, stream'⟩ | ⟨rest, agrees, stream'⟩
    · -- the segment ends inside of the header
      have more_eq : more = head.drop (c + s.length) := by
        rw [← List.drop_drop, agrees, List.drop_left]
      have ends : s.length < head.length - c := by
        have more_pos := List.length_pos_iff.mpr more_ne
        rw [more_eq, List.length_drop] at more_pos
        omega
      have front : s <+: head.drop c ++ after := ⟨more ++ after, by simp [agrees]⟩
      have window := aligned.window mono front (Nat.le_refl s.length) small
      rw [agrees] at ready
      obtain ⟨parser₁, m₁, ts, ready₁, open_, scan_eq, executed⟩ :=
        execute_inside ready s_ne agrees more_ne window
      rw [more_eq] at ready₁ stream'
      obtain ⟨parser', later⟩ := ih stream' rest_ne aligned.tail (by omega) ready₁ (by simpa using enough)
      refine ⟨parser', fun data => ?_⟩
      rw [recvHead_inside s_ne (by omega) (executed data 0) ready₁.not_error open_, agrees, scan_eq,
        deliverAll_append]
      have end_eq : readEnd env.bufferSize (s :: socket) (head.length - c - 1) =
          s.length + readEnd env.bufferSize socket (head.length - (c + s.length) - 1) := by
        rw [readEnd, if_neg (by omega)]
        congr 2
        omega
      have rest_eq : ∀ n, dropFront (s.length + n) (s :: socket) = dropFront n socket := by
        intro n
        rw [dropFront, if_neg (by omega), Nat.add_sub_cancel_left]
      have left_eq : ∀ n, s.length + n - (head.length - c) = n - (head.length - (c + s.length)) := by
        omega
      rw [end_eq, rest_eq, left_eq]
      cases deliverAll head cut (data, 0) ts with
      | error fault => rfl
      | ok r =>
        obtain ⟨data', error⟩ := r
        cases error with
        | zero =>
          simp only [Except.bind, if_true]
          rw [later data', more_eq]
        | succ error =>
          simp only [Except.bind, Nat.succ_ne_zero, if_false]
          rw [received_of_error _ (Nat.succ_ne_zero error)]
          rfl
    · -- the segment holds the end of the header
      have long : head.length - c ≤ s.length := by
        rw [agrees, List.length_append, List.length_drop]
        exact Nat.le_add_right _ _
      have room : head.length - c ≤ env.bufferSize := by omega
      have got : s.take env.bufferSize =
          head.drop c ++ rest.take (env.bufferSize - (head.length - c)) := by
        rw [agrees, List.take_append, List.length_drop,
          List.take_of_length_le (by rw [List.length_drop]; omega)]
      have front : s.take env.bufferSize <+: head.drop c ++ after := by
        rw [stream', ← List.append_assoc, ← agrees]
        exact (List.take_prefix ..).trans (List.prefix_append ..)
      have window := aligned.window mono front (List.length_take_le' ..) small
      rw [got] at window
      obtain ⟨parser', final, executed⟩ := execute_complete ready
        (by rw [← List.length_pos_iff, List.length_drop]; omega) rfl _ window
      have end_eq : readEnd env.bufferSize (s :: socket) (head.length - c - 1) =
          min env.bufferSize s.length := by
        rw [readEnd, if_pos (by omega)]
      have left_eq : (s.take env.bufferSize).drop (head.drop c).length =
          after.take (min env.bufferSize s.length - (head.length - c)) := by
        have length_eq := congrArg List.length agrees
        rw [List.length_append, List.length_drop] at length_eq
        rw [got, List.drop_left, stream', List.take_append_of_le_length (by omega)]
        rw [List.take_eq_take_iff]
        omega
      refine ⟨parser', fun data => ?_⟩
      have executed := executed data 0
      rw [← got] at executed
      rw [recvHead_complete nonempty (by omega) (by rw [List.length_drop]; omega) executed final,
        end_eq, left_eq]
      cases deliverAll head cut (data, 0) (scan uriRelaxed parser.cs m c (head.drop c)) with
      | error fault => rfl
      | ok r =>
        obtain ⟨data', error⟩ := r
        cases error with
        | zero => rfl
        | succ error => rfl

/-! ## The body -/

/-- `ReadFixSize` takes what it was asked for off the front of the stream. -/
theorem readFixLoop_eq {fuel left : Nat} {socket : Socket} (nonempty : ∀ s ∈ socket, s ≠ [])
    (enough : left ≤ fuel) (there : left ≤ socket.flatten.length) :
    readFixLoop fuel left socket = some (socket.flatten.take left, dropFront left socket) := by
  induction fuel generalizing left socket with
  | zero =>
    obtain rfl : left = 0 := by omega
    rw [readFixLoop, List.take_zero, dropFront_zero nonempty]
  | succ fuel ih =>
    cases left with
    | zero => rw [readFixLoop, List.take_zero, dropFront_zero nonempty]
    | succ left =>
      obtain ⟨k, k_pos, k_le, got_length, front⟩ :=
        read_front nonempty (Nat.succ_pos left) (Nat.lt_of_lt_of_le (Nat.succ_pos left) there)
      have got_ne : socket.flatten.take k ≠ [] := List.ne_nil_of_length_pos (by omega)
      have later : readFixLoop fuel (left + 1 - k) (dropFront k socket) =
          some ((dropFront k socket).flatten.take (left + 1 - k),
            dropFront (left + 1 - k) (dropFront k socket)) :=
        ih (fun t member => ne_nil_of_mem_dropFront nonempty member) (by omega)
          (by rw [flatten_dropFront, List.length_drop]; omega)
      have whole : k + (left + 1 - k) = left + 1 := by omega
      rw [readFixLoop, front]
      simp only [if_neg got_ne, got_length, later, Option.map_some]
      rw [flatten_dropFront, dropFront_dropFront, ← List.take_add, whole]

/-- `ReadFixSize` is not asked for anything, or its result is taken for a success. -/
def restFits (left : Nat) : Bool := left = 0 || 0 < toInt left

/-- The end of the read that completes the header. -/
def headRead (env : Env) (socket : Socket) (head : List UInt8) : Nat :=
  readEnd env.bufferSize socket (head.length - 1)

section Body

variable {env : Env} {head body after : List UInt8} {socket : Socket}

theorem headRead_bounds (stream : socket.flatten = head ++ (body ++ after)) (pos : 0 < head.length)
    (fits : head.length ≤ env.bufferSize) :
    head.length ≤ headRead env socket head ∧
      headRead env socket head ≤ head.length + (body.length + after.length) := by
  have length_eq := congrArg List.length stream
  simp only [List.length_append] at length_eq
  have lower : head.length - 1 < headRead env socket head := lt_readEnd (by omega) (by omega)
  have upper : headRead env socket head ≤ socket.flatten.length := readEnd_le ..
  omega

/-- The body, from what was read with the header and from the reads behind it. -/
theorem recvBody_eq (stream : socket.flatten = head ++ (body ++ after)) (pos : 0 < head.length)
    (fits : head.length ≤ env.bufferSize) (nonempty : ∀ s ∈ socket, s ≠ []) :
    recvBody body.length ((body ++ after).take (headRead env socket head - head.length))
        (dropFront (headRead env socket head) socket) =
      if restFits (head.length + body.length - headRead env socket head) then
        some (body,
          dropFront (max (headRead env socket head) (head.length + body.length)) socket)
      else none := by
  obtain ⟨lower, upper⟩ := headRead_bounds stream pos fits
  generalize headRead env socket head = stop at *
  have kept_length : ((body ++ after).take (stop - head.length)).length = stop - head.length := by
    rw [List.length_take, List.length_append]
    omega
  rw [recvBody, kept_length]
  by_cases more : stop - head.length < body.length
  · -- the rest of the body is read
    have flatten_eq : (dropFront stop socket).flatten = (body ++ after).drop (stop - head.length) := by
      rw [flatten_dropFront, stream, List.drop_append, List.drop_eq_nil_of_le lower, List.nil_append]
    have rest_eq : body.length - (stop - head.length) = head.length + body.length - stop := by omega
    have got := readFixLoop_eq
      (fun t member => ne_nil_of_mem_dropFront (n := stop) nonempty member)
      (Nat.le_refl (head.length + body.length - stop))
      (by rw [flatten_eq, List.length_drop, List.length_append]; omega)
    have body_eq : (body ++ after).take (stop - head.length) ++
        (dropFront stop socket).flatten.take (head.length + body.length - stop) = body := by
      have whole : stop - head.length + (head.length + body.length - stop) = body.length := by omega
      rw [flatten_eq, ← List.take_add, whole, List.take_left]
    have stop_eq : stop + (head.length + body.length - stop) =
        max stop (head.length + body.length) := by omega
    have left_ne : head.length + body.length - stop ≠ 0 := by omega
    rw [if_pos more, rest_eq, readFixSize, got]
    simp only [restFits, left_ne, decide_false, Bool.false_or, decide_eq_true_eq]
    by_cases taken : 0 < toInt (head.length + body.length - stop)
    · rw [if_neg (Int.not_le.mpr taken), if_pos taken, Option.map_some, body_eq,
        dropFront_dropFront, stop_eq]
    · rw [if_pos (Int.not_lt.mp taken), if_neg taken]
      rfl
  · have all_there : head.length + body.length - stop = 0 := by omega
    have stop_eq : max stop (head.length + body.length) = stop := by omega
    rw [if_neg more, all_there, stop_eq, List.take_take, Nat.min_eq_left (by omega),
      List.take_left]
    rfl

theorem length_le_flatten (nonempty : ∀ s ∈ socket, s ≠ []) :
    socket.length ≤ socket.flatten.length := by
  induction socket with
  | nil => exact Nat.le_refl 0
  | cons s socket ih =>
    have s_pos := List.length_pos_iff.mpr (nonempty s (List.mem_cons_self ..))
    have rest := ih fun t member => nonempty t (List.mem_cons_of_mem s member)
    rw [List.length_cons, List.flatten_cons, List.length_append]
    omega

/-- What `RecvRequest` returns. -/
theorem returned_recvRequest (memory : Uninitialized) (good : accepts memory.uriRelaxed head = true)
    (fits : head.length ≤ env.bufferSize) (stream : socket.flatten = head ++ after)
    (nonempty : ∀ s ∈ socket, s ≠ []) :
    ∃ parser, returned (recvRequest env memory socket) =
      (received (deliverAll head (cutBefore socket) (.new, 0) (tokens memory.uriRelaxed head))).bind
        fun data => recvRest env ⟨parser, data, 0⟩
          (after.take (headRead env socket head - head.length))
          (dropFront (headRead env socket head) socket) := by
  have pos : 0 < head.length := by
    cases head with
    | nil => cases good
    | cons b head => exact Nat.succ_pos _
  -- nothing is read yet: the marks are those of a new parser
  have ready : Ready (cutBefore socket) 0 .new memory.uriRelaxed (head.drop 0) (.init memory) :=
    ⟨Marks.behind_new, fun asked => (by cases asked), rfl,
      ⟨fun impossible => (by cases impossible), fun impossible => (by cases impossible)⟩, rfl, good⟩
  have aligned : Aligned (cutBefore socket) 0 socket := fun i => by rw [Nat.zero_add, Nat.zero_add]
  obtain ⟨parser', returns⟩ := returned_recvHead stream nonempty aligned
    (fun p q le => cutBefore_mono socket le) fits pos ready
    (Nat.lt_add_one_of_le (length_le_flatten nonempty))
  have returns := returns .new
  rw [Nat.sub_zero, List.drop_zero] at returns
  have recvRequest_eq : returned (recvRequest env memory socket) =
      (returned (recvHead env (socket.flatten.length + 1) (.new memory) [] socket)).bind
        fun r => recvRest env r.1 r.2.1 r.2.2 := by
    rw [recvRequest]
    match recvHead env (socket.flatten.length + 1) (.new memory) [] socket with
    | .error fault => rfl
    | .ok none => rfl
    | .ok (some (hp, kept, socket)) => rfl
  have start : HttpRequestParser.new memory = ⟨.init memory, .new, 0⟩ := rfl
  have begins : (HttpParser.init memory).cs = httpParserStart := rfl
  refine ⟨parser', ?_⟩
  rw [recvRequest_eq, start, returns, Option.bind_map, tokens, headRead, begins]
  refine congrArg (Option.bind _) (funext fun data => ?_)
  rw [Function.comp_apply]

end Body

end ServerFrame.Http
