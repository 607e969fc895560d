import ServerFrame.Http.ChunkSize

/-!
# What the headers of chunks announce

The size of a chunk is told by the bytes of its header and by where its reads begin, and with it the
place of the next header. So the size of a body in chunks can be read off the stream.
-/
namespace ServerFrame.Http

open Segments

/-! ## A header -/

/-- What a header says about a chunk, and what lies behind it: a stream whose first bytes are held in
the buffer, and the lengths of the segments in which the others come. -/
structure Announcement where
  size : Int
  isLast : Bool
  held : Nat
  lengths : List Nat
  stream : List UInt8
  deriving DecidableEq, Repr

/-- The header of a response in the place of a chunk header, which the parser takes as well. It
tells a size with `content-length`, and each read is parsed anew. -/
def replyRead (limit : Nat) : Nat → Nat → List Nat → List UInt8 → Option Announcement
  | 0, _, _, _ => none
  | _, _, [], _ => none
  | fuel + 1, held, s :: lengths, stream =>
    let n := min (limit - held) s
    match HttpResponseParser.new.execute (stream.take (held + n)) true with
    | .error _ => none
    | .ok (hp, kept) =>
      let rest := stream.drop (held + n - kept.length)
      if hp.hasError || kept.length = limit then none
      else if hp.isFinished then
        some ⟨hp.parser.contentLen, hp.parser.chunksDone, kept.length, skip n (s :: lengths), rest⟩
      else replyRead limit fuel kept.length (skip n (s :: lengths)) rest

/-- What stands at the front of `stream`. In the header of a chunk there is no blank. -/
def headerRead (limit held : Nat) (lengths : List Nat) (stream : List UInt8) : Option Announcement :=
  let front := stream.takeWhile (· ≠ 10)
  -- what is held is read at once
  let lengths := if held = 0 then lengths else held :: lengths
  if 32 ∈ front then replyRead limit (stream.length + 1) 0 lengths stream
  else if front = stream then none
  else
    let stop := readStop limit lengths front.length
    (sizeRead limit (front.length + 1) lengths (front ++ [10])).map fun n =>
      ⟨contentLen n, contentLen n ≤ 0, stop - (front.length + 1), skip stop lengths,
        stream.drop (front.length + 1)⟩

/-- The sizes in the headers of `stream` added to `sum`; `none` when one of them is refused or the
stream breaks off. -/
def announced (limit : Nat) : Nat → Nat → List Nat → List UInt8 → Nat → Option Nat
  | 0, _, _, _, _ => none
  | fuel + 1, held, lengths, stream, sum =>
    match headerRead limit held lengths stream with
    | none => none
    | some a =>
      let n := a.size.toNat
      -- the size -1 takes a byte off when nothing is held back behind its header
      if a.size = -1 ∧ a.held = 0 ∧ a.stream ≠ [] then
        if sum = 0 then none
        else if a.isLast then some (sum - 1)
        else announced limit fuel 0 (skip 1 a.lengths) (a.stream.drop 1) (sum - 1)
      else if a.size < 0 ∨ 2 ^ 31 - 2 ≤ n ∨ a.stream.length < n + 2 then none
      else if a.isLast then some (sum + n)
      else
        announced limit fuel (a.held - (n + 2)) (skip (n + 2 - a.held) a.lengths)
          (a.stream.drop (n + 2)) (sum + n)

/-! ## What was read before does not matter -/

/-- The same parser with the same error, behind different headers. -/
structure Alike (hp hp' : HttpResponseParser) : Prop where
  parser : hp'.parser = hp.parser
  error : hp'.error = hp.error

section Alike

variable {buffer bytes kept : List UInt8} {p q : Nat} {hp hp₁ hp' : HttpResponseParser}

theorem Alike.hasError (alike : Alike hp hp') : hp'.hasError = hp.hasError := by
  rw [HttpResponseParser.hasError, HttpResponseParser.hasError, alike.parser, alike.error]

theorem Alike.isFinished (alike : Alike hp hp') : hp'.isFinished = hp.isFinished := by
  rw [HttpResponseParser.isFinished, HttpResponseParser.isFinished, alike.parser]

theorem Alike.setCs (alike : Alike hp hp') (cs : Nat) : Alike (hp.setCs cs) (hp'.setCs cs) := by
  refine ⟨?_, alike.error⟩
  rw [HttpResponseParser.setCs, HttpResponseParser.setCs, alike.parser]

theorem Alike.field (alike : Alike hp hp₁) {field value : List UInt8} {flen vlen : Nat}
    (ran : hp.onResponseHttpField field flen value vlen = .ok hp') :
    ∃ hp₁', hp₁.onResponseHttpField field flen value vlen = .ok hp₁' ∧ Alike hp' hp₁' := by
  rw [HttpResponseParser.onResponseHttpField] at ran ⊢
  split at ran
  next empty =>
    cases ran
    exact ⟨hp₁, if_pos empty, alike⟩
  next named =>
    obtain ⟨name, is_name, named'⟩ := EState.except_bind_ok ran
    obtain ⟨text, is_text, valued⟩ := EState.except_bind_ok named'
    cases valued
    rw [if_neg named, is_name, is_text]
    exact ⟨_, rfl, alike.parser, alike.error⟩

theorem Alike.version (alike : Alike hp hp') (chars : List UInt8) (length : Nat) :
    Alike (hp.onResponseVersion chars length) (hp'.onResponseVersion chars length) := by
  rw [HttpResponseParser.onResponseVersion, HttpResponseParser.onResponseVersion]
  split
  · exact ⟨alike.parser, alike.error⟩
  · split
    · exact ⟨alike.parser, alike.error⟩
    · exact ⟨alike.parser, rfl⟩

theorem Alike.act (alike : Alike hp hp₁) {a : ClientAct}
    (acted : HttpResponseParser.act buffer p hp a = .ok hp') :
    ∃ hp₁', HttpResponseParser.act buffer p hp₁ a = .ok hp₁' ∧ Alike hp' hp₁' := by
  obtain ⟨same_state, same_error⟩ := alike
  cases a with
  | writeValue =>
    rw [HttpResponseParser.act] at acted ⊢
    rw [same_state]
    exact Alike.field ⟨same_state, same_error⟩ acted
  | reasonPhrase =>
    obtain ⟨reason, is_reason, set⟩ := EState.except_bind_ok acted
    cases set
    rw [HttpResponseParser.act, HttpResponseParser.onResponseReason, same_state, is_reason]
    exact ⟨_, rfl, rfl, same_error⟩
  | httpVersion =>
    cases acted
    rw [HttpResponseParser.act, same_state]
    exact ⟨_, rfl, Alike.version ⟨same_state, same_error⟩ ..⟩
  | _ =>
    cases acted
    refine ⟨_, rfl, ?_, same_error⟩
    simp only [same_state, HttpResponseParser.onResponseStatus]

theorem Alike.acts (alike : Alike hp hp₁) {acts : List ClientAct}
    (acted : acts.foldlM (HttpResponseParser.act buffer p) hp = .ok hp') :
    ∃ hp₁', acts.foldlM (HttpResponseParser.act buffer p) hp₁ = .ok hp₁' ∧ Alike hp' hp₁' := by
  induction acts generalizing hp hp₁ with
  | nil =>
    cases acted
    exact ⟨hp₁, rfl, alike⟩
  | cons a acts ih =>
    rw [List.foldlM_cons] at acted
    obtain ⟨hp₂, first, later⟩ := EState.except_bind_ok acted
    obtain ⟨hp₃, first', alike'⟩ := alike.act first
    rw [List.foldlM_cons, first']
    exact ih alike' later

theorem Alike.exec (alike : Alike hp hp₁)
    (ran : HttpResponseParser.exec buffer p hp bytes = .ok (hp', q)) :
    ∃ hp₁', HttpResponseParser.exec buffer p hp₁ bytes = .ok (hp₁', q) ∧ Alike hp' hp₁' := by
  induction bytes generalizing p hp hp₁ with
  | nil =>
    cases ran
    exact ⟨hp₁, rfl, alike⟩
  | cons b bytes ih =>
    rw [HttpResponseParser.exec] at ran ⊢
    rw [alike.parser]
    cases moves : clientTransition hp.parser.cs b with
    | none =>
      rw [moves] at ran
      cases ran
      exact ⟨_, rfl, alike.setCs _⟩
    | some edge =>
      obtain ⟨target, acts⟩ := edge
      rw [moves] at ran
      obtain ⟨hp₂, acted, later⟩ := EState.except_bind_ok ran
      obtain ⟨hp₃, acted', alike'⟩ := alike.acts acted
      dsimp only
      rw [acted']
      by_cases is_done : .done ∈ acts
      · rw [if_pos is_done] at later
        cases later
        exact ⟨_, if_pos is_done, alike'.setCs target⟩
      · rw [if_neg is_done] at later
        obtain ⟨hp₄, ran', alike''⟩ := ih (alike'.setCs target) later
        exact ⟨hp₄, (if_neg is_done).trans ran', alike''⟩

/-- A call of `Execute` for a chunk begins anew. -/
theorem execute_alike (same : hp₁.error = hp.error) (ran : hp.execute buffer true = .ok (hp', kept)) :
    ∃ hp₁', hp₁.execute buffer true = .ok (hp₁', kept) ∧ Alike hp' hp₁' := by
  obtain ⟨⟨hp₂, n⟩, executed, tested⟩ := EState.except_bind_ok ran
  have alike : Alike ({ hp with parser := .init } : HttpResponseParser).enter
      ({ hp₁ with parser := .init } : HttpResponseParser).enter := ⟨rfl, same⟩
  obtain ⟨hp₃, executed', alike'⟩ := alike.exec executed
  dsimp only at tested
  rw [HttpResponseParser.execute, if_pos rfl, executed']
  simp only [bind, Except.bind, alike'.parser]
  split at tested
  next => cases tested
  next asserted =>
    split at tested
    next => cases tested
    next checked =>
      cases tested
      rw [if_neg asserted, if_neg checked]
      exact ⟨_, rfl, rfl, alike'.error⟩

end Alike

/-! ## The reads of a header -/

/-- `stream` begins with what is held, and goes on in segments of these lengths. -/
structure Lies (env : ClientEnv) (held : Nat) (lengths : List Nat) (stream kept : List UInt8)
    (socket : Socket) : Prop where
  fits : kept.length ≤ env.bufferSize
  nonempty : ∀ s ∈ socket, s ≠ []
  held : kept.length = held
  lengths : socket.map List.length = lengths
  stream : kept ++ socket.flatten = stream

/-- The parser and the connection behind a header. -/
structure Behind (env : ClientEnv) (a : Announcement) (hp : HttpResponseParser) (kept : List UInt8)
    (socket : Socket) : Prop extends Lies env a.held a.lengths a.stream kept socket where
  contentLen : hp.parser.contentLen = a.size
  chunksDone : hp.parser.chunksDone = a.isLast
  no_error : hp.error = 0

section Reads

variable {env : ClientEnv} {fuel n held : Nat} {start : Bool} {hp : HttpResponseParser}
  {lengths : List Nat} {stream kept body : List UInt8} {socket : Socket}

/-- Behind the next `m` bytes. -/
theorem Lies.drop (lies : Lies env held lengths stream kept socket) (m : Nat) :
    Lies env (held - m) (skip (m - held) lengths) (stream.drop m) (kept.drop m)
      (dropFront (m - held) socket) := by
  constructor
  · rw [List.length_drop]
    exact (Nat.sub_le ..).trans lies.fits
  · exact fun s member => ne_nil_of_mem_dropFront lies.nonempty member
  · rw [List.length_drop, lies.held]
  · rw [map_length_dropFront, lies.lengths]
  · rw [flatten_dropFront, ← lies.stream, List.drop_append, lies.held]

theorem refill_held {s : List UInt8} (less : kept.length < env.bufferSize)
    (nonempty : ∀ t ∈ s :: socket, t ≠ []) :
    refill env kept (s :: socket) =
      some (kept ++ s.take (min (env.bufferSize - kept.length) s.length),
        dropFront (min (env.bufferSize - kept.length) s.length) (s :: socket)) := by
  have s_pos : 0 < s.length := List.length_pos_iff.mpr (nonempty s (List.mem_cons_self ..))
  have rest_ne : ∀ t ∈ socket, t ≠ [] := fun t member => nonempty t (List.mem_cons_of_mem _ member)
  have small := env.small
  have front := @read_eq s socket rest_ne (env.bufferSize - kept.length)
  have same : s.take (env.bufferSize - kept.length) =
      s.take (min (env.bufferSize - kept.length) s.length) := by
    rw [List.take_eq_take_iff, Nat.min_assoc, Nat.min_self]
  rw [Nat.min_eq_left (by omega), same] at front
  have got_ne : s.take (min (env.bufferSize - kept.length) s.length) ≠ [] := by
    rw [← List.length_pos_iff, List.length_take]
    omega
  rw [refill, front]
  exact if_neg got_ne

/-- What was parsed before does not matter to the next header. -/
theorem parse_fresh (no_error : hp.error = 0) (buffer : List UInt8) :
    match HttpResponseParser.new.execute buffer true with
    | .error _ => ∀ result, parse env hp buffer true ≠ .ok (some result)
    | .ok (hp₀, kept) =>
      if hp₀.hasError || kept.length = env.bufferSize then parse env hp buffer true = .ok none
      else ∃ hp', parse env hp buffer true = .ok (some (hp', kept)) ∧ Alike hp₀ hp' := by
  cases executed : HttpResponseParser.new.execute buffer true with
  | error fault =>
    intro result ran
    have fresh : HttpResponseParser.new.error = hp.error := no_error.symm
    obtain ⟨hp', is_hp', -⟩ := execute_alike fresh (parse_ok ran).1
    rw [executed] at is_hp'
    cases is_hp'
  | ok result =>
    obtain ⟨hp₀, kept⟩ := result
    have fresh : hp.error = HttpResponseParser.new.error := no_error
    obtain ⟨hp', ran, alike⟩ := execute_alike fresh executed
    dsimp only
    simp only [parse, ran, bind, Except.bind, alike.hasError, pure, Except.pure, Bool.or_eq_true,
      decide_eq_true_eq]
    by_cases fails : hp₀.hasError = true
    · rw [if_pos (.inl fails), if_pos fails]
    · by_cases full : kept.length = env.bufferSize
      · rw [if_pos (.inr full), if_neg fails, if_pos full]
      · rw [if_neg (not_or.mpr ⟨fails, full⟩), if_neg fails, if_neg full]
        exact ⟨hp', rfl, alike⟩

/-- What the parser leaves of a buffer that was refilled. -/
theorem lies_refilled {s : List UInt8} {count q : Nat} (fits : kept.length + count ≤ env.bufferSize)
    (within : count ≤ s.length) (nonempty : ∀ t ∈ s :: socket, t ≠ []) {kept' : List UInt8}
    (kept_eq : kept' = (kept ++ s.take count).drop q) :
    (kept ++ (s :: socket).flatten).take (kept.length + count) = kept ++ s.take count ∧
    (dropFront count (s :: socket)).flatten.length + count = (s :: socket).flatten.length ∧
    Lies env kept'.length (skip count ((s :: socket).map List.length))
      ((kept ++ (s :: socket).flatten).drop (kept.length + count - kept'.length)) kept'
      (dropFront count (s :: socket)) := by
  have buffer_length : (kept ++ s.take count).length = kept.length + count := by
    rw [List.length_append, List.length_take_of_le within]
  have whole : (kept ++ s.take count) ++ (dropFront count (s :: socket)).flatten =
      kept ++ (s :: socket).flatten := by
    rw [flatten_dropFront, List.append_assoc, List.flatten_cons, List.drop_append_of_le_length within,
      ← List.append_assoc (s.take count), List.take_append_drop]
  have lengths_eq := congrArg List.length whole
  rw [List.length_append, buffer_length, List.length_append] at lengths_eq
  have shorter : kept'.length ≤ kept.length + count := by
    rw [kept_eq, List.length_drop, buffer_length]
    exact Nat.sub_le ..
  have kept_back : kept' = (kept ++ s.take count).drop (kept.length + count - kept'.length) := by
    rw [← buffer_length, kept_eq, List.length_drop]
    by_cases inside : q ≤ (kept ++ s.take count).length
    · rw [Nat.sub_sub_self inside]
    · rw [List.drop_of_length_le (by omega), List.drop_of_length_le (by omega)]
  refine ⟨?_, by omega, shorter.trans fits, fun t member => ne_nil_of_mem_dropFront nonempty member, rfl,
    map_length_dropFront .., ?_⟩
  · rw [← whole, ← buffer_length, List.take_left]
  · rw [← whole, List.drop_append_of_le_length (by omega), ← kept_back]

/-- The reads of a header, when each begins with a read from the connection. -/
theorem recvSize_reply (no_error : hp.error = 0) (begins : start = false ∨ kept = [])
    (lies : Lies env held lengths stream kept socket) (less : kept.length < env.bufferSize)
    (enough : socket = [] ∨ socket.flatten.length + 1 <
      fuel + min (env.bufferSize - kept.length) (socket.headD []).length)
    (steps : socket.flatten.length < n) :
    match replyRead env.bufferSize n held lengths stream with
    | none => ∀ result, recvSize env fuel start hp kept socket ≠ .ok (some result)
    | some a => ∃ hp' kept' socket',
      recvSize env fuel start hp kept socket = .ok (some (hp', kept', socket')) ∧
        Behind env a hp' kept' socket' := by
  induction n generalizing fuel start hp held lengths stream kept socket with
  | zero => exact absurd steps (Nat.not_lt_zero _)
  | succ n ih =>
    obtain ⟨-, nonempty, rfl, rfl, rfl⟩ := lies
    have reads : ∀ socket : Socket, (if !start || kept = [] then refill env kept socket
        else some (kept, socket)) = refill env kept socket := by
      intro socket
      rcases begins with rfl | rfl
      · rfl
      · simp
    cases socket with
    | nil =>
      intro result ran
      cases fuel with
      | zero => cases ran
      | succ fuel =>
        rw [recvSize_unfilled (by rw [reads]; simp [refill, read])] at ran
        cases ran
    | cons s socket =>
      obtain ⟨fuel, rfl⟩ : ∃ m, fuel = m + 1 := by
        rcases enough with none_left | enough
        · cases none_left
        · rw [List.flatten_cons, List.length_append, List.headD_cons] at enough
          exact ⟨fuel - 1, by omega⟩
      have s_pos : 0 < s.length := List.length_pos_iff.mpr (nonempty s (List.mem_cons_self ..))
      obtain ⟨count, count_eq⟩ : ∃ count, count = min (env.bufferSize - kept.length) s.length := ⟨_, rfl⟩
      have filled := (reads (s :: socket)).trans (refill_held less nonempty)
      rw [← count_eq] at filled
      have refilled := fun {q : Nat} {kept' : List UInt8} => @lies_refilled env kept socket s count q
        (by omega) (by omega) nonempty kept'
      rw [List.map_cons] at refilled
      rw [List.map_cons, replyRead]
      dsimp only
      rw [← count_eq, (refilled (q := 0) rfl).1, recvSize_filled filled]
      have parsed := @parse_fresh env hp no_error (kept ++ s.take count)
      cases executed : HttpResponseParser.new.execute (kept ++ s.take count) true with
      | error fault =>
        rw [executed] at parsed
        intro result ran
        obtain ⟨taken, is_taken, later⟩ := EState.except_bind_ok ran
        cases taken with
        | none => cases later
        | some taken => exact parsed taken is_taken
      | ok result =>
        obtain ⟨hp₀, kept₀⟩ := result
        rw [executed] at parsed
        dsimp only at parsed ⊢
        by_cases refused : (hp₀.hasError || kept₀.length = env.bufferSize) = true
        · rw [if_pos refused] at parsed ⊢
          rw [parsed]
          intro result ran
          cases ran
        · rw [if_neg refused] at parsed ⊢
          obtain ⟨hp', is_parsed, alike⟩ := parsed
          obtain ⟨fine, -⟩ := parse_keeps is_parsed
          obtain ⟨-, q, -, -, kept_eq⟩ := execute_ok executed
          obtain ⟨-, total, behind⟩ := refilled kept_eq
          have fits := behind.fits
          rw [is_parsed]
          simp only [Except.bind, alike.isFinished]
          by_cases finished : hp₀.isFinished = true
          · rw [if_pos finished, if_pos finished]
            refine ⟨hp', kept₀, _, rfl, behind, ?_, ?_, fine⟩
            · rw [alike.parser]
            · rw [alike.parser]
          · rw [if_neg finished, if_neg finished]
            rcases enough with none_left | enough
            · cases none_left
            · rw [List.headD_cons, ← count_eq] at enough
              have count_pos : 0 < count := by omega
              refine ih fine (.inl rfl) behind ?_ ?_ (by omega)
              · rw [Bool.or_eq_true, decide_eq_true_eq, not_or] at refused
                omega
              · by_cases ended : dropFront count (s :: socket) = []
                · exact .inl ended
                · obtain ⟨t, left, more⟩ := List.exists_cons_of_ne_nil ended
                  have t_pos := List.length_pos_iff.mpr
                    (behind.nonempty t (more ▸ List.mem_cons_self ..))
                  rw [more] at total ⊢
                  rw [Bool.or_eq_true, decide_eq_true_eq, not_or] at refused
                  rw [List.headD_cons]
                  exact .inr (by omega)

/-- Without a line feed no header is complete. -/
theorem recvSize_unfed (room : 0 < env.bufferSize) (plain : Unbroken socket.flatten)
    (no_error : hp.error = 0) (nonempty : ∀ s ∈ socket, s ≠ []) :
    recvSize env fuel start hp [] socket = .ok none := by
  induction fuel generalizing start hp socket with
  | zero => rfl
  | succ fuel ih =>
    cases socket with
    | nil => exact recvSize_unfilled (by simp [refill, read])
    | cons s socket =>
      obtain ⟨got, left, filled, brings⟩ := refill_nil room nonempty
      have got_length := brings.length
      have reads : (if !start || ([] : List UInt8) = [] then refill env [] (s :: socket)
          else some ([], s :: socket)) = some (got, left) := by simp [filled]
      rw [brings.flatten] at plain
      have part_plain : Unbroken got := fun b member => plain b (List.mem_append_left _ member)
      have rest_plain : Unbroken left.flatten := fun b member => plain b (List.mem_append_right _ member)
      rw [recvSize_filled reads]
      obtain ⟨stops, goes_on⟩ := @parse_part env hp _ room (by omega) brings.got_ne part_plain no_error
      by_cases accepted : walk 1 got = none
      · rw [stops accepted]
        rfl
      · obtain ⟨hp', parsed, not_finished, fine⟩ := goes_on accepted
        rw [parsed]
        simp only [Except.bind, not_finished, Bool.false_eq_true, if_false]
        exact ih rest_plain fine brings.nonempty

/-- The header of a chunk, which ends with the first line feed. -/
theorem recvSize_line {front rest : List UInt8} (room : 0 < env.bufferSize) (no_error : hp.error = 0)
    (nonempty : ∀ s ∈ socket, s ≠ []) (plain : Unbroken front)
    (stream : socket.flatten = front ++ 10 :: rest)
    (enough : socket.flatten.length + 1 < fuel + min env.bufferSize (socket.headD []).length) :
    match (sizeRead env.bufferSize (front.length + 1) (socket.map List.length) (front ++ [10])).map
      fun n => (⟨contentLen n, contentLen n ≤ 0,
        readStop env.bufferSize (socket.map List.length) front.length - (front.length + 1),
        skip (readStop env.bufferSize (socket.map List.length) front.length) (socket.map List.length),
        rest⟩ : Announcement) with
    | none => ∀ result, recvSize env fuel start hp [] socket ≠ .ok (some result)
    | some a => ∃ hp' kept' socket',
      recvSize env fuel start hp [] socket = .ok (some (hp', kept', socket')) ∧
        Behind env a hp' kept' socket' := by
  have reads := @recvSize_header env _ (front.length + 1) start hp front rest socket room plain no_error
    nonempty stream enough (Nat.lt_succ_self _)
  cases shown : sizeRead env.bufferSize (front.length + 1) (socket.map List.length) (front ++ [10]) with
  | none =>
    rw [shown] at reads
    intro result ran
    rw [reads] at ran
    cases ran
  | some n =>
    rw [shown] at reads
    obtain ⟨hp', kept', socket', ran, sized, fine, together, fits, nonempty', kept_eq, socket_eq⟩ := reads
    have total : (socket.map List.length).sum = front.length + 1 + rest.length := by
      rw [← List.length_flatten, stream, List.length_append, List.length_cons]
      omega
    obtain ⟨-, within, -⟩ := @readStop_bounds _ room (socket.map List.length) front.length (by omega)
    refine ⟨hp', kept', socket', ran, ⟨fits, nonempty', ?_, ?_, together⟩, sized.contentLen,
      sized.chunksDone, fine⟩
    · dsimp only
      rw [kept_eq, List.length_take]
      omega
    · rw [socket_eq, map_length_dropFront]

/-- The bytes in front of the first line feed, if there is one, and what is behind it. -/
theorem exists_of_takeWhile (other : stream.takeWhile (· ≠ 10) ≠ stream) :
    ∃ rest, stream = stream.takeWhile (· ≠ 10) ++ 10 :: rest := by
  induction stream with
  | nil => exact absurd rfl other
  | cons b stream ih =>
    by_cases here : b = 10
    · exact ⟨stream, by simp [here]⟩
    · have more : (b :: stream).takeWhile (· ≠ 10) = b :: stream.takeWhile (· ≠ 10) := by simp [here]
      rw [more] at other ⊢
      obtain ⟨rest, split⟩ := ih fun same => other (congrArg _ same)
      exact ⟨rest, congrArg _ split⟩

/-- The loop for a header reads what it announces. -/
theorem recvSize_announced (room : 0 < env.bufferSize) (no_error : hp.error = 0)
    (lies : Lies env held lengths stream kept socket) :
    match headerRead env.bufferSize held lengths stream with
    | none => ∀ result, recvSize env (socket.flatten.length + 2) true hp kept socket ≠ .ok (some result)
    | some a => ∃ hp' kept' socket',
      recvSize env (socket.flatten.length + 2) true hp kept socket = .ok (some (hp', kept', socket')) ∧
        Behind env a hp' kept' socket' := by
  obtain ⟨fits, nonempty, rfl, rfl, rfl⟩ := lies
  have joined_lengths : (if kept.length = 0 then socket.map List.length
      else kept.length :: socket.map List.length) = (joined kept socket).map List.length := by
    by_cases empty : kept = []
    · rw [if_pos (List.length_eq_zero_iff.mpr empty), empty, joined_nil]
    · rw [if_neg fun zero => empty (List.length_eq_zero_iff.mp zero), joined_of_ne empty, List.map_cons]
  have enough := @joined_enough env.bufferSize kept socket fits
  have joined_ne := @Http.joined_ne kept socket nonempty
  have stream_eq := flatten_joined kept socket
  rw [headerRead]
  dsimp only
  rw [joined_lengths, recvSize_joined fits]
  obtain ⟨front, front_eq⟩ : ∃ front, front = (kept ++ socket.flatten).takeWhile (· ≠ 10) := ⟨_, rfl⟩
  rw [← front_eq]
  by_cases blank : 32 ∈ front
  · rw [if_pos blank]
    refine recvSize_reply no_error (.inr rfl) ⟨Nat.zero_le _, joined_ne, rfl, rfl, stream_eq⟩ room ?_ ?_
    · exact .inr enough
    · rw [stream_eq]
      exact Nat.lt_succ_self _
  · rw [if_neg blank]
    have plain : Unbroken front := by
      intro b member
      refine ⟨?_, fun is_blank => blank (is_blank ▸ member)⟩
      rw [front_eq] at member
      simpa using List.mem_takeWhile_imp member
    by_cases unfed : front = kept ++ socket.flatten
    · rw [if_pos unfed]
      intro result ran
      rw [recvSize_unfed room (by rw [stream_eq, ← unfed]; exact plain) no_error joined_ne] at ran
      cases ran
    · rw [if_neg unfed]
      obtain ⟨rest, split⟩ : ∃ rest, kept ++ socket.flatten = front ++ 10 :: rest := by
        rw [front_eq] at unfed ⊢
        exact exists_of_takeWhile unfed
      have rest_eq : (front ++ 10 :: rest).drop (front.length + 1) = rest := by
        rw [← List.drop_drop, List.drop_left]
        rfl
      rw [split, rest_eq]
      exact recvSize_line room no_error joined_ne plain (stream_eq.trans split) enough

end Reads

/-! ## The data of a chunk -/

section Data

variable {env : ClientEnv} {n : Nat} {hp : HttpResponseParser} {kept body : List UInt8} {socket : Socket}

theorem chunkData_small (room : 0 < env.bufferSize) (nonempty : ∀ s ∈ socket, s ≠ [])
    (sized : hp.parser.contentLen = n) (small : n < 2 ^ 31 - 2)
    (there : n + 2 ≤ (kept ++ socket.flatten).length) :
    chunkData env hp kept socket body =
      .ok (some (hp, body ++ (kept ++ socket.flatten).take n, kept.drop (n + 2),
        dropFront (n + 2 - kept.length) socket)) := by
  rw [chunkData, sized, recvData_eq room small nonempty there]
  rfl

/-- The size -1, when nothing is held back: one byte is read, and two are taken off. -/
theorem chunkData_negative (room : 0 < env.bufferSize) (nonempty : ∀ s ∈ socket, s ≠ [])
    (sized : hp.parser.contentLen = -1) (more : socket.flatten ≠ []) :
    chunkData env hp [] socket body =
      if body = [] then .error .lengthError
      else .ok (some (hp, body.take (body.length - 1), [], dropFront 1 socket)) := by
  have pos := List.length_pos_iff.mpr more
  have count : ((-1 : Int) - ([] : List UInt8).length + 2).toNat = 1 := rfl
  have got := @recvLeft_eq env room 1 1 socket nonempty (Nat.le_refl 1) pos
  have length_eq : (body ++ [] ++ socket.flatten.take 1).length = body.length + 1 := by
    rw [List.append_nil, List.length_append, List.length_take_of_le pos]
  have not_large : ¬ (0x80000000 : Int) ≤ -1 + 2 := by decide
  have not_held : ¬ (-1 : Int) + 2 ≤ ([] : List UInt8).length := by decide
  rw [chunkData, sized, recvData, if_neg not_large, if_neg not_held, count]
  dsimp only
  rw [got]
  dsimp only
  rw [length_eq]
  cases body with
  | nil => rfl
  | cons b body =>
    have front : (b :: body ++ [] ++ socket.flatten.take 1).take ((b :: body).length + 1 - 2) =
        (b :: body).take ((b :: body).length - 1) := by
      rw [List.append_nil]
      exact List.take_append_of_le_length (by omega)
    rw [front, if_neg (by rw [List.length_cons]; omega), if_neg (List.cons_ne_nil b body)]
    rfl

/-- Other sizes are refused, or the stream breaks off. -/
theorem chunkData_refused (room : 0 < env.bufferSize) (nonempty : ∀ s ∈ socket, s ≠ [])
    (negative : ¬ (hp.parser.contentLen = -1 ∧ kept = [] ∧ socket.flatten ≠ []))
    (large : hp.parser.contentLen < 0 ∨ 2 ^ 31 - 2 ≤ hp.parser.contentLen.toNat ∨
      (kept ++ socket.flatten).length < hp.parser.contentLen.toNat + 2)
    (result : HttpResponseParser × List UInt8 × List UInt8 × Socket) :
    chunkData env hp kept socket body ≠ .ok (some result) := by
  obtain ⟨size, size_eq⟩ : ∃ size, size = hp.parser.contentLen := ⟨_, rfl⟩
  rw [← size_eq] at negative large
  rw [List.length_append] at large
  have short : ∀ m : Nat, socket.flatten.length < m → recvLeft env m m socket = none :=
    fun m => recvLeft_short room nonempty
  intro ran
  rw [chunkData, ← size_eq, recvData] at ran
  by_cases overflow : 0x80000000 ≤ size + 2
  · rw [if_pos overflow] at ran
    cases ran
  · rw [if_neg overflow] at ran
    by_cases enough : size + 2 ≤ kept.length
    · rw [if_pos enough, if_pos (by omega)] at ran
      cases ran
    · have breaks_off : socket.flatten.length < (size - kept.length + 2).toNat := by
        by_cases below : size < 0
        · have none_held : kept = [] := List.eq_nil_of_length_eq_zero (by omega)
          have ended : socket.flatten = [] := by
            by_contra more
            exact negative ⟨by omega, none_held, more⟩
          rw [ended, none_held, List.length_nil]
          omega
        · omega
      rw [if_neg enough] at ran
      dsimp only at ran
      rw [short _ breaks_off] at ran
      cases ran

end Data

/-! ## All chunks -/

section Run

variable {env : ClientEnv} {fuel held : Nat} {hp : HttpResponseParser} {lengths : List Nat}
  {stream kept body : List UInt8} {socket : Socket}

/-- Behind a header that is refused nothing is returned. -/
theorem recvChunks_refused {fuel : Nat}
    (refused : ∀ result, recvChunk env hp kept socket body ≠ .ok (some result)) :
    ∀ result, recvChunks env fuel hp kept socket body ≠ .ok (some result) := by
  intro result ran
  cases fuel with
  | zero => cases ran
  | succ fuel =>
    rw [recvChunks_turn] at ran
    obtain ⟨turn, is_turn, later⟩ := EState.except_bind_ok ran
    cases turn with
    | none => cases later
    | some taken => exact refused taken is_turn

/-- The loop ends behind a chunk of the size 0, or of a negative size. -/
theorem recvChunks_last {hp₁ : HttpResponseParser} {body₁ kept₁ : List UInt8} {socket₁ : Socket}
    (turn : recvChunk env hp kept socket body = .ok (some (hp₁, body₁, kept₁, socket₁)))
    (done : hp₁.parser.chunksDone = true) :
    recvChunks env (fuel + 1) hp kept socket body = .ok (some (hp₁, body₁, socket₁)) := by
  rw [recvChunks_turn, turn]
  simp only [Except.bind, done, if_true]

theorem recvChunks_next {hp₁ : HttpResponseParser} {body₁ kept₁ : List UInt8} {socket₁ : Socket}
    (turn : recvChunk env hp kept socket body = .ok (some (hp₁, body₁, kept₁, socket₁)))
    (goes_on : ¬ hp₁.parser.chunksDone = true) :
    recvChunks env (fuel + 1) hp kept socket body = recvChunks env fuel hp₁ kept₁ socket₁ body₁ := by
  rw [recvChunks_turn, turn]
  simp only [Except.bind]
  rw [if_neg goes_on]

/-- What the loop returns has the size that the headers announce, and it returns nothing where they
announce none. -/
theorem recvChunks_announced (room : 0 < env.bufferSize) (no_error : hp.error = 0)
    (lies : Lies env held lengths stream kept socket) :
    match announced env.bufferSize fuel held lengths stream body.length with
    | none => ∀ result, recvChunks env fuel hp kept socket body ≠ .ok (some result)
    | some n => ∃ hp' body' socket',
      recvChunks env fuel hp kept socket body = .ok (some (hp', body', socket')) ∧ body'.length = n := by
  induction fuel generalizing hp held lengths stream kept socket body with
  | zero => exact fun result ran => by cases ran
  | succ fuel ih =>
    have header := recvSize_announced room no_error lies
    rw [announced]
    cases told : headerRead env.bufferSize held lengths stream with
    | none =>
      rw [told] at header
      refine recvChunks_refused fun result ran => ?_
      obtain ⟨taken, is_taken, later⟩ := EState.except_bind_ok ran
      cases taken with
      | none => cases later
      | some taken => exact header taken is_taken
    | some a =>
      rw [told] at header
      obtain ⟨hp₁, kept₁, socket₁, ran, behind⟩ := header
      have turn : recvChunk env hp kept socket body = chunkData env hp₁ kept₁ socket₁ body := by
        rw [recvChunk, ran]
        rfl
      have stream_length := congrArg List.length behind.stream
      have none_kept : kept₁ = [] ↔ a.held = 0 := by rw [← List.length_eq_zero_iff, behind.held]
      dsimp only
      by_cases negative : a.size = -1 ∧ a.held = 0 ∧ a.stream ≠ []
      · rw [if_pos negative]
        obtain ⟨is_negative, none_held, more⟩ := negative
        obtain rfl := none_kept.mpr none_held
        have flat : socket₁.flatten = a.stream := by rw [← behind.stream, List.nil_append]
        have data := @chunkData_negative env hp₁ body socket₁ room behind.nonempty
          (behind.contentLen.trans is_negative) (flat ▸ more)
        rw [← turn] at data
        by_cases empty : body = []
        · rw [if_pos empty] at data
          rw [if_pos (List.length_eq_zero_iff.mpr empty)]
          refine recvChunks_refused fun result ran => ?_
          rw [data] at ran
          cases ran
        · have length_eq : (body.take (body.length - 1)).length = body.length - 1 := by
            rw [List.length_take]
            omega
          rw [if_neg empty] at data
          rw [if_neg fun zero => empty (List.length_eq_zero_iff.mp zero)]
          by_cases last : a.isLast = true
          · rw [if_pos last]
            exact ⟨_, _, _, recvChunks_last data (behind.chunksDone.trans last), length_eq⟩
          · have rest := behind.toLies.drop 1
            rw [none_held] at rest
            have later := @ih _ hp₁ _ _ _ (body.take (body.length - 1)) _ behind.no_error rest
            rw [length_eq] at later
            rw [if_neg last, recvChunks_next data (behind.chunksDone ▸ last)]
            exact later
      · rw [if_neg negative]
        by_cases large : a.size < 0 ∨ 2 ^ 31 - 2 ≤ a.size.toNat ∨ a.stream.length < a.size.toNat + 2
        · rw [if_pos large]
          refine recvChunks_refused fun result ran => ?_
          rw [turn] at ran
          refine chunkData_refused room behind.nonempty ?_ ?_ result ran
          · rintro ⟨is_negative, none_held, more⟩
            rw [← behind.stream, none_held, List.nil_append] at negative
            exact negative ⟨behind.contentLen ▸ is_negative, none_kept.mp none_held, more⟩
          · rw [behind.contentLen, behind.stream]
            exact large
        · rw [if_neg large]
          rw [not_or, not_or] at large
          obtain ⟨positive, small, there⟩ := large
          have data := @chunkData_small env a.size.toNat hp₁ kept₁ body socket₁ room behind.nonempty
            (by rw [behind.contentLen]; omega) (by omega) (by rw [behind.stream]; omega)
          rw [← turn, behind.stream, behind.held] at data
          have length_eq : (body ++ a.stream.take a.size.toNat).length = body.length + a.size.toNat := by
            rw [List.length_append, List.length_take]
            omega
          by_cases last : a.isLast = true
          · rw [if_pos last]
            exact ⟨_, _, _, recvChunks_last data (behind.chunksDone.trans last), length_eq⟩
          · rw [if_neg last, recvChunks_next data (behind.chunksDone ▸ last), ← length_eq]
            exact ih behind.no_error (behind.toLies.drop (a.size.toNat + 2))

end Run

/-- A response in the place of a chunk header, with a chunk in front of it and the last one behind. -/
example :
    let stream := ascii "2\r\nab\r\nHTTP/1.1 200 OK\r\ncontent-length: 3\r\n\r\ncde\r\n0\r\n\r\n"
    announced 4096 4 0 [stream.length] stream 0 = some 5 := by
  decide +kernel

end ServerFrame.Http
