import ServerFrame.Http.ChunkHeader
import ServerFrame.Http.ChunkedBody

/-!
# The arithmetic of chunk sizes

`strtol` stops at the largest `long`, and an `int` holds the lower half of it. What is left
of the size is compared with zero and added to.
-/
namespace ServerFrame.Http

open Segments

/-! ## The reads of a header -/

/-- The value of the size field that the parser sees of the header `line`, which arrives in
reads of at most `limit` bytes: each part is a header of its own, and the last one counts.
`none` when a part is no header and no beginning of one. -/
def sizeRead (limit : Nat) : Nat → List Nat → List UInt8 → Option Nat
  | 0, _, _ => none
  | _, [], _ => none
  | fuel + 1, s :: lengths, line =>
    let part := line.take (min limit s)
    if walk 1 part = none then none
    else if line.length ≤ min limit s then some (hexValue (sizeField part))
    else sizeRead limit fuel (readOnce limit s lengths) (line.drop (min limit s))

section Reads

variable {env : ClientEnv} {fuel n : Nat} {start : Bool} {hp : HttpResponseParser}
  {front rest : List UInt8} {socket : Socket}

/-- The loop for a header takes the size that its reads show. -/
theorem recvSize_header (room : 0 < env.bufferSize) (plain : Unbroken front) (no_error : hp.error = 0)
    (nonempty : ∀ s ∈ socket, s ≠ []) (stream : socket.flatten = front ++ 10 :: rest)
    (enough : socket.flatten.length + 1 < fuel + min env.bufferSize (socket.headD []).length)
    (steps : front.length < n) :
    match sizeRead env.bufferSize n (socket.map List.length) (front ++ [10]) with
    | none => recvSize env fuel start hp [] socket = .ok none
    | some size => ∃ hp' kept' socket',
      recvSize env fuel start hp [] socket = .ok (some (hp', kept', socket')) ∧
        Sized (contentLen size) hp' ∧ hp'.error = 0 ∧ kept' ++ socket'.flatten = rest ∧
        kept'.length ≤ env.bufferSize ∧ (∀ s ∈ socket', s ≠ []) ∧
        kept' = rest.take (readStop env.bufferSize (socket.map List.length) front.length -
          (front.length + 1)) ∧
        socket' = dropFront (readStop env.bufferSize (socket.map List.length) front.length) socket := by
  -- each read takes its part of the header, and the parser begins anew with the rest
  induction fuel generalizing start hp front socket n with
  | zero => exact absurd enough (not_enough_zero socket)
  | succ fuel ih =>
    obtain ⟨n, rfl⟩ : ∃ m, n = m + 1 := ⟨n - 1, by omega⟩
    cases socket with
    | nil => exact absurd stream.symm (by simp)
    | cons s socket =>
      obtain ⟨got, left, filled, brings⟩ := refill_nil room nonempty
      have got_length := brings.length
      have got_pos := List.length_pos_iff.mpr brings.got_ne
      have fits : got.length ≤ env.bufferSize := by omega
      have reads : (if !start || ([] : List UInt8) = [] then refill env [] (s :: socket)
          else some ([], s :: socket)) = some (got, left) := by simp [filled]
      have whole : front ++ 10 :: rest = (front ++ [10]) ++ rest := by simp
      rw [brings.flatten, whole] at stream
      have enough' : left.flatten.length < fuel := by
        rw [brings.flatten, List.length_append, List.headD_cons] at enough
        omega
      rw [recvSize_filled reads, List.map_cons, sizeRead, ← got_length]
      rcases split_stream stream with ⟨more, more_ne, line_eq, left_stream⟩ | ⟨more, rfl, rfl⟩
      · -- the read ends inside of the header
        obtain ⟨front', rfl, rfl⟩ : ∃ front', more = front' ++ [10] ∧ front = got ++ front' := by
          obtain rfl | ⟨front', b, rfl⟩ := List.eq_nil_or_concat more
          · exact absurd rfl more_ne
          · rw [List.concat_eq_append, ← List.append_assoc] at line_eq
            obtain ⟨front_eq, last_eq⟩ := List.append_inj' line_eq rfl
            obtain rfl := List.head_eq_of_cons_eq last_eq
            exact ⟨front', List.concat_eq_append, front_eq⟩
        have part_plain : Unbroken got := fun b member => plain b (List.mem_append_left _ member)
        have rest_plain : Unbroken front' := fun b member => plain b (List.mem_append_right _ member)
        have more_follows : ¬ (got ++ front' ++ [10]).length ≤ got.length := by
          rw [List.length_append, List.length_append, List.length_cons]
          omega
        rw [List.append_assoc, List.take_left, List.drop_left, ← List.append_assoc, if_neg more_follows]
        obtain ⟨stops, goes_on⟩ := @parse_part env hp _ room fits brings.got_ne part_plain no_error
        by_cases accepted : walk 1 got = none
        · rw [if_pos accepted, stops accepted]
          rfl
        · obtain ⟨hp', parsed, not_finished, fine⟩ := goes_on accepted
          rw [if_neg accepted, parsed]
          simp only [Except.bind, not_finished, Bool.false_eq_true, if_false]
          have left_enough := enough_next room brings.nonempty (by simp [left_stream]) enough'
          have later := @ih n false hp' front' left rest_plain fine brings.nonempty
            (by rw [left_stream]; simp) left_enough (by rw [List.length_append] at steps; omega)
          have stop_eq : readStop env.bufferSize (s.length :: socket.map List.length) (got ++ front').length =
              got.length + readStop env.bufferSize (left.map List.length) front'.length := by
            have position : (got ++ front').length - min env.bufferSize s.length = front'.length := by
              rw [List.length_append]
              omega
            rw [readStop_of_le room (by rw [List.length_append]; omega), position, ← brings.lengths,
              got_length]
          have left_eq : ∀ n, got.length + n - ((got ++ front').length + 1) = n - (front'.length + 1) := by
            intro n
            rw [List.length_append]
            omega
          rw [stop_eq, left_eq, ← dropFront_dropFront, ← brings.rest_eq, ← brings.lengths]
          exact later
      · -- the read holds the whole header
        have line_fits : (front ++ [10]).length ≤ (front ++ [10] ++ more).length :=
          (List.prefix_append ..).length_le
        have together : front ++ [10] ++ more = front ++ 10 :: more := by simp
        rw [List.take_of_length_le line_fits, if_pos line_fits, together, sizeField_feed]
        rw [together] at fits
        obtain ⟨stops, goes_on⟩ := @parse_last env hp _ _ fits plain no_error
        by_cases accepted : walk 1 (front ++ [10]) = none
        · rw [if_pos accepted, stops accepted]
          rfl
        · obtain ⟨hp', parsed, finished, sized, fine⟩ := goes_on accepted
          rw [if_neg accepted, parsed]
          simp only [Except.bind, finished, if_true]
          rw [strtol_accepted plain accepted] at sized
          rw [List.length_append, List.length_cons] at fits
          have line_length : (front ++ [10]).length = front.length + 1 := List.length_append
          obtain ⟨kept_eq, rest_eq⟩ :=
            brings.complete (List.append_ne_nil_of_right_ne_nil _ (List.cons_ne_nil 10 []))
          rw [line_length, Nat.add_sub_cancel] at kept_eq rest_eq
          exact ⟨hp', more, left, rfl, sized, fine, rfl, by omega, brings.nonempty, kept_eq.symm,
            rest_eq.symm⟩

end Reads

/-! ## One turn of the loop -/

/-- The rest of a turn behind the header of a chunk. -/
def chunkData (env : ClientEnv) (hp : HttpResponseParser) (kept : List UInt8) (socket : Socket)
    (body : List UInt8) :
    Except ClientFault (Option (HttpResponseParser × List UInt8 × List UInt8 × Socket)) :=
  (recvData env hp.parser.contentLen kept socket body).map (Option.map fun result => (hp, result))

/-- The body of the loop over the chunks: a header and the data behind it. -/
def recvChunk (env : ClientEnv) (hp : HttpResponseParser) (kept : List UInt8) (socket : Socket)
    (body : List UInt8) :
    Except ClientFault (Option (HttpResponseParser × List UInt8 × List UInt8 × Socket)) := do
  match ← recvSize env (socket.flatten.length + 2) true hp kept socket with
  | none => return none
  | some (hp, kept, socket) => chunkData env hp kept socket body

theorem recvChunks_turn (env : ClientEnv) (fuel : Nat) (hp : HttpResponseParser) (kept : List UInt8)
    (socket : Socket) (body : List UInt8) :
    recvChunks env (fuel + 1) hp kept socket body =
      (recvChunk env hp kept socket body).bind fun
        | none => .ok none
        | some (hp, body, kept, socket) =>
          if hp.parser.chunksDone then .ok (some (hp, body, socket))
          else recvChunks env fuel hp kept socket body := by
  rw [recvChunks, recvChunk]
  cases recvSize env (socket.flatten.length + 2) true hp kept socket with
  | error fault => rfl
  | ok sized =>
    cases sized with
    | none => rfl
    | some sized =>
      obtain ⟨hp', kept', socket'⟩ := sized
      simp only [bind, Except.bind, chunkData]
      cases recvData env hp'.parser.contentLen kept' socket' body with
      | error fault => rfl
      | ok data =>
        cases data with
        | none => rfl
        | some data => rfl

/-- Before a turn of the loop in `RecvResponse` on the connection `socket₀`. -/
inductive InLoop (env : ClientEnv) (socket₀ : Socket) :
    HttpResponseParser → List UInt8 → Socket → List UInt8 → Prop
  | header {hp : HttpResponseParser} {kept : List UInt8} {socket : Socket}
      (ran : recvHeader env (socket₀.flatten.length + 1) .new [] socket₀ = .ok (some (hp, kept, socket)))
      (chunked : hp.parser.chunked = true) : InLoop env socket₀ hp kept socket []
  | chunk {hp hp' : HttpResponseParser} {kept kept' body body' : List UInt8} {socket socket' : Socket}
      (before : InLoop env socket₀ hp kept socket body)
      (ran : recvChunk env hp kept socket body = .ok (some (hp', body', kept', socket')))
      (more : hp'.parser.chunksDone = false) : InLoop env socket₀ hp' kept' socket' body'

/-- The chunk of `size` bytes is refused, or its data is appended and it is the last one if and
only if it is empty. -/
def RightChunk (size : Nat) (body : List UInt8) :
    Except ClientFault (Option (HttpResponseParser × List UInt8 × List UInt8 × Socket)) → Prop
  | .error _ => False
  | .ok none => True
  | .ok (some (hp, body', _, _)) =>
    (∃ data, body' = body ++ data ∧ data.length = size) ∧ (hp.parser.chunksDone = true ↔ size = 0)

/-- The lower half of the `long` that `strtol` makes of digits of value `n`. -/
def lowerHalf (n : Nat) : Nat := min n (2 ^ 63 - 1) % 2 ^ 32

/-- The size field that is read, of value `n`, does for a chunk of `size` bytes with `there` bytes
behind its header: it leaves that size and fits into an `int` with two more, or the connection ends
before so many bytes. -/
def SizeServes (size there n : Nat) : Prop :=
  lowerHalf n < 2 ^ 31 - 2 ∧ (lowerHalf n = size ∨ there < lowerHalf n + 2) ∨
    lowerHalf n = 2 ^ 32 - 1 ∧ there = 0

instance (size there n : Nat) : Decidable (SizeServes size there n) :=
  inferInstanceAs (Decidable (_ ∨ _))

theorem contentLen_eq (n : Nat) :
    contentLen n = if lowerHalf n < 2 ^ 31 then (lowerHalf n : Int) else lowerHalf n - 2 ^ 32 := by
  have half : min longMax (n : Int) % ((2 ^ 32 : Nat) : Int) = lowerHalf n := by
    rw [longMax, lowerHalf]
    omega
  rw [contentLen, asInt, Int.bmod_def, half]
  split <;> split <;> omega

theorem sizeServes_iff (size there n : Nat) :
    SizeServes size there n ↔
      contentLen n = size ∧ size < 2 ^ 31 - 2 ∨
        -1 ≤ contentLen n ∧ contentLen n < 2 ^ 31 - 2 ∧ (there : Int) < contentLen n + 2 := by
  have below : lowerHalf n < 2 ^ 32 := Nat.mod_lt _ (by decide)
  rw [SizeServes, contentLen_eq]
  split <;> omega

/-! ## The data of a chunk -/

section Data

variable {env : ClientEnv} {hp : HttpResponseParser} {size : Nat} {read : Int} {kept body : List UInt8}
  {socket : Socket}

/-- The connection ends before `n` bytes have come. -/
theorem recvLeft_short (room : 0 < env.bufferSize) {fuel n : Nat} (nonempty : ∀ s ∈ socket, s ≠ [])
    (short : socket.flatten.length < n) : recvLeft env fuel n socket = none := by
  induction fuel generalizing n socket with
  | zero =>
    obtain ⟨m, rfl⟩ := Nat.exists_eq_add_of_lt short
    rfl
  | succ fuel ih =>
    obtain ⟨m, rfl⟩ : ∃ m, n = m + 1 := ⟨n - 1, by omega⟩
    rw [recvLeft]
    by_cases ended : 0 < socket.flatten.length
    · obtain ⟨k, k_pos, k_le, got_length, front⟩ := @read_front socket nonempty
        (min (m + 1) env.bufferSize) (by omega) ended
      have got_ne : socket.flatten.take k ≠ [] := List.ne_nil_of_length_pos (by omega)
      have within : k ≤ socket.flatten.length := by
        rw [← got_length]
        exact List.length_take_le' ..
      have later : recvLeft env fuel (m + 1 - k) (dropFront k socket) = none := by
        refine ih (fun t member => ne_nil_of_mem_dropFront nonempty member) ?_
        rw [flatten_dropFront, List.length_drop]
        omega
      rw [front]
      simp only [if_neg got_ne, got_length, later, Option.map_none]
    · cases socket with
      | nil => rfl
      | cons s socket =>
        have s_pos := List.length_pos_iff.mpr (nonempty s (List.mem_cons_self ..))
        rw [List.flatten_cons, List.length_append] at ended
        omega

/-- A size that is no length: `append` and `resize` are called with a number below zero, except at
the end of the connection. -/
theorem negative_iff (room : 0 < env.bufferSize) (nonempty : ∀ s ∈ socket, s ≠ [])
    (is_read : hp.parser.contentLen = read) (negative : read < 0) :
    RightChunk size body (chunkData env hp kept socket body) ↔
      read = -1 ∧ kept ++ socket.flatten = [] := by
  have small : ¬ 0x80000000 ≤ read + 2 := by omega
  rw [chunkData, is_read]
  by_cases held : read + 2 ≤ kept.length
  · have fault : recvData env read kept socket body = .error .lengthError := by
      rw [recvData, if_neg small, if_pos held, if_pos negative]
    rw [fault]
    refine ⟨fun right => right.elim, ?_⟩
    rintro ⟨is_one, ended⟩
    have none_held := (List.append_eq_nil_iff.mp ended).1
    rw [is_one, none_held] at held
    exact absurd held (by decide)
  · obtain ⟨rfl, rfl⟩ : read = -1 ∧ kept = [] := by
      rw [← List.length_eq_zero_iff]
      omega
    have count : ((-1 : Int) - ([] : List UInt8).length + 2).toNat = 1 := rfl
    rw [List.nil_append]
    by_cases ended : socket.flatten = []
    · have short : recvLeft env 1 1 socket = none :=
        recvLeft_short room nonempty (by rw [ended]; decide)
      have refused : recvData env (-1) [] socket body = .ok none := by
        rw [recvData, if_neg small, if_neg held, count]
        dsimp only
        rw [short]
      rw [refused]
      exact ⟨fun _ => ⟨rfl, ended⟩, fun _ => trivial⟩
    · have pos := List.length_pos_iff.mpr ended
      have got := @recvLeft_eq env room 1 1 socket nonempty (Nat.le_refl 1) pos
      have length_eq : (body ++ [] ++ socket.flatten.take 1).length = body.length + 1 := by
        rw [List.append_nil, List.length_append, List.length_take_of_le pos]
      refine ⟨fun right => ?_, fun at_end => absurd at_end.2 ended⟩
      rw [recvData, if_neg small, if_neg held, count] at right
      dsimp only at right
      rw [got] at right
      dsimp only at right
      rw [length_eq] at right
      by_cases first : body.length + 1 < 2
      · rw [if_pos first] at right
        exact right.elim
      · -- a byte of the chunk before is lost
        rw [if_neg first] at right
        obtain ⟨⟨data, same, -⟩, -⟩ := right
        have lengths := congrArg List.length same
        rw [List.length_take, length_eq, List.length_append] at lengths
        omega

theorem rightData_iff (room : 0 < env.bufferSize) (nonempty : ∀ s ∈ socket, s ≠ []) (sized : Sized read hp) :
    RightChunk size body (chunkData env hp kept socket body) ↔
      read = size ∧ size < 2 ^ 31 - 2 ∨
        -1 ≤ read ∧ read < 2 ^ 31 - 2 ∧ ((kept ++ socket.flatten).length : Int) < read + 2 := by
  by_cases negative : read < 0
  · rw [negative_iff room nonempty sized.contentLen negative, ← List.length_eq_zero_iff]
    omega
  · obtain ⟨n, rfl⟩ := Int.eq_ofNat_of_zero_le (Int.not_lt.mp negative)
    rw [chunkData, sized.contentLen]
    by_cases large : 2 ^ 31 - 2 ≤ n
    · -- `content_len + 2` is no `int`
      have overflow : recvData env n kept socket body = .error .overflow := by
        rw [recvData, if_pos (by omega)]
      rw [overflow]
      exact ⟨fun right => right.elim, fun serves => by omega⟩
    · by_cases there : n + 2 ≤ (kept ++ socket.flatten).length
      · have data := recvData_eq room (by omega) nonempty there body
        have taken : ((kept ++ socket.flatten).take n).length = n := by
          rw [List.length_take]
          omega
        rw [data]
        have done : hp.parser.chunksDone = decide ((n : Int) ≤ 0) := sized.chunksDone
        constructor
        · rintro ⟨⟨data, same, length_eq⟩, -⟩
          rw [← List.append_cancel_left same, taken] at length_eq
          omega
        · intro serves
          have same : n = size := by omega
          refine ⟨⟨_, rfl, taken.trans same⟩, ?_⟩
          rw [done, decide_eq_true_eq]
          omega
      · have refused : recvData env n kept socket body = .ok none := by
          rw [List.length_append] at there
          have short : recvLeft env ((n : Int) - kept.length + 2).toNat ((n : Int) - kept.length + 2).toNat
              socket = none := recvLeft_short room nonempty (by omega)
          rw [recvData, if_neg (by omega), if_neg (by omega)]
          dsimp only
          rw [short]
        rw [refused]
        exact ⟨fun _ => .inr (by omega), fun _ => trivial⟩

end Data

/-! ## The states of the loop -/

/-- What holds between the calls of `Execute`. -/
structure LoopState (env : ClientEnv) (hp : HttpResponseParser) (kept : List UInt8) (socket : Socket) :
    Prop where
  no_error : hp.error = 0
  fits : kept.length ≤ env.bufferSize
  nonempty : ∀ s ∈ socket, s ≠ []

section Keeps

variable {env : ClientEnv} {fuel : Nat} {start chunck : Bool} {hp hp' : HttpResponseParser}
  {buffer kept kept' body body' : List UInt8} {socket socket' : Socket}

theorem refill_keeps (fits : kept.length ≤ env.bufferSize)
    (filled : refill env kept socket = some (buffer, socket')) : buffer.length ≤ env.bufferSize := by
  rw [refill] at filled
  cases got : read (env.bufferSize - kept.length) socket with
  | none =>
    rw [got] at filled
    cases filled
  | some result =>
    obtain ⟨bytes, rest⟩ := result
    have length_le := read_length got
    rw [got] at filled
    dsimp only at filled
    split at filled
    next => cases filled
    next =>
      cases filled
      rw [List.length_append]
      omega

theorem parse_keeps (ran : parse env hp buffer chunck = .ok (some (hp', kept))) :
    hp'.error = 0 ∧ kept.length ≤ buffer.length := by
  obtain ⟨ran, alive⟩ := parse_ok ran
  obtain ⟨hp₁, n, -, rfl, rfl⟩ := execute_ok ran
  rw [HttpResponseParser.hasError, Bool.or_eq_false_iff] at alive
  refine ⟨by simpa using alive.1, ?_⟩
  rw [List.length_drop]
  exact Nat.sub_le ..

theorem recvHeader_keeps (state : LoopState env hp kept socket)
    (ran : recvHeader env fuel hp kept socket = .ok (some (hp', kept', socket'))) :
    LoopState env hp' kept' socket' := by
  induction fuel generalizing hp kept socket with
  | zero => cases ran
  | succ fuel ih =>
    rw [recvHeader] at ran
    cases filled : refill env kept socket with
    | none =>
      rw [filled] at ran
      cases ran
    | some brought =>
      obtain ⟨buffer, rest⟩ := brought
      rw [filled] at ran
      obtain ⟨parsed, is_parsed, later⟩ := EState.except_bind_ok ran
      cases parsed with
      | none => cases later
      | some result =>
        obtain ⟨hp₁, kept₁⟩ := result
        obtain ⟨fine, shorter⟩ := parse_keeps is_parsed
        have next : LoopState env hp₁ kept₁ rest :=
          ⟨fine, shorter.trans (refill_keeps state.fits filled), (refill_some state.nonempty filled).2⟩
        dsimp only at later
        split at later
        next =>
          cases later
          exact next
        next => exact ih next later

theorem recvSize_keeps (state : LoopState env hp kept socket)
    (ran : recvSize env fuel start hp kept socket = .ok (some (hp', kept', socket'))) :
    LoopState env hp' kept' socket' := by
  induction fuel generalizing start hp kept socket with
  | zero => cases ran
  | succ fuel ih =>
    cases filled : if !start || kept = [] then refill env kept socket else some (kept, socket) with
    | none =>
      rw [recvSize_unfilled filled] at ran
      cases ran
    | some brought =>
      obtain ⟨buffer, rest⟩ := brought
      have holds : buffer.length ≤ env.bufferSize ∧ ∀ s ∈ rest, s ≠ [] := by
        split at filled
        next => exact ⟨refill_keeps state.fits filled, (refill_some state.nonempty filled).2⟩
        next =>
          cases filled
          exact ⟨state.fits, state.nonempty⟩
      rw [recvSize_filled filled] at ran
      obtain ⟨parsed, is_parsed, later⟩ := EState.except_bind_ok ran
      cases parsed with
      | none => cases later
      | some result =>
        obtain ⟨hp₁, kept₁⟩ := result
        obtain ⟨fine, shorter⟩ := parse_keeps is_parsed
        have next : LoopState env hp₁ kept₁ rest := ⟨fine, shorter.trans holds.1, holds.2⟩
        dsimp only at later
        split at later
        next =>
          cases later
          exact next
        next => exact ih next later

theorem recvLeft_keeps {n : Nat} {got : List UInt8} (nonempty : ∀ s ∈ socket, s ≠ [])
    (ran : recvLeft env fuel n socket = some (got, socket')) : ∀ s ∈ socket', s ≠ [] := by
  induction fuel generalizing n got socket with
  | zero =>
    cases n with
    | zero =>
      cases ran
      exact nonempty
    | succ n => cases ran
  | succ fuel ih =>
    cases n with
    | zero =>
      cases ran
      exact nonempty
    | succ n =>
      rw [recvLeft] at ran
      cases front : read (min (n + 1) env.bufferSize) socket with
      | none =>
        rw [front] at ran
        cases ran
      | some result =>
        obtain ⟨bytes, rest⟩ := result
        rw [front] at ran
        dsimp only at ran
        split at ran
        next => cases ran
        next =>
          obtain ⟨later, is_later, same⟩ := Option.map_eq_some_iff.mp ran
          cases same
          exact ih (read_nonempty nonempty front) is_later

theorem recvData_keeps {size : Int} (fits : kept.length ≤ env.bufferSize) (nonempty : ∀ s ∈ socket, s ≠ [])
    (ran : recvData env size kept socket body = .ok (some (body', kept', socket'))) :
    kept'.length ≤ env.bufferSize ∧ ∀ s ∈ socket', s ≠ [] := by
  rw [recvData] at ran
  split at ran
  next => cases ran
  next =>
    split at ran
    next =>
      split at ran
      next => cases ran
      next =>
        cases ran
        rw [List.length_drop]
        exact ⟨(Nat.sub_le ..).trans fits, nonempty⟩
    next =>
      dsimp only at ran
      split at ran
      next => cases ran
      next left =>
        split at ran
        next => cases ran
        next =>
          cases ran
          exact ⟨Nat.zero_le _, recvLeft_keeps nonempty left⟩

theorem recvChunk_keeps (state : LoopState env hp kept socket)
    (ran : recvChunk env hp kept socket body = .ok (some (hp', body', kept', socket'))) :
    LoopState env hp' kept' socket' := by
  obtain ⟨sized, is_sized, later⟩ := EState.except_bind_ok ran
  cases sized with
  | none => cases later
  | some result =>
    obtain ⟨hp₁, kept₁, socket₁⟩ := result
    have read := recvSize_keeps state is_sized
    dsimp only [chunkData] at later
    cases is_data : recvData env hp₁.parser.contentLen kept₁ socket₁ body with
    | error fault =>
      rw [is_data] at later
      cases later
    | ok data =>
      rw [is_data] at later
      obtain ⟨data, rfl, same⟩ := Option.map_eq_some_iff.mp (Except.ok.inj later)
      cases same
      obtain ⟨fits, nonempty⟩ := recvData_keeps read.fits read.nonempty is_data
      exact ⟨read.no_error, fits, nonempty⟩

/-- Every turn begins in such a state. -/
theorem InLoop.state {socket₀ : Socket} (reached : InLoop env socket₀ hp kept socket body)
    (nonempty : ∀ s ∈ socket₀, s ≠ []) : LoopState env hp kept socket := by
  induction reached with
  | header ran => exact recvHeader_keeps ⟨rfl, Nat.zero_le _, nonempty⟩ ran
  | chunk _ ran _ ih => exact recvChunk_keeps ih ran

end Keeps

/-! ## Chunks of any size -/

/-- Without a buffer nothing is read. -/
theorem sizeRead_zero (fuel : Nat) (lengths : List Nat) {line : List UInt8} (nonempty : line ≠ []) :
    sizeRead 0 fuel lengths line = none := by
  induction fuel generalizing lengths with
  | zero => rfl
  | succ fuel ih =>
    cases lengths with
    | nil => rfl
    | cons s lengths =>
      have pos := List.length_pos_iff.mpr nonempty
      rw [sizeRead, Nat.zero_min, if_neg (by rw [List.take_zero, walk]; exact Option.some_ne_none 1),
        if_neg (Nat.not_le.mpr pos), List.drop_zero]
      exact ih (readOnce 0 s lengths)

theorem recvSize_zero {env : ClientEnv} {fuel : Nat} {hp : HttpResponseParser} {socket : Socket}
    (none_fits : env.bufferSize = 0) : recvSize env fuel true hp [] socket = .ok none := by
  cases fuel with
  | zero => rfl
  | succ fuel =>
    apply recvSize_unfilled
    rw [if_pos (by simp), refill]
    cases got : read (env.bufferSize - ([] : List UInt8).length) socket with
    | none => rfl
    | some result =>
      have length_le := read_length got
      rw [none_fits, Nat.zero_sub] at length_le
      have empty := List.eq_nil_of_length_eq_zero (Nat.le_zero.mp length_le)
      dsimp only
      rw [if_pos empty]

/-- A chunk is taken as its header says, or refused, if and only if the size that the reads of the
header show is its size and fits with two more into an `int`, or the connection ends before so
many bytes. -/
theorem rightChunk_iff {env : ClientEnv} {socket₀ socket : Socket} {hp : HttpResponseParser}
    {kept body size tail rest : List UInt8} (nonempty : ∀ s ∈ socket₀, s ≠ [])
    (reached : InLoop env socket₀ hp kept socket body) (is : IsSize size) (ends : ChunkTail tail)
    (stream : kept ++ socket.flatten = size ++ tail ++ rest) :
    RightChunk (hexValue size) body (recvChunk env hp kept socket body) ↔
      ∀ n ∈ sizeRead env.bufferSize (size ++ tail).length ((joined kept socket).map List.length)
        (size ++ tail), SizeServes (hexValue size) rest.length n := by
  have state := reached.state nonempty
  have line_ne : size ++ tail ≠ [] := List.append_ne_nil_of_left_ne_nil is.nonempty tail
  by_cases none_fits : env.bufferSize = 0
  · have none_held : kept = [] := by
      have fits := state.fits
      rw [none_fits] at fits
      exact List.eq_nil_of_length_eq_zero (Nat.le_zero.mp fits)
    have refused : recvChunk env hp kept socket body = .ok none := by
      rw [recvChunk, none_held, recvSize_zero none_fits]
      rfl
    rw [refused, none_fits, sizeRead_zero _ _ line_ne]
    exact ⟨fun _ n member => (nomatch member), fun _ => trivial⟩
  · have room : 0 < env.bufferSize := Nat.pos_of_ne_zero none_fits
    obtain ⟨front, rfl, front_plain⟩ := ends.unbroken
    have plain : Unbroken (size ++ front) :=
      Unbroken.append (fun b member => isXdigit_unbroken b (is.digits b member)) front_plain
    have line_eq : size ++ (front ++ [10]) = size ++ front ++ [10] := (List.append_assoc ..).symm
    have stream' : (joined kept socket).flatten = size ++ front ++ 10 :: rest := by
      rw [flatten_joined, stream]
      simp
    have read := @recvSize_header env _ (size ++ front ++ [10]).length true _ _ _ _ room plain
      state.no_error (joined_ne state.nonempty) stream' (joined_enough socket state.fits)
      (by simp)
    rw [line_eq, recvChunk, recvSize_joined state.fits]
    cases shown : sizeRead env.bufferSize (size ++ front ++ [10]).length
      ((joined kept socket).map List.length) (size ++ front ++ [10]) with
    | none =>
      rw [shown] at read
      dsimp only at read
      rw [read]
      exact ⟨fun _ n member => (nomatch member), fun _ => trivial⟩
    | some n =>
      rw [shown] at read
      obtain ⟨hp', kept', socket', ran, sized, -, left_eq, -, nonempty', -, -⟩ := read
      have turn := @rightData_iff env hp' (hexValue size) _ kept' body socket' room nonempty' sized
      rw [left_eq] at turn
      have serves : (∀ m ∈ some n, SizeServes (hexValue size) rest.length m) ↔
          SizeServes (hexValue size) rest.length n := by simp
      rw [serves, sizeServes_iff, ran]
      exact turn

/-- The parser behind `chunkedHead`. -/
def chunkedStart : HttpResponseParser where
  parser := ⟨httpclientParserFirstFinal, 47, -1, true, false, 47, 36, 17, 17⟩
  data := ⟨200, 0x11, true, ascii "OK", [], [(ascii "Transfer-Encoding", ascii "chunked")]⟩
  error := 0

/-- A chunk of three bytes with an extension, in one read with the header of the response. -/
theorem rightChunk_iff_extension :
    RightChunk 3 [] (recvChunk client chunkedStart (ascii "3;n=v\r\nabc\r\n0\r\n\r\n") [] []) :=
  (@rightChunk_iff client [chunkedHead ++ ascii "3;n=v\r\nabc\r\n0\r\n\r\n"] [] chunkedStart
    (ascii "3;n=v\r\nabc\r\n0\r\n\r\n") [] (ascii "3") (ascii ";n=v\r\n") (ascii "abc\r\n0\r\n\r\n")
    (by decide +kernel) (.header (by decide +kernel) rfl) ⟨by decide +kernel, by decide +kernel⟩
    (@ChunkTail.value (ascii "n") (ascii "v") _ (by decide) (by decide)
      (by decide) (by decide) .return) (by decide)).mpr (by decide)

/-- The size is 2 ^ 32, of which the `int` keeps zero: the chunk is taken for the last one, and
the response is returned without a body. -/
theorem large_chunk_is_last :
    InLoop client [chunkedHead ++ ascii "100000000\r\nabc"] chunkedStart (ascii "100000000\r\nabc") [] [] ∧
      IsSize (ascii "100000000") ∧ hexValue (ascii "100000000") = 2 ^ 32 ∧
      (recvContent client [chunkedHead ++ ascii "100000000\r\nabc"]).map (Option.map fun read => read.2) =
        .ok (some ([], [])) ∧
      ¬ RightChunk (2 ^ 32) [] (recvChunk client chunkedStart (ascii "100000000\r\nabc") [] []) := by
  refine ⟨.header (by decide +kernel) rfl, ⟨by decide +kernel, by decide +kernel⟩, by decide +kernel,
    by decide, ?_⟩
  have done : (recvChunk client chunkedStart (ascii "100000000\r\nabc") [] []).map
      (Option.map fun read => read.1.parser.chunksDone) = .ok (some true) := by decide +kernel
  intro right
  cases ran : recvChunk client chunkedStart (ascii "100000000\r\nabc") [] [] with
  | error fault =>
    rw [ran] at done
    cases done
  | ok read =>
    rw [ran] at done right
    cases read with
    | none => cases done
    | some read =>
      have is_done : read.1.parser.chunksDone = true := Option.some.inj (Except.ok.inj done)
      exact absurd (right.2.mp is_done) (by decide)

end ServerFrame.Http
