import ServerFrame.Http.SizeLine

/-!
# Bodies that arrive in chunks

What is held back in the buffer counts as one more segment in front of the connection. The
lengths of the segments that are left behind a chunk do not depend on the data, so that the
reads of all size lines can be told from the sizes and the lengths.
-/
namespace ServerFrame.Http

open Segments

/-! ## What is held back -/

/-- The bytes in the buffer as a segment. -/
def joined (kept : List UInt8) (socket : Socket) : Socket :=
  if kept = [] then socket else kept :: socket

theorem joined_nil (socket : Socket) : joined [] socket = socket := if_pos rfl

theorem joined_of_ne {kept : List UInt8} (held : kept ≠ []) (socket : Socket) :
    joined kept socket = kept :: socket := if_neg held

theorem flatten_joined (kept : List UInt8) (socket : Socket) :
    (joined kept socket).flatten = kept ++ socket.flatten := by
  by_cases empty : kept = []
  · rw [empty, joined_nil, List.nil_append]
  · rw [joined_of_ne empty, List.flatten_cons]

/-- The passes of the loop for a size line are enough for what is held and what comes. -/
theorem joined_enough {limit : Nat} {kept : List UInt8} (socket : Socket) (fits : kept.length ≤ limit) :
    (joined kept socket).flatten.length + 1 <
      socket.flatten.length + 2 + min limit ((joined kept socket).headD []).length := by
  rw [flatten_joined, List.length_append]
  by_cases empty : kept = []
  · rw [empty, List.length_nil]
    omega
  · rw [joined_of_ne empty, List.headD_cons]
    omega

/-- The lengths that are left when the read that holds position `p` was made and `n` bytes
were taken. -/
def left (limit : Nat) (lengths : List Nat) (p n : Nat) : List Nat :=
  let stop := readStop limit lengths p
  if n < stop then (stop - n) :: skip stop lengths else skip n lengths

/-- `stream` is to come in segments of these lengths. -/
structure Held (env : ClientEnv) (lengths : List Nat) (stream kept : List UInt8) (socket : Socket) :
    Prop where
  fits : kept.length ≤ env.bufferSize
  nonempty : ∀ s ∈ socket, s ≠ []
  lengths : (joined kept socket).map List.length = lengths
  stream : kept ++ socket.flatten = stream

theorem joined_ne {kept : List UInt8} {socket : Socket} (nonempty : ∀ s ∈ socket, s ≠ []) :
    ∀ s ∈ joined kept socket, s ≠ [] := by
  intro s member
  by_cases empty : kept = []
  · rw [empty, joined_nil] at member
    exact nonempty s member
  · rw [joined_of_ne empty] at member
    rcases List.mem_cons.mp member with rfl | member
    · exact empty
    · exact nonempty s member

theorem Held.joined_ne {env : ClientEnv} {lengths : List Nat} {stream kept : List UInt8}
    {socket : Socket} (held : Held env lengths stream kept socket) : ∀ s ∈ joined kept socket, s ≠ [] :=
  Http.joined_ne held.nonempty

section Left

variable {env : ClientEnv} {socket : Socket} {p : Nat}

theorem drop_take_append (xs : List UInt8) {k : Nat} (le : k ≤ xs.length) (m : Nat) :
    (xs.take k).drop m ++ xs.drop (k + (m - k)) = xs.drop m := by
  have parts : (xs.take k ++ xs.drop k).drop m = (xs.take k).drop m ++ (xs.drop k).drop (m - k) := by
    rw [List.drop_append, List.length_take_of_le le]
  rw [List.take_append_drop, List.drop_drop] at parts
  exact parts.symm

/-- Behind a line that ends at position `p`, and `m` more bytes. -/
theorem held_left (room : 0 < env.bufferSize) (nonempty : ∀ s ∈ socket, s ≠ [])
    (inside : p < socket.flatten.length) (m : Nat) {kept : List UInt8}
    (kept_eq : kept = (socket.flatten.drop (p + 1)).take
      (readStop env.bufferSize (socket.map List.length) p - (p + 1))) :
    Held env (left env.bufferSize (socket.map List.length) p (p + 1 + m))
      (socket.flatten.drop (p + 1 + m)) (kept.drop m)
      (dropFront (m - kept.length)
        (dropFront (readStop env.bufferSize (socket.map List.length) p) socket)) := by
  obtain ⟨stop, stop_eq⟩ : ∃ stop, stop = readStop env.bufferSize (socket.map List.length) p :=
    ⟨_, rfl⟩
  have total : (socket.map List.length).sum = socket.flatten.length := List.length_flatten.symm
  obtain ⟨beyond, within, near⟩ :=
    @readStop_bounds _ room (socket.map List.length) p (by rw [total]; exact inside)
  rw [← stop_eq] at beyond within near kept_eq
  rw [total] at within
  have kept_length : kept.length = stop - (p + 1) := by
    rw [kept_eq, List.length_take, List.length_drop]
    omega
  have whole : dropFront (m - kept.length) (dropFront stop socket) =
      dropFront (stop + (m - kept.length)) socket := dropFront_dropFront ..
  rw [← stop_eq]
  constructor
  · rw [List.length_drop]
    omega
  · intro s member
    rw [whole] at member
    exact ne_nil_of_mem_dropFront nonempty member
  · rw [left, ← stop_eq]
    by_cases taken : kept.length ≤ m
    · -- the buffer is used up
      have none_held : kept.drop m = [] := List.drop_eq_nil_of_le taken
      have position : stop + (m - kept.length) = p + 1 + m := by omega
      rw [none_held, joined_nil, whole, map_length_dropFront, position, if_neg (by omega)]
    · have held : kept.drop m ≠ [] := List.ne_nil_of_length_pos (by rw [List.length_drop]; omega)
      have none_read : m - kept.length = 0 := by omega
      have first : (kept.drop m).length = stop - (p + 1 + m) := by
        rw [List.length_drop]
        omega
      rw [joined_of_ne held, whole, none_read, Nat.add_zero, List.map_cons, map_length_dropFront,
        first, if_pos (by omega)]
  · rw [whole, flatten_dropFront]
    have position : stop + (m - kept.length) = p + 1 + (kept.length + (m - kept.length)) := by omega
    have rejoined := drop_take_append (socket.flatten.drop (p + 1)) (k := kept.length)
      (by rw [List.length_drop]; omega) m
    rw [List.drop_drop, List.drop_drop, ← position, kept_length, ← kept_eq] at rejoined
    rw [kept_length]
    exact rejoined

end Left

/-! ## The data -/

theorem recvLeft_eq {env : ClientEnv} (room : 0 < env.bufferSize) {fuel n : Nat} {socket : Socket}
    (nonempty : ∀ s ∈ socket, s ≠ []) (enough : n ≤ fuel) (there : n ≤ socket.flatten.length) :
    recvLeft env fuel n socket = some (socket.flatten.take n, dropFront n socket) := by
  -- every read brings a byte at least, so `n` passes are enough
  induction fuel generalizing n socket with
  | zero =>
    obtain rfl : n = 0 := by omega
    rw [recvLeft, List.take_zero, dropFront_zero nonempty]
  | succ fuel ih =>
    cases n with
    | zero => rw [recvLeft, List.take_zero, dropFront_zero nonempty]
    | succ n =>
      have asked : 0 < min (n + 1) env.bufferSize := by omega
      obtain ⟨k, k_pos, k_le, got_length, front⟩ := read_front nonempty asked (by omega)
      have got_ne : socket.flatten.take k ≠ [] := List.ne_nil_of_length_pos (by omega)
      have later : recvLeft env fuel (n + 1 - k) (dropFront k socket) =
          some ((dropFront k socket).flatten.take (n + 1 - k),
            dropFront (n + 1 - k) (dropFront k socket)) :=
        ih (fun t member => ne_nil_of_mem_dropFront nonempty member) (by omega)
          (by rw [flatten_dropFront, List.length_drop]; omega)
      have whole : k + (n + 1 - k) = n + 1 := by omega
      rw [recvLeft, front]
      simp only [if_neg got_ne, got_length, later, Option.map_some]
      rw [flatten_dropFront, dropFront_dropFront, ← List.take_add, whole]

/-- The data of a chunk that announced `n` bytes, from the buffer and from the reads behind
it; the two bytes behind the data are not looked at. -/
theorem recvData_eq {env : ClientEnv} (room : 0 < env.bufferSize) {n : Nat} (small : n < 2 ^ 31 - 2)
    {kept : List UInt8} {socket : Socket} (nonempty : ∀ s ∈ socket, s ≠ [])
    (there : n + 2 ≤ (kept ++ socket.flatten).length) (body : List UInt8) :
    recvData env n kept socket body = .ok (some (body ++ (kept ++ socket.flatten).take n,
      kept.drop (n + 2), dropFront (n + 2 - kept.length) socket)) := by
  have no_overflow : ¬ (0x80000000 : Int) ≤ (n : Int) + 2 := by omega
  rw [List.length_append] at there
  rw [recvData, if_neg no_overflow]
  -- the chunk and its line end are in the buffer, or the rest is read
  by_cases held : n + 2 ≤ kept.length
  · have held' : (n : Int) + 2 ≤ kept.length := by omega
    have not_negative : ¬ (n : Int) < 0 := by omega
    have none_read : n + 2 - kept.length = 0 := by omega
    rw [if_pos held', if_neg not_negative, none_read, dropFront_zero nonempty, Int.toNat_natCast,
      List.take_append_of_le_length (by omega)]
  · have held' : ¬ (n : Int) + 2 ≤ kept.length := by omega
    have count : ((n : Int) - kept.length + 2).toNat = n + 2 - kept.length := by omega
    have read := recvLeft_eq room nonempty (Nat.le_refl (n + 2 - kept.length)) (by omega)
    have bytes : (kept ++ socket.flatten.take (n + 2 - kept.length)) =
        (kept ++ socket.flatten).take (n + 2) := by
      have front : kept.take (n + 2) = kept := List.take_of_length_le (by omega)
      rw [List.take_append, front]
    have length_eq : ((kept ++ socket.flatten).take (n + 2)).length = n + 2 := by
      rw [List.length_take, List.length_append]
      omega
    have none_held : kept.drop (n + 2) = [] := List.drop_eq_nil_of_le (by omega)
    rw [if_neg held', count]
    dsimp only
    rw [read]
    dsimp only
    -- `body.resize(body.size() - 2)` takes the line end off
    have without_end : body.length + (n + 2) - 2 = body.length + n := by omega
    rw [List.append_assoc, bytes, none_held, List.length_append, length_eq, if_neg (by omega),
      without_end, List.take_length_add_append, List.take_take, Nat.min_eq_left (by omega)]

/-! ## One chunk -/

/-- What is held back is read like a segment. -/
theorem recvSize_joined {env : ClientEnv} {fuel : Nat} {hp : HttpResponseParser} {kept : List UInt8}
    {socket : Socket} (fits : kept.length ≤ env.bufferSize) :
    recvSize env (fuel + 1) true hp kept socket =
      recvSize env (fuel + 1) true hp [] (joined kept socket) := by
  by_cases empty : kept = []
  · rw [empty, joined_nil]
  · -- it would come whole in one read
    have whole : read (env.bufferSize - 0) (kept :: socket) = some (kept, socket) := by
      have at_once : kept.length ≤ min (env.bufferSize - 0) recvMax := by
        have small := env.small
        omega
      rw [read, if_pos at_once]
    have filled : (if !true || kept = [] then refill env kept socket else some (kept, socket)) =
        some (kept, socket) := if_neg (by simp [empty])
    have filled' : (if !true || ([] : List UInt8) = [] then refill env [] (kept :: socket)
        else some ([], kept :: socket)) = some (kept, socket) := by
      rw [if_pos (by simp), refill, List.length_nil, whole]
      simp [empty]
    rw [joined_of_ne empty, recvSize_filled filled, recvSize_filled filled']

section Step

variable {env : ClientEnv} {fuel : Nat} {hp : HttpResponseParser} {lengths : List Nat}
  {size rest kept body : List UInt8} {socket : Socket}

/-- The size line when it starts in the buffer. -/
theorem recvSize_held (room : 0 < env.bufferSize) (is : IsSize size) (small : hexValue size < 2 ^ 31)
    (no_error : hp.error = 0) (held : Held env lengths (size ++ 13 :: 10 :: rest) kept socket) :
    (size.length ≤ readStart env.bufferSize lengths (size.length + 1) →
      recvSize env (socket.flatten.length + 2) true hp kept socket = .ok none) ∧
    (readStart env.bufferSize lengths (size.length + 1) < size.length →
      ∃ hp', recvSize env (socket.flatten.length + 2) true hp kept socket = .ok (some (hp',
          rest.take (readStop env.bufferSize lengths (size.length + 1) - (size.length + 2)),
          dropFront (readStop env.bufferSize lengths (size.length + 1)) (joined kept socket))) ∧
        Announced (hexValue (size.drop (readStart env.bufferSize lengths (size.length + 1)))) hp') := by
  have stream : (joined kept socket).flatten = size ++ 13 :: 10 :: rest := by
    rw [flatten_joined, held.stream]
  have enough := joined_enough socket held.fits
  have reads := @recvSize_reads env _ true hp _ size rest room is small no_error held.joined_ne stream
    enough
  rw [held.lengths] at reads
  rw [recvSize_joined held.fits]
  exact reads

/-- No read starts among the digits of the size line. -/
theorem recvChunks_lost (room : 0 < env.bufferSize) (is : IsSize size) (small : hexValue size < 2 ^ 31)
    (no_error : hp.error = 0) (held : Held env lengths (size ++ 13 :: 10 :: rest) kept socket)
    (cut : size.length ≤ readStart env.bufferSize lengths (size.length + 1)) :
    recvChunks env fuel hp kept socket body = .ok none := by
  cases fuel with
  | zero => rfl
  | succ fuel =>
    have lost := (recvSize_held room is small no_error held).1 cut
    rw [recvChunks]
    simp only [lost, bind, Except.bind]
    rfl

/-- The last read of the size line starts among its digits, which are taken for the size:
`n` bytes of data are taken. -/
theorem recvChunks_read (room : 0 < env.bufferSize) (is : IsSize size)
    (small : hexValue size < 2 ^ 31 - 2) (no_error : hp.error = 0)
    (held : Held env lengths (size ++ 13 :: 10 :: rest) kept socket)
    (inside : readStart env.bufferSize lengths (size.length + 1) < size.length) {n : Nat}
    (read : n = hexValue (size.drop (readStart env.bufferSize lengths (size.length + 1))))
    (there : n + 2 ≤ rest.length) :
    ∃ hp' kept' socket',
      recvChunks env (fuel + 1) hp kept socket body =
        (if n = 0 then .ok (some (hp', body ++ rest.take n, socket'))
          else recvChunks env fuel hp' kept' socket' (body ++ rest.take n)) ∧
      hp'.error = 0 ∧
      Held env (left env.bufferSize lengths (size.length + 1) (size.length + 2 + (n + 2)))
        (rest.drop (n + 2)) kept' socket' := by
  obtain ⟨hp', sized, announced⟩ :=
    (recvSize_held room is (by omega) no_error held).2 inside
  rw [← read] at announced
  have stream : (joined kept socket).flatten = size ++ 13 :: 10 :: rest := by
    rw [flatten_joined, held.stream]
  have behind : (joined kept socket).flatten.drop (size.length + 1 + 1) = rest := by
    rw [stream, Nat.add_assoc, ← List.drop_drop, List.drop_left]
    rfl
  have line_inside : size.length + 1 < (joined kept socket).flatten.length := by
    rw [stream, List.length_append, List.length_cons, List.length_cons]
    omega
  have n_small : n < 2 ^ 31 - 2 := by
    have below := (hexValue_drop is.digits (readStart env.bufferSize lengths (size.length + 1))).1
    omega
  obtain ⟨kept₁, kept_eq⟩ : ∃ kept₁, kept₁ = rest.take
      (readStop env.bufferSize lengths (size.length + 1) - (size.length + 2)) := ⟨_, rfl⟩
  obtain ⟨socket₁, socket_eq⟩ : ∃ socket₁, socket₁ =
      dropFront (readStop env.bufferSize lengths (size.length + 1)) (joined kept socket) := ⟨_, rfl⟩
  -- behind the size line the lengths are the same whatever the data is
  have after : ∀ m, Held env
      (left env.bufferSize lengths (size.length + 1) (size.length + 1 + 1 + m)) (rest.drop m)
      (kept₁.drop m) (dropFront (m - kept₁.length) socket₁) := by
    intro m
    have kept_is : kept₁ = ((joined kept socket).flatten.drop (size.length + 1 + 1)).take
        (readStop env.bufferSize ((joined kept socket).map List.length) (size.length + 1) -
          (size.length + 1 + 1)) := by
      rw [behind, held.lengths, kept_eq]
    have holds := held_left room held.joined_ne line_inside m kept_is
    rwa [held.lengths, ← List.drop_drop, behind, ← socket_eq] at holds
  have nonempty : ∀ s ∈ socket₁, s ≠ [] := fun s member =>
    ne_nil_of_mem_dropFront held.joined_ne (socket_eq ▸ member)
  have whole : kept₁ ++ socket₁.flatten = rest := by
    have now := (after 0).stream
    rwa [List.drop_zero, List.drop_zero, Nat.zero_sub, dropFront_zero nonempty] at now
  have data := recvData_eq room n_small nonempty (by rw [whole]; exact there) body
  rw [whole] at data
  refine ⟨hp', _, _, ?_, announced.error, after (n + 2)⟩
  rw [← kept_eq, ← socket_eq] at sized
  rw [recvChunks]
  simp only [sized, bind, Except.bind, announced.contentLen, data]
  -- a size of zero ends the loop behind its line end
  by_cases none_left : n = 0
  · have done : hp'.parser.chunksDone = true := by simp [announced.chunksDone, none_left]
    simp only [done, if_pos none_left, if_true]
    rfl
  · have more : hp'.parser.chunksDone = false := by
      simp [announced.chunksDone, none_left]
    simp only [more, if_neg none_left, Bool.false_eq_true, if_false]

end Step

/-! ## All chunks -/

/-- A chunk has the size that its line tells. -/
structure IsChunk (chunk : List UInt8 × List UInt8) : Prop where
  is : IsSize chunk.1
  length : chunk.2.length = hexValue chunk.1
  small : hexValue chunk.1 < 2 ^ 31 - 2

/-- Chunks as they are sent: sizes and data. -/
def encode (chunks : List (List UInt8 × List UInt8)) : List UInt8 :=
  chunks.flatMap fun chunk => chunk.1 ++ 13 :: 10 :: (chunk.2 ++ [13, 10])

/-- In every size line the last read starts among the digits, behind zeros only. -/
def linesSpared (limit : Nat) : List (List UInt8) → List Nat → Bool
  | [], _ => true
  | size :: sizes, lengths =>
    let cut := readStart limit lengths (size.length + 1)
    decide (cut < size.length) && (size.take cut).all (· == 48) &&
      linesSpared limit sizes
        (left limit lengths (size.length + 1) (size.length + 2 + (hexValue size + 2)))

theorem encode_cons (chunk : List UInt8 × List UInt8) (chunks : List (List UInt8 × List UInt8)) :
    encode (chunk :: chunks) = chunk.1 ++ 13 :: 10 :: (chunk.2 ++ 13 :: 10 :: encode chunks) := by
  simp [encode]

section Run

variable {env : ClientEnv} {hp : HttpResponseParser} {lengths : List Nat}
  {chunk last : List UInt8 × List UInt8} {kept body : List UInt8} {socket : Socket}

/-- A spared size line: the data of the chunk is taken, and the next chunk is read. -/
theorem recvChunks_spared {fuel : Nat} {more : List UInt8} (room : 0 < env.bufferSize)
    (is : IsChunk chunk) (no_error : hp.error = 0)
    (held : Held env lengths (chunk.1 ++ 13 :: 10 :: (chunk.2 ++ 13 :: 10 :: more)) kept socket)
    (inside : readStart env.bufferSize lengths (chunk.1.length + 1) < chunk.1.length)
    (zeros : (chunk.1.take (readStart env.bufferSize lengths (chunk.1.length + 1))).all (· == 48)) :
    ∃ hp' kept' socket',
      recvChunks env (fuel + 1) hp kept socket body =
        (if hexValue chunk.1 = 0 then .ok (some (hp', body ++ chunk.2, socket'))
          else recvChunks env fuel hp' kept' socket' (body ++ chunk.2)) ∧
      hp'.error = 0 ∧
      Held env (left env.bufferSize lengths (chunk.1.length + 1)
        (chunk.1.length + 2 + (hexValue chunk.1 + 2))) more kept' socket' := by
  have all_zeros : ∀ b ∈ chunk.1.take (readStart env.bufferSize lengths (chunk.1.length + 1)), b = 48 := by
    intro b member
    exact beq_iff_eq.mp (List.all_eq_true.mp zeros b member)
  have read := ((hexValue_drop is.is.digits _).2.mpr all_zeros).symm
  have length_eq := is.length
  obtain ⟨hp', kept', socket', ran, error', held'⟩ :=
    @recvChunks_read env fuel hp lengths chunk.1 _ kept body socket room is.is is.small no_error held
      inside _ read (by simp only [List.length_append, List.length_cons]; omega)
  rw [← length_eq, List.take_left] at ran
  rw [← length_eq, ← List.drop_drop, List.drop_left] at held'
  refine ⟨hp', kept', socket', ?_, error', ?_⟩
  · rw [← length_eq]
    exact ran
  · rw [← length_eq]
    exact held'

/-- What is no size line ends the loop. -/
theorem recvChunks_dead {fuel : Nat} (room : 0 < env.bufferSize) (nonempty : ∀ s ∈ socket, s ≠ [])
    (dead : ∀ b ∈ (kept ++ socket.flatten).head?, clientTransition 1 b = none) :
    recvChunks env fuel hp kept socket body = .ok none := by
  cases fuel with
  | zero => rfl
  | succ fuel =>
    have none_read : recvSize env (socket.flatten.length + 2) true hp kept socket = .ok none :=
      recvSize_dead room nonempty (.inl rfl) dead
    rw [recvChunks]
    simp only [none_read, bind, Except.bind]
    rfl

/-- When all size lines are spared, the body is the data of all chunks. -/
theorem recvChunks_complete {fuel : Nat} {chunks : List (List UInt8 × List UInt8)}
    (room : 0 < env.bufferSize) (are : ∀ chunk ∈ chunks, IsChunk chunk ∧ 0 < hexValue chunk.1)
    (is_last : IsChunk last) (zero : hexValue last.1 = 0) (no_error : hp.error = 0)
    (held : Held env lengths (encode (chunks ++ [last])) kept socket)
    (spared : linesSpared env.bufferSize ((chunks ++ [last]).map Prod.fst) lengths = true)
    (enough : chunks.length < fuel) :
    ∃ hp' socket', recvChunks env fuel hp kept socket body =
      .ok (some (hp', body ++ (chunks.map Prod.snd).flatten, socket')) := by
  -- each chunk leaves the next one held in lengths that are known
  induction chunks generalizing fuel hp lengths kept socket body with
  | nil =>
    obtain ⟨fuel, rfl⟩ := Nat.exists_eq_add_of_lt enough
    rw [List.nil_append, encode_cons] at held
    simp only [List.nil_append, List.map_cons, List.map_nil, linesSpared, Bool.and_eq_true,
      decide_eq_true_eq, and_true] at spared
    obtain ⟨hp', kept', socket', ran, -, -⟩ :=
      @recvChunks_spared env hp lengths last kept body socket (0 + fuel) _ room is_last no_error held
        spared.1 spared.2
    have no_data : last.2 = [] := List.eq_nil_of_length_eq_zero (is_last.length.trans zero)
    rw [if_pos zero, no_data] at ran
    exact ⟨hp', socket', ran⟩
  | cons chunk chunks ih =>
    obtain ⟨fuel, rfl⟩ : ∃ n, fuel = n + 1 := ⟨fuel - 1, by omega⟩
    obtain ⟨is, pos⟩ := are chunk (List.mem_cons_self ..)
    rw [List.cons_append, encode_cons] at held
    simp only [List.cons_append, List.map_cons, linesSpared, Bool.and_eq_true,
      decide_eq_true_eq] at spared
    obtain ⟨hp', kept', socket', ran, error', held'⟩ :=
      @recvChunks_spared env hp lengths chunk kept body socket fuel _ room is no_error held
        spared.1.1 spared.1.2
    rw [List.length_cons] at enough
    obtain ⟨hp'', socket'', rest⟩ :=
      @ih hp' _ kept' (body ++ chunk.2) socket' fuel
        (fun other member => are other (List.mem_cons_of_mem _ member)) error' held' spared.2
        (by omega)
    rw [if_neg (by omega)] at ran
    refine ⟨hp'', socket'', ?_⟩
    rw [ran, rest, List.map_cons, List.flatten_cons, List.append_assoc]

/-- When a size line is not spared, less than the data of all chunks is returned, if that
data is blank. -/
theorem recvChunks_harmed {fuel : Nat} {chunks : List (List UInt8 × List UInt8)}
    (room : 0 < env.bufferSize) (are : ∀ chunk ∈ chunks, IsChunk chunk ∧ 0 < hexValue chunk.1)
    (blank : ∀ chunk ∈ chunks, ∀ b ∈ chunk.2, b = 0)
    (is_last : IsChunk last) (zero : hexValue last.1 = 0) (no_error : hp.error = 0)
    (held : Held env lengths (encode (chunks ++ [last])) kept socket)
    (harmed : linesSpared env.bufferSize ((chunks ++ [last]).map Prod.fst) lengths = false)
    {hp' : HttpResponseParser} {got : List UInt8} {socket' : Socket}
    (ran : recvChunks env fuel hp kept socket body = .ok (some (hp', got, socket'))) :
    got.length < body.length + (chunks.map Prod.snd).flatten.length := by
  -- up to the first line that is not spared all is well; there the loop ends with an error
  -- or with fewer bytes, as blank data is no size line
  induction chunks generalizing fuel hp lengths kept socket body with
  | nil =>
    rw [List.nil_append, encode_cons] at held
    have all_zeros := zeros_of_digitsValue is_last.is.digits zero
    by_cases inside : readStart env.bufferSize lengths (last.1.length + 1) < last.1.length
    · -- a size of zeros cannot be misread
      have zeros : (last.1.take (readStart env.bufferSize lengths (last.1.length + 1))).all (· == 48) := by
        rw [List.all_eq_true]
        intro b member
        exact beq_iff_eq.mpr (all_zeros b (List.mem_of_mem_take member))
      simp [linesSpared, inside, zeros] at harmed
    · have lost : recvChunks env fuel hp kept socket body = .ok none :=
        recvChunks_lost room is_last.is (by omega) no_error held (by omega)
      rw [lost] at ran
      cases ran
  | cons chunk chunks ih =>
    obtain ⟨is, pos⟩ := are chunk (List.mem_cons_self ..)
    have length_eq := is.length
    have small := is.small
    rw [List.cons_append, encode_cons] at held
    rw [List.map_cons, List.flatten_cons, List.length_append]
    by_cases inside : readStart env.bufferSize lengths (chunk.1.length + 1) < chunk.1.length
    · cases fuel with
      | zero => cases ran
      | succ fuel =>
        cases zeros : (chunk.1.take (readStart env.bufferSize lengths (chunk.1.length + 1))).all (· == 48) with
        | true =>
          obtain ⟨hp₁, kept₁, socket₁, first, error₁, held₁⟩ :=
            @recvChunks_spared env hp lengths chunk kept body socket fuel _ room is no_error held
              inside zeros
          rw [first, if_neg (by omega)] at ran
          have later : linesSpared env.bufferSize ((chunks ++ [last]).map Prod.fst)
              (left env.bufferSize lengths (chunk.1.length + 1)
                (chunk.1.length + 2 + (hexValue chunk.1 + 2))) = false := by
            simpa [linesSpared, inside, zeros] using harmed
          have rest := @ih hp₁ _ kept₁ (body ++ chunk.2) socket₁ fuel
            (fun other member => are other (List.mem_cons_of_mem _ member))
            (fun other member => blank other (List.mem_cons_of_mem _ member)) error₁ held₁ later ran
          rw [List.length_append] at rest
          omega
        | false =>
          -- the size is misread, as a smaller one
          obtain ⟨n, read⟩ : ∃ n, n = hexValue (chunk.1.drop
              (readStart env.bufferSize lengths (chunk.1.length + 1))) := ⟨_, rfl⟩
          obtain ⟨below, same_iff⟩ :=
            hexValue_drop is.is.digits (readStart env.bufferSize lengths (chunk.1.length + 1))
          have misread : n ≠ hexValue chunk.1 := by
            rw [read]
            intro same
            have all_zeros := same_iff.mp same
            rw [Bool.eq_false_iff, ne_eq, List.all_eq_true] at zeros
            exact zeros fun b member => beq_iff_eq.mpr (all_zeros b member)
          have there : n + 2 ≤ (chunk.2 ++ 13 :: 10 :: encode (chunks ++ [last])).length := by
            simp only [List.length_append, List.length_cons]
            omega
          obtain ⟨hp₁, kept₁, socket₁, first, -, held₁⟩ :=
            @recvChunks_read env fuel hp lengths chunk.1 _ kept body socket room is.is is.small
              no_error held inside n read there
          rw [first] at ran
          split at ran
          next none_left =>
            rw [none_left, List.take_zero, List.append_nil] at ran
            cases ran
            omega
          next =>
            -- behind the smaller size there is no size line
            have dead : ∀ b ∈ (kept₁ ++ socket₁.flatten).head?, clientTransition 1 b = none := by
              intro b first
              have split : chunk.2 ++ 13 :: 10 :: encode (chunks ++ [last]) =
                  (chunk.2 ++ [13, 10]) ++ encode (chunks ++ [last]) := by simp
              have some_left : (chunk.2 ++ [13, 10]).drop (n + 2) ≠ [] := by
                apply List.ne_nil_of_length_pos
                simp only [List.length_drop, List.length_append, List.length_cons, List.length_nil]
                omega
              rw [held₁.stream, split, List.drop_append_of_le_length (by
                simp only [List.length_append, List.length_cons, List.length_nil]
                omega), List.head?_append_of_ne_nil _ some_left] at first
              have member := List.mem_of_mem_drop (List.mem_of_mem_head? first)
              rcases List.mem_append.mp member with data | line_end
              · rw [blank chunk (List.mem_cons_self ..) b data]
                decide
              · simp only [List.mem_cons, List.not_mem_nil, or_false] at line_end
                rcases line_end with rfl | rfl <;> decide
            rw [recvChunks_dead room held₁.nonempty dead] at ran
            cases ran
    · have lost : recvChunks env fuel hp kept socket body = .ok none :=
        recvChunks_lost room is.is (by omega) no_error held (by omega)
      rw [lost] at ran
      cases ran

end Run

end ServerFrame.Http
