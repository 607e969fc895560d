import ServerFrame.Http.Unfinished
import Mathlib.Data.List.SplitLengths

/-!
# When a chunked body arrives whole

Each call of `Execute` takes its part of a line out of the buffer, and for a size line it
sets the parser up anew. Which lines a `Read` may cut, and where, is a condition on the
header, on the sizes and on the lengths of what is read; it is exact for the data of these
sizes together.
-/
namespace ServerFrame.Http

open Segments

/-- The length of a chunk of this size as it is sent. -/
def chunkLength (size : List UInt8) : Nat := size.length + hexValue size + 4

/-- A response of which the header announces chunks, and the lengths in which it arrives. -/
structure Arrives (head : List UInt8) (final : Nat) (sizes : List (List UInt8)) (last : List UInt8)
    (lengths : List Nat) : Prop where
  response : head.head? = some 72
  ends : headerEnd 1 false head = some (final, true)
  lines : ∀ size ∈ sizes, IsSize size ∧ 0 < hexValue size ∧ hexValue size < 2 ^ 31 - 2
  last_line : IsSize last ∧ hexValue last = 0
  nonempty : ∀ n ∈ lengths, 0 < n
  total : lengths.sum = head.length + (sizes.map chunkLength).sum + chunkLength last

/-- The body is the data of the chunks, whatever the data is. -/
def Delivers (env : ClientEnv) (head : List UInt8) (sizes : List (List UInt8)) (last : List UInt8)
    (lengths : List Nat) : Prop :=
  ∀ chunks : List (List UInt8 × List UInt8), chunks.map Prod.fst = sizes →
    (∀ chunk ∈ chunks, chunk.2.length = hexValue chunk.1) →
    ∀ socket : Socket, socket.map List.length = lengths →
      socket.flatten = head ++ encode (chunks ++ [(last, [])]) →
      ∃ hp socket', recvContent env socket =
        .ok (some (hp, (chunks.map Prod.snd).flatten, socket'))

/-! ## What is sent -/

theorem length_encode {chunks : List (List UInt8 × List UInt8)}
    (data : ∀ chunk ∈ chunks, chunk.2.length = hexValue chunk.1) :
    (encode chunks).length = ((chunks.map Prod.fst).map chunkLength).sum := by
  induction chunks with
  | nil => rfl
  | cons chunk chunks ih =>
    have length_eq := data chunk (List.mem_cons_self ..)
    have rest := ih fun other member => data other (List.mem_cons_of_mem _ member)
    rw [encode_cons]
    simp only [List.length_append, List.length_cons, List.map_cons, List.sum_cons, rest, chunkLength,
      length_eq]
    omega

theorem length_le_encode (chunks : List (List UInt8 × List UInt8)) :
    chunks.length ≤ (encode chunks).length := by
  induction chunks with
  | nil => exact Nat.le_refl _
  | cons chunk chunks ih =>
    rw [encode_cons]
    simp only [List.length_append, List.length_cons]
    omega

section

variable {head last : List UInt8} {final : Nat} {sizes : List (List UInt8)} {lengths : List Nat}
  {chunks : List (List UInt8 × List UInt8)} {socket : Socket}

theorem Arrives.is_last (arrives : Arrives head final sizes last lengths) : IsChunk (last, []) where
  is := arrives.last_line.1
  length := arrives.last_line.2.symm
  small := by
    rw [arrives.last_line.2]
    decide

theorem Arrives.are (arrives : Arrives head final sizes last lengths)
    (same : chunks.map Prod.fst = sizes) (data : ∀ chunk ∈ chunks, chunk.2.length = hexValue chunk.1) :
    ∀ chunk ∈ chunks, IsChunk chunk ∧ 0 < hexValue chunk.1 := by
  intro chunk member
  obtain ⟨is, pos, small⟩ := arrives.lines chunk.1 (same ▸ List.mem_map_of_mem member)
  exact ⟨⟨is, data chunk member, small⟩, pos⟩

theorem Arrives.segments (arrives : Arrives head final sizes last lengths)
    (same : socket.map List.length = lengths) : ∀ s ∈ socket, s ≠ [] := by
  intro s member
  have pos := arrives.nonempty s.length (same ▸ List.mem_map_of_mem member)
  exact List.ne_nil_of_length_pos pos

theorem Arrives.length_pos (arrives : Arrives head final sizes last lengths) : 0 < head.length := by
  cases head with
  | nil => cases arrives.response
  | cons b head => exact Nat.succ_pos _

theorem Arrives.state (arrives : Arrives head final sizes last lengths) :
    HeaderState (final, true) head .new where
  ends := arrives.ends
  alive := by decide
  response := fun _ => arrives.response
  fresh := rfl

/-- Data that no size line and no field begins with. -/
def blankChunks (sizes : List (List UInt8)) : List (List UInt8 × List UInt8) :=
  sizes.map fun size => (size, List.replicate (hexValue size) 0)

theorem map_fst_blankChunks (sizes : List (List UInt8)) : (blankChunks sizes).map Prod.fst = sizes := by
  rw [blankChunks, List.map_map]
  exact List.map_id sizes

theorem length_blankChunks : ∀ chunk ∈ blankChunks sizes, chunk.2.length = hexValue chunk.1 := by
  intro chunk member
  obtain ⟨size, -, rfl⟩ := List.mem_map.mp member
  exact List.length_replicate

theorem blank_blankChunks : ∀ chunk ∈ blankChunks sizes, ∀ b ∈ chunk.2, b = 0 := by
  intro chunk member b inside
  obtain ⟨size, -, rfl⟩ := List.mem_map.mp member
  exact List.eq_of_mem_replicate inside

/-- Blank chunks arrive in these lengths. -/
theorem Arrives.blank_socket (arrives : Arrives head final sizes last lengths) :
    ∃ socket : Socket, socket.map List.length = lengths ∧
      socket.flatten = head ++ encode (blankChunks sizes ++ [(last, [])]) := by
  have data : ∀ chunk ∈ blankChunks sizes ++ [(last, [])], chunk.2.length = hexValue chunk.1 := by
    intro chunk member
    rcases List.mem_append.mp member with blank | end_chunk
    · exact length_blankChunks chunk blank
    · rw [List.mem_singleton.mp end_chunk]
      exact arrives.is_last.length
  have total : lengths.sum = (head ++ encode (blankChunks sizes ++ [(last, [])])).length := by
    rw [List.length_append, length_encode data, List.map_append, map_fst_blankChunks, arrives.total]
    simp [Nat.add_assoc]
  exact ⟨lengths.splitLengths _, List.map_splitLengths_length _ _ (Nat.le_of_eq total),
    List.flatten_splitLengths _ _ (Nat.le_of_eq total.symm)⟩

end

/-! ## The header and the chunks -/

section

variable {env : ClientEnv} {head last : List UInt8} {final : Nat} {sizes : List (List UInt8)}
  {lengths : List Nat} {chunks : List (List UInt8 × List UInt8)} {socket : Socket}

theorem recvHeader_no_room (none_fit : env.bufferSize = 0) (fuel : Nat) (hp : HttpResponseParser)
    (nonempty : ∀ s ∈ socket, s ≠ []) : recvHeader env fuel hp [] socket = .ok none := by
  -- a read of no bytes is taken for the end of the connection
  have filled : refill env [] socket = none := by
    cases socket with
    | nil => rfl
    | cons s socket =>
      have some_in := List.length_pos_iff.mpr (nonempty s (List.mem_cons_self ..))
      have beyond : ¬ s.length ≤ 0 := by omega
      simp [refill, read, none_fit, beyond]
  cases fuel with
  | zero => rfl
  | succ fuel => rw [recvHeader, filled]

/-- A body in chunks comes behind a header that was read. -/
theorem recvContent_some {hp : HttpResponseParser} {body : List UInt8} {socket' : Socket}
    (ran : recvContent env socket = .ok (some (hp, body, socket'))) :
    ∃ hp₁ kept rest,
      recvHeader env (socket.flatten.length + 1) .new [] socket = .ok (some (hp₁, kept, rest)) ∧
      (hp₁.parser.chunked = true →
        recvChunks env (kept.length + rest.flatten.length + 1) hp₁ kept rest [] =
          .ok (some (hp, body, socket'))) := by
  cases headed : recvHeader env (socket.flatten.length + 1) .new [] socket with
  | error fault =>
    simp only [recvContent, headed, bind, Except.bind] at ran
    cases ran
  | ok result =>
    cases result with
    | none =>
      simp only [recvContent, headed, bind, Except.bind] at ran
      cases ran
    | some read =>
      obtain ⟨hp₁, kept, rest⟩ := read
      refine ⟨hp₁, kept, rest, rfl, fun chunked => ?_⟩
      simp only [recvContent, headed, bind, Except.bind, if_pos chunked] at ran
      exact ran

/-- When the header is read, the chunks come next, in lengths that do not depend on them. -/
theorem recvHeader_held (arrives : Arrives head httpclientParserFirstFinal sizes last lengths)
    (room : 0 < env.bufferSize) (same : socket.map List.length = lengths) {after : List UInt8}
    (stream : socket.flatten = head ++ after)
    (spared : versionSpared env.bufferSize lengths head = true) :
    ∃ hp kept rest,
      recvHeader env (socket.flatten.length + 1) .new [] socket = .ok (some (hp, kept, rest)) ∧
      hp.parser.chunked = true ∧ hp.error = 0 ∧
      Held env (left env.bufferSize lengths (head.length - 1) head.length) after kept rest := by
  have nonempty := arrives.segments same
  have pos := arrives.length_pos
  have position : head.length - 1 + 1 = head.length := Nat.sub_add_cancel pos
  obtain ⟨hp, ran, chunked, no_error⟩ :=
    (recvHeader_spec room arrives.state rfl stream nonempty (Nat.lt_succ_self _)).2
      (fun _ => by rw [same]; exact spared) rfl
  have behind : socket.flatten.drop (head.length - 1 + 1) = after := by
    rw [position, stream, List.drop_left]
  have inside : head.length - 1 < socket.flatten.length := by
    rw [stream, List.length_append]
    omega
  have kept_eq : after.take (readStop env.bufferSize (socket.map List.length) (head.length - 1) -
        head.length) =
      (socket.flatten.drop (head.length - 1 + 1)).take
        (readStop env.bufferSize (socket.map List.length) (head.length - 1) -
          (head.length - 1 + 1)) := by
    rw [behind, position]
  have held := held_left room nonempty inside 0 kept_eq
  rw [Nat.add_zero, behind, position, same, List.drop_zero, Nat.zero_sub,
    dropFront_zero fun s member => ne_nil_of_mem_dropFront nonempty member] at held
  rw [same] at ran
  exact ⟨hp, _, _, ran, chunked, no_error, held⟩

theorem delivers_of_spared (arrives : Arrives head httpclientParserFirstFinal sizes last lengths)
    (room : 0 < env.bufferSize) (version : versionSpared env.bufferSize lengths head = true)
    (lines : linesSpared env.bufferSize (sizes ++ [last])
      (left env.bufferSize lengths (head.length - 1) head.length) = true) :
    Delivers env head sizes last lengths := by
  intro chunks same data socket cut stream
  obtain ⟨hp, kept, rest, headed, chunked, no_error, held⟩ :=
    recvHeader_held arrives room cut stream version
  have enough : chunks.length < kept.length + rest.flatten.length + 1 := by
    -- every chunk takes at least one byte
    have bytes := length_le_encode (chunks ++ [(last, [])])
    rw [List.length_append, ← held.stream, List.length_append] at bytes
    omega
  have spared : linesSpared env.bufferSize ((chunks ++ [(last, [])]).map Prod.fst)
      (left env.bufferSize lengths (head.length - 1) head.length) = true := by
    rw [List.map_append, same]
    exact lines
  obtain ⟨hp', socket', ran⟩ :=
    @recvChunks_complete env hp _ (last, []) kept [] rest _ chunks room (arrives.are same data)
      arrives.is_last arrives.last_line.2 no_error held spared enough
  refine ⟨hp', socket', ?_⟩
  simp only [recvContent, headed, bind, Except.bind, if_pos chunked]
  exact ran

/-- Of what no line is spared, no body is delivered for blank data. -/
theorem spared_of_delivers (arrives : Arrives head final sizes last lengths)
    (delivers : Delivers env head sizes last lengths) :
    0 < env.bufferSize ∧ final = httpclientParserFirstFinal ∧
      versionSpared env.bufferSize lengths head = true ∧
      linesSpared env.bufferSize (sizes ++ [last])
        (left env.bufferSize lengths (head.length - 1) head.length) = true := by
  -- blank data is one of the data of these sizes
  obtain ⟨socket, cut, stream⟩ := arrives.blank_socket
  have nonempty := arrives.segments cut
  have are := arrives.are (map_fst_blankChunks sizes) length_blankChunks
  obtain ⟨hp, socket', ran⟩ :=
    delivers _ (map_fst_blankChunks sizes) length_blankChunks socket cut stream
  obtain ⟨hp₁, kept, rest, headed, chunks_read⟩ := recvContent_some ran
  have room : 0 < env.bufferSize := by
    by_contra none_fit
    rw [recvHeader_no_room (by omega) _ _ nonempty] at headed
    cases headed
  have same_final : final = httpclientParserFirstFinal := by
    by_contra other
    obtain ⟨chunked, none_left, rest_ne⟩ := recvHeader_unfinished arrives.ends other are
      blank_blankChunks arrives.is_last arrives.last_line.2 nonempty stream headed
    -- the stream is used up by the header, and there is no size line
    have lost := chunks_read chunked
    rw [recvChunks_dead room rest_ne (by rw [none_left]; simp)] at lost
    cases lost
  subst same_final
  have version : versionSpared env.bufferSize lengths head = true := by
    by_contra harmed
    have lost := (recvHeader_spec room arrives.state rfl stream nonempty (Nat.lt_succ_self _)).1
      fun passes => harmed (by rw [← cut]; exact passes rfl)
    rw [lost] at headed
    cases headed
  refine ⟨room, rfl, version, ?_⟩
  by_contra harmed
  obtain ⟨hp₂, kept₂, rest₂, headed₂, chunked, no_error, held⟩ :=
    recvHeader_held arrives room cut stream version
  rw [headed₂] at headed
  cases headed
  have lines : linesSpared env.bufferSize ((blankChunks sizes ++ [(last, [])]).map Prod.fst)
      (left env.bufferSize lengths (head.length - 1) head.length) = false := by
    rw [List.map_append, map_fst_blankChunks]
    exact Bool.eq_false_iff.mpr harmed
  have shorter := recvChunks_harmed room are blank_blankChunks arrives.is_last arrives.last_line.2 no_error
    held lines (chunks_read chunked)
  rw [List.length_nil, Nat.zero_add] at shorter
  exact absurd shorter (Nat.lt_irrefl _)

end

/-- The data of every chunk arrives, whatever it is, exactly when the header ends in
`first_final`, no `Read` cuts the version so that the parser does not know the rest of it,
and the last `Read` of each size line starts behind zeros only, in front of a digit. -/
theorem recvContent_chunked_iff (env : ClientEnv) {head last : List UInt8} {final : Nat}
    {sizes : List (List UInt8)} {lengths : List Nat} (arrives : Arrives head final sizes last lengths) :
    Delivers env head sizes last lengths ↔
      0 < env.bufferSize ∧ final = httpclientParserFirstFinal ∧
        versionSpared env.bufferSize lengths head = true ∧
        linesSpared env.bufferSize (sizes ++ [last])
          (left env.bufferSize lengths (head.length - 1) head.length) = true := by
  constructor
  · exact spared_of_delivers arrives
  · rintro ⟨room, rfl, version, lines⟩
    exact delivers_of_spared arrives room version lines

theorem client_small : 4096 ≤ recvMax := by
  decide

def client : ClientEnv where
  bufferSize := 4096
  small := client_small
  lexicalCast := fun _ => none
  gunzip := id
  inflate := id

def chunkedHead : List UInt8 :=
  ascii "HTTP/1.1 200 OK\r\nTransfer-Encoding: chunked\r\n\r\n"

/-- One chunk of 26 bytes, of which the first read brings the front. -/
theorem recvContent_chunked_iff_data : Delivers client chunkedHead [ascii "1A"] (ascii "0") [60, 24] :=
  (recvContent_chunked_iff client
    { response := by decide
      ends := (by decide : headerEnd 1 false chunkedHead = some (120, true))
      lines := fun size member => by
        rw [List.mem_singleton.mp member]
        exact ⟨⟨by decide, by decide +kernel⟩, by decide⟩
      last_line := ⟨⟨by decide, by decide +kernel⟩, by decide⟩
      nonempty := by decide
      total := by decide }).mpr (by decide)

/-- A `Read` between the digits of the size: its second digit is taken for the size, and the
rest of the data is no size line. -/
theorem recvContent_loses_chunk :
    chunkedHead ++ encode [(ascii "1A", List.replicate 26 120), (ascii "0", [])] =
        List.flatten [chunkedHead ++ ascii "1",
          ascii "A\r\n" ++ List.replicate 26 120 ++ ascii "\r\n0\r\n\r\n"] ∧
      recvContent client [chunkedHead ++ ascii "1",
          ascii "A\r\n" ++ List.replicate 26 120 ++ ascii "\r\n0\r\n\r\n"] = .ok none := by
  decide

end ServerFrame.Http
