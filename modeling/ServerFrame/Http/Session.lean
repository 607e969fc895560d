import ServerFrame.Http.Parser
import ServerFrame.Lib.Segments

/-!
# `HttpSession::RecvRequest`

A connection is the list of segments in which its bytes arrive. A read never goes past
the end of a segment, so that the segments are the packet boundaries the session sees.
-/
namespace ServerFrame.Http

open Segments

abbrev Socket := List (List UInt8)

/-- The most that one `recv` returns. -/
def recvMax : Nat := 0x7ffff000

/-- `Read`: `none` is the end of the connection. -/
def read (length : Nat) : Socket → Option (List UInt8 × Socket)
  | [] => none
  | segment :: socket =>
    let n := min length recvMax
    if segment.length ≤ n then some (segment, socket)
    else some (segment.take n, segment.drop n :: socket)

/-- A read takes a front part of the first segment. -/
theorem read_eq {s : List UInt8} {socket : Socket} (nonempty : ∀ t ∈ socket, t ≠ []) (length : Nat) :
    read length (s :: socket) = some (s.take (min length recvMax),
      dropFront (min (min length recvMax) s.length) (s :: socket)) := by
  rw [read, dropFront]
  by_cases short : s.length ≤ min length recvMax
  · have all_left := dropFront_zero nonempty
    simp only [if_pos short, Nat.min_eq_right short, Nat.lt_irrefl, if_false, Nat.sub_self,
      all_left, List.take_of_length_le short]
  · have long : min length recvMax < s.length := by omega
    simp only [if_neg short, Nat.min_eq_left (Nat.le_of_lt long), if_pos long]

/-- What a read brings off the front of the stream. -/
theorem read_front {socket : Socket} (nonempty : ∀ s ∈ socket, s ≠ []) {length : Nat}
    (asked : 0 < length) (there : 0 < socket.flatten.length) :
    ∃ k, 0 < k ∧ k ≤ length ∧ (socket.flatten.take k).length = k ∧
      read length socket = some (socket.flatten.take k, dropFront k socket) := by
  cases socket with
  | nil => cases there
  | cons s socket =>
    have s_pos : 0 < s.length := List.length_pos_iff.mpr (nonempty s (List.mem_cons_self ..))
    obtain ⟨k, k_eq⟩ : ∃ k, k = min (min length recvMax) s.length := ⟨_, rfl⟩
    have k_pos : 0 < k := by
      rw [k_eq, recvMax]
      omega
    have front : s.take (min length recvMax) = (s :: socket).flatten.take k := by
      rw [List.flatten_cons, List.take_append_of_le_length (by omega), List.take_eq_take_iff]
      omega
    have got_length : ((s :: socket).flatten.take k).length = k := by
      rw [List.length_take, List.flatten_cons, List.length_append]
      omega
    refine ⟨k, k_pos, by omega, got_length, ?_⟩
    rw [read_eq (fun t member => nonempty t (List.mem_cons_of_mem s member)), ← k_eq, front]

section ReadSome

variable {n : Nat} {got : List UInt8} {socket socket' : Socket}

theorem read_length (read_some : read n socket = some (got, socket')) :
    got.length ≤ n := by
  cases socket with
  | nil => cases read_some
  | cons s socket =>
    rw [read] at read_some
    split at read_some
    next =>
      cases read_some
      omega
    next =>
      cases read_some
      rw [List.length_take]
      omega

theorem read_flatten (read_some : read n socket = some (got, socket')) :
    got ++ socket'.flatten = socket.flatten := by
  cases socket with
  | nil => cases read_some
  | cons s socket =>
    rw [read] at read_some
    split at read_some
    next =>
      cases read_some
      rfl
    next =>
      cases read_some
      rw [List.flatten_cons, List.flatten_cons, ← List.append_assoc, List.take_append_drop]

theorem read_nonempty (nonempty : ∀ s ∈ socket, s ≠ [])
    (read_some : read n socket = some (got, socket')) : ∀ s ∈ socket', s ≠ [] := by
  cases socket with
  | nil => cases read_some
  | cons s socket =>
    rw [read_eq fun t member => nonempty t (List.mem_cons_of_mem _ member)] at read_some
    cases read_some
    exact fun t member => ne_nil_of_mem_dropFront nonempty member

end ReadSome

/-- The loop of `ReadFixSize`. Every pass reads at least one byte, so `fuel` is enough if
it is not less than `left`. -/
def readFixLoop : Nat → Nat → Socket → Option (List UInt8 × Socket)
  | _, 0, socket => some ([], socket)
  | 0, _ + 1, _ => none
  | fuel + 1, left + 1, socket =>
    match read (left + 1) socket with
    | none => none
    | some (got, socket) =>
      if got = [] then none
      else (readFixLoop fuel (left + 1 - got.length) socket).map fun (rest, socket) =>
        (got ++ rest, socket)

/-- A value of type `size_t` as an `int`. -/
def toInt (n : Nat) : Int := Int.bmod n (2 ^ 32)

/-- A value of type `uint64_t` as an `int64_t`. -/
def toInt64 (n : UInt64) : Int := Int.bmod n.toNat (2 ^ 64)

/-- `ReadFixSize` with the test of its result, which is the length as an `int`. -/
def readFixSize (length : Nat) (socket : Socket) : Option (List UInt8 × Socket) :=
  match readFixLoop length length socket with
  | none => none
  | some (got, socket) => if toInt length ≤ 0 then none else some (got, socket)

/-- What a session depends on: the size of its buffer, which one `recv` can fill, and
`boost::lexical_cast<uint64_t>`. -/
structure Env where
  bufferSize : Nat
  small : bufferSize ≤ recvMax
  lexicalCast : List UInt8 → Option UInt64

/-- The loop of `RecvRequest`, where `kept` is what the parser has left in the buffer. The
result is the parser, what is left behind the header, and the connection. Every pass
reads at least one byte. -/
def recvHead (env : Env) : Nat → HttpRequestParser → List UInt8 → Socket →
    Except Fault (Option (HttpRequestParser × List UInt8 × Socket))
  | 0, _, _, _ => .ok none
  | fuel + 1, hp, kept, socket =>
    match read (env.bufferSize - kept.length) socket with
    | none => .ok none
    | some (got, socket) =>
      if got = [] then .ok none
      else do
        let buffer := kept ++ got
        let (hp, nparse) ← hp.execute buffer
        if hp.hasError then return none
        let kept := buffer.drop nparse
        if kept.length = env.bufferSize then return none
        if hp.isFinished then return some (hp, kept, socket)
        recvHead env fuel hp kept socket

/-- The body: first what was read behind the header, then the rest of its length. -/
def recvBody (length : Nat) (kept : List UInt8) (socket : Socket) :
    Option (List UInt8 × Socket) :=
  if kept.length < length then
    (readFixSize (length - kept.length) socket).map fun (rest, socket) => (kept ++ rest, socket)
  else some (kept.take length, socket)

/-- What `RecvRequest` does behind the header. -/
def recvRest (env : Env) (hp : HttpRequestParser) (kept : List UInt8) (socket : Socket) :
    Option (HttpRequest × Socket) :=
  let length := toInt64 (hp.getContentLength env.lexicalCast)
  if 0 < length then
    (recvBody length.toNat kept socket).map fun (body, socket) =>
      ({ hp.data with body := body }.init, socket)
  else some (hp.data.init, socket)

/-- `RecvRequest`: `none` is the null pointer, after the session was closed. The buffer is
local, so what it holds behind the request is gone. -/
def recvRequest (env : Env) (memory : Uninitialized) (socket : Socket) :
    Except Fault (Option (HttpRequest × Socket)) := do
  match ← recvHead env (socket.flatten.length + 1) (.new memory) [] socket with
  | none => return none
  | some (hp, kept, socket) => return recvRest env hp kept socket

end ServerFrame.Http
