import Mathlib.Algebra.Order.Ring.Int
import ServerFrame.ByteArray.Scatter

/-!
# Segments over TLS

`SSLSocket::Send` and `Recv` of a list of segments make one call of the SSL layer for each of
them, and `SocketStream` moves the position of a `ByteArray` by what they return. What the calls
return is given one by one, and a result above zero is the number of bytes that were moved.
-/
namespace ServerFrame.SslSocket

open ServerFrame.ByteArray EState

/-- The SSL layer: what the `i`-th call returns when it is asked for `num` bytes. A call moves no
more bytes than it is asked for. -/
structure Layer where
  result : Nat → Int → Int
  honest : ∀ i num, 0 < result i num → result i num ≤ num

/-- `ssl` says that `ssl_` is set. The peer sends the bytes `incoming`, of which `received` have
been read; `sent` are the bytes that were written to it, and `written` their number as the calls
returned it. -/
structure SSLSocket where
  isConnected : Bool
  ssl : Bool
  layer : Layer
  calls : Nat
  incoming : Nat → UInt8
  received : Nat
  written : Nat
  sent : List UInt8

/-- `(int) n`. -/
def asInt (n : Int) : Int := Int.bmod n (2 ^ 32)

namespace SSLSocket

/-- The length of a segment as it is given to the SSL layer. -/
def num (iov : Iovec) : Int := asInt iov.len

/-- The next `n` bytes from the peer. -/
def ahead (sock : SSLSocket) (n : Nat) : List UInt8 :=
  (List.range n).map fun i => sock.incoming (sock.received + i)

/-- `SSL_read(ssl, iov_base, iov_len)`, on the nodes that the segments lie in. -/
def sslRead (iov : Iovec) (sock : SSLSocket) (nodes : List Node) : Int × SSLSocket × List Node :=
  let tmp := sock.layer.result sock.calls (num iov)
  (tmp,
    { sock with calls := sock.calls + 1, received := sock.received + tmp.toNat },
    nodes.modify iov.node fun node => node.store iov.offset (sock.ahead tmp.toNat))

/-- `SSL_write(ssl, iov_base, iov_len)`. -/
def sslWrite (iov : Iovec) (sock : SSLSocket) (nodes : List Node) : Int × SSLSocket × List Node :=
  let tmp := sock.layer.result sock.calls (num iov)
  (tmp,
    { sock with
      calls := sock.calls + 1
      written := sock.written + tmp.toNat
      sent := sock.sent ++ (gather nodes [iov]).take tmp.toNat },
    nodes)

/-- The loop over the segments. -/
def loop (call : Iovec → SSLSocket → List Node → Int × SSLSocket × List Node) :
    List Iovec → Int → SSLSocket → List Node → Int × SSLSocket × List Node
  | [], total, sock, nodes => (total, sock, nodes)
  | iov :: iovs, total, sock, nodes =>
    let (tmp, sock', nodes') := call iov sock nodes
    if tmp ≤ 0 then (tmp, sock', nodes')
    else if tmp ≠ asInt iov.len then (asInt (total + tmp), sock', nodes')
    else loop call iovs (asInt (total + tmp)) sock' nodes'

/-- `Recv(iovec*, size_t, int)`. -/
def recv (iovs : List Iovec) (sock : SSLSocket) (nodes : List Node) : Int × SSLSocket × List Node :=
  if sock.ssl then loop sslRead iovs 0 sock nodes else (-1, sock, nodes)

/-- `Send(const iovec*, size_t, int)`. -/
def send (iovs : List Iovec) (sock : SSLSocket) (nodes : List Node) : Int × SSLSocket × List Node :=
  if sock.ssl then loop sslWrite iovs 0 sock nodes else (-1, sock, nodes)

end SSLSocket

namespace SocketStream

open SSLSocket

/-- `SocketStream::Read(ByteArray::ptr, size_t)`. -/
def read (sock : SSLSocket) (length : Nat) : ByteArrayM (Int × SSLSocket) := do
  if !sock.isConnected then return (-1, sock)
  let iovs ← getWriteBuffers length
  let ba ← get
  let (rt, sock', nodes) := sock.recv iovs ba.nodes
  set { ba with nodes := nodes }
  if rt > 0 then setPosition (ba.position + rt.toNat)
  return (rt, sock')

/-- `SocketStream::Write(ByteArray::ptr, size_t)`. -/
def write (sock : SSLSocket) (length : Nat) : ByteArrayM (Int × SSLSocket) := do
  if !sock.isConnected then return (-1, sock)
  let (iovs, _) ← getReadBuffers length
  let ba ← get
  let (rt, sock', nodes) := sock.send iovs ba.nodes
  set { ba with nodes := nodes }
  if rt > 0 then setPosition (ba.position + rt.toNat)
  return (rt, sock')

end SocketStream

/-! ## What the functions are for -/

namespace SSLSocket

/-- What the `n`-th call from now on returns for the segment. -/
def answer (sock : SSLSocket) (n : Nat) (iov : Iovec) : Int :=
  sock.layer.result (sock.calls + n) (num iov)

/-- Each of the first `n` calls fills its segment. -/
def Filled (sock : SSLSocket) (iovs : List Iovec) (n : Nat) : Prop :=
  ∀ j iov, j < n → iovs[j]? = some iov → 0 < num iov ∧ sock.answer j iov = num iov

/-- What the first `n` calls are asked for. -/
def asked (iovs : List Iovec) (n : Nat) : Int := ((iovs.take n).map num).sum

/-- No call fails behind one that moved bytes, and what is moved is an `int`. -/
structure Clean (sock : SSLSocket) (iovs : List Iovec) : Prop where
  positive : ∀ n iov, 0 < n → iovs[n]? = some iov → sock.Filled iovs n → 0 < sock.answer n iov
  fits : ∀ n iov, iovs[n]? = some iov → sock.Filled iovs n →
    asked iovs n + sock.answer n iov < 2 ^ 31

/-- The function returns the number of bytes that have gone through, if there are any. -/
def Reports (moved : SSLSocket → Nat) (sock : SSLSocket) (out : Int × SSLSocket × List Node) : Prop :=
  ∀ k : Nat, 0 < k → moved out.2.1 = moved sock + k → out.1 = k

end SSLSocket

namespace SocketStream

open SSLSocket

/-- `Read` returns the number of bytes that have been received, and the position is behind them. -/
def ReadsAll (sock : SSLSocket) (length : Nat) (ba : ServerFrame.ByteArray) : Prop :=
  ∃ (rt : Int) (sock' : SSLSocket) (ba' : ServerFrame.ByteArray) (k : Nat),
    read sock length ba = .ok (rt, sock') ba' ∧ sock'.received = sock.received + k ∧
    (0 < k → rt = k) ∧ ba'.position = ba.position + k ∧
    (length < 2 ^ 31 → contents ba' = Splice.splice (contents ba) ba.position (sock.ahead k))

/-- `Write` returns the number of bytes that have been sent, and the position is behind them. -/
def WritesAll (sock : SSLSocket) (length : Nat) (ba : ServerFrame.ByteArray) : Prop :=
  ∃ (rt : Int) (sock' : SSLSocket) (ba' : ServerFrame.ByteArray) (k : Nat),
    write sock length ba = .ok (rt, sock') ba' ∧ sock'.written = sock.written + k ∧
    (0 < k → rt = k) ∧ ba'.position = ba.position + k ∧ contents ba' = contents ba ∧
    (length < 2 ^ 31 → sock'.sent = sock.sent ++ ((contents ba).drop ba.position).take k)

end SocketStream

/-! ## The loop -/

section Loop

open SSLSocket

variable {sock : SSLSocket} {iov : Iovec} {iovs : List Iovec} {n T : Nat}

theorem asInt_le {n : Int} (nonneg : 0 ≤ n) : asInt n ≤ n := by
  rw [asInt, Int.bmod_def]
  push_cast
  split <;> omega

theorem asInt_eq_iff {n : Int} (nonneg : 0 ≤ n) : asInt n = n ↔ n < 2 ^ 31 := by
  unfold asInt
  constructor
  · intro same
    have := Int.bmod_lt (x := n) (m := 2 ^ 32) (by decide)
    omega
  · intro small
    exact Int.bmod_eq_of_le (by omega) (by omega)

theorem asInt_add (m n : Int) : asInt (asInt m + n) = asInt (m + n) := Int.bmod_add_bmod

/-- What both kinds of call have in common; `moved` counts the bytes that went through. -/
structure Moves (call : Iovec → SSLSocket → List Node → Int × SSLSocket × List Node)
    (moved : SSLSocket → Nat) : Prop where
  result : ∀ iov sock nodes, (call iov sock nodes).1 = sock.answer 0 iov
  layer : ∀ iov sock nodes, (call iov sock nodes).2.1.layer = sock.layer
  calls : ∀ iov sock nodes, (call iov sock nodes).2.1.calls = sock.calls + 1
  moved : ∀ iov sock nodes,
    moved (call iov sock nodes).2.1 = moved sock + (sock.answer 0 iov).toNat

theorem moves_read : Moves sslRead SSLSocket.received :=
  ⟨fun _ _ _ => rfl, fun _ _ _ => rfl, fun _ _ _ => rfl, fun _ _ _ => rfl⟩

theorem moves_write : Moves sslWrite SSLSocket.written :=
  ⟨fun _ _ _ => rfl, fun _ _ _ => rfl, fun _ _ _ => rfl, fun _ _ _ => rfl⟩

/-- `Clean` behind calls that have moved `T` bytes. -/
structure CleanFrom (T : Nat) (sock : SSLSocket) (iovs : List Iovec) : Prop where
  start : (T : Int) < 2 ^ 31
  positive : ∀ n iov, 0 < n ∨ 0 < T → iovs[n]? = some iov → sock.Filled iovs n →
    0 < sock.answer n iov
  fits : ∀ n iov, iovs[n]? = some iov → sock.Filled iovs n →
    T + asked iovs n + sock.answer n iov < 2 ^ 31

theorem cleanFrom_zero : CleanFrom 0 sock iovs ↔ sock.Clean iovs := by
  constructor
  · intro clean
    refine ⟨fun n iov later => clean.positive n iov (.inl later), fun n iov known filled => ?_⟩
    simpa using clean.fits n iov known filled
  · intro clean
    refine ⟨by decide, fun n iov later => ?_, fun n iov known filled => ?_⟩
    · exact clean.positive n iov (later.resolve_right (Nat.lt_irrefl 0))
    · simpa using clean.fits n iov known filled

/-- No call comes behind one that does not fill its segment. -/
theorem not_filled (short : ¬(0 < num iov ∧ sock.answer 0 iov = num iov)) :
    ¬sock.Filled (iov :: iovs) (n + 1) :=
  fun filled => short (filled 0 iov (Nat.succ_pos n) rfl)

theorem filled_zero : sock.Filled iovs 0 := fun j _ before => absurd before (Nat.not_lt_zero j)

/-- A first call that fails. -/
theorem cleanFrom_failed (failed : sock.answer 0 iov ≤ 0) :
    CleanFrom T sock (iov :: iovs) ↔ T = 0 := by
  have short : ¬(0 < num iov ∧ sock.answer 0 iov = num iov) := by omega
  constructor
  · intro clean
    by_contra some_
    have := clean.positive 0 iov (.inr (Nat.pos_of_ne_zero some_)) rfl filled_zero
    omega
  · rintro rfl
    refine ⟨by decide, fun n b later known filled => ?_, fun n b known filled => ?_⟩
    · cases n with
      | zero => omega
      | succ n => exact absurd filled (not_filled short)
    · cases n with
      | zero =>
        obtain rfl := Option.some.inj known
        simp only [asked, List.take_zero, List.map_nil, List.sum_nil]
        omega
      | succ n => exact absurd filled (not_filled short)

/-- A first call that leaves room in its segment. -/
theorem cleanFrom_short (moved : 0 < sock.answer 0 iov) (room : sock.answer 0 iov ≠ num iov) :
    CleanFrom T sock (iov :: iovs) ↔ T + sock.answer 0 iov < 2 ^ 31 := by
  have short : ¬(0 < num iov ∧ sock.answer 0 iov = num iov) := fun filled => room filled.2
  constructor
  · intro clean
    simpa [asked] using clean.fits 0 iov rfl filled_zero
  · intro fits
    refine ⟨by omega, fun n b later known filled => ?_, fun n b known filled => ?_⟩
    · cases n with
      | zero =>
        obtain rfl := Option.some.inj known
        exact moved
      | succ n => exact absurd filled (not_filled short)
    · cases n with
      | zero =>
        obtain rfl := Option.some.inj known
        simpa [asked] using fits
      | succ n => exact absurd filled (not_filled short)

section Next

variable {sock' : SSLSocket}

theorem answer_next (layer : sock'.layer = sock.layer) (calls : sock'.calls = sock.calls + 1)
    (n : Nat) : sock'.answer n iov = sock.answer (n + 1) iov := by
  rw [answer, answer, layer, calls, Nat.add_right_comm, Nat.add_assoc]

theorem filled_next (layer : sock'.layer = sock.layer) (calls : sock'.calls = sock.calls + 1)
    (moved : 0 < num iov) (full : sock.answer 0 iov = num iov) :
    sock.Filled (iov :: iovs) (n + 1) ↔ sock'.Filled iovs n := by
  constructor
  · intro filled j b before known
    rw [answer_next layer calls]
    exact filled (j + 1) b (Nat.succ_lt_succ before) known
  · intro filled j b before known
    cases j with
    | zero =>
      obtain rfl := Option.some.inj known
      exact ⟨moved, full⟩
    | succ j =>
      rw [← answer_next layer calls]
      exact filled j b (Nat.lt_of_succ_lt_succ before) known

/-- A first call that fills its segment. -/
theorem cleanFrom_full (layer : sock'.layer = sock.layer) (calls : sock'.calls = sock.calls + 1)
    (moved : 0 < num iov) (full : sock.answer 0 iov = num iov) :
    CleanFrom T sock (iov :: iovs) ↔ CleanFrom (T + (num iov).toNat) sock' iovs := by
  have total (n : Nat) : T + asked (iov :: iovs) (n + 1) =
      (T + (num iov).toNat : Nat) + asked iovs n := by
    rw [asked, List.take_succ_cons, List.map_cons, List.sum_cons, Int.natCast_add,
      Int.toNat_of_nonneg moved.le, Int.add_assoc, asked]
  constructor
  · intro clean
    have start := clean.fits 0 iov rfl filled_zero
    simp only [asked, List.take_zero, List.map_nil, List.sum_nil] at start
    refine ⟨by omega, fun n b later known filled => ?_, fun n b known filled => ?_⟩
    · rw [answer_next layer calls]
      exact clean.positive (n + 1) b (.inl n.succ_pos) known
        ((filled_next layer calls moved full).mpr filled)
    · rw [← total, answer_next layer calls]
      exact clean.fits (n + 1) b known ((filled_next layer calls moved full).mpr filled)
  · intro clean
    have start := clean.start
    refine ⟨by omega, fun n b later known filled => ?_, fun n b known filled => ?_⟩
    · cases n with
      | zero =>
        obtain rfl := Option.some.inj known
        rw [full]
        exact moved
      | succ n =>
        rw [← answer_next layer calls]
        exact clean.positive n b (.inr (by omega)) known
          ((filled_next layer calls moved full).mp filled)
    · cases n with
      | zero =>
        obtain rfl := Option.some.inj known
        simp only [asked, List.take_zero, List.map_nil, List.sum_nil]
        omega
      | succ n =>
        rw [total, ← answer_next layer calls]
        exact clean.fits n b known ((filled_next layer calls moved full).mp filled)

end Next

/-- More than the segment holds never goes through. -/
theorem answer_le (sock : SSLSocket) (iov : Iovec) : (sock.answer 0 iov).toNat ≤ iov.len := by
  refine Int.toNat_le.mpr ?_
  by_cases some_ : 0 < sock.answer 0 iov
  · have honest : sock.answer 0 iov ≤ num iov := sock.layer.honest _ _ some_
    exact honest.trans (asInt_le (Int.natCast_nonneg iov.len))
  · exact (Int.not_lt.mp some_).trans (Int.natCast_nonneg iov.len)

section Call

variable {call : Iovec → SSLSocket → List Node → Int × SSLSocket × List Node}
  {moved : SSLSocket → Nat}

theorem loop_cons (moves : Moves call moved) (iov : Iovec) (iovs : List Iovec) (total : Int)
    (sock : SSLSocket) (nodes : List Node) : loop call (iov :: iovs) total sock nodes =
      if sock.answer 0 iov ≤ 0 then call iov sock nodes
      else if sock.answer 0 iov ≠ num iov then
        (asInt (total + sock.answer 0 iov), (call iov sock nodes).2)
      else loop call iovs (asInt (total + sock.answer 0 iov)) (call iov sock nodes).2.1
        (call iov sock nodes).2.2 := by
  rw [← moves.result iov sock nodes]
  rfl

/-- How the loop ends: `k` bytes more have gone through, and it returns their number with those
before unless a call has failed. The induction is on the segments. -/
theorem loop_spec (moves : Moves call moved) (iovs : List Iovec) (T : Nat) (sock : SSLSocket)
    (nodes : List Node) : ∃ k : Nat, moved (loop call iovs (asInt T) sock nodes).2.1 = moved sock + k ∧
      k ≤ (iovs.map Iovec.len).sum ∧ (loop call iovs (asInt T) sock nodes).1 ≤ T + k ∧
      ((0 < T + k → (loop call iovs (asInt T) sock nodes).1 = T + k) ↔ CleanFrom T sock iovs) := by
  induction iovs generalizing T sock nodes with
  | nil =>
    refine ⟨0, rfl, Nat.zero_le _, ?_, ?_⟩ <;>
      rw [loop, Int.natCast_zero, Int.add_zero]
    · dsimp only
      exact asInt_le (Int.natCast_nonneg T)
    dsimp only
    rw [Nat.add_zero, asInt_eq_iff (Int.natCast_nonneg T)]
    constructor
    · intro fits
      refine ⟨?_, ?_, ?_⟩
      · rcases Nat.eq_zero_or_pos T with rfl | some_
        · decide
        · exact fits some_
      · rintro n iov - ⟨⟩
      · rintro n iov ⟨⟩
    · exact fun clean _ => clean.start
  | cons iov iovs ih =>
    rw [loop_cons moves]
    have went := moves.moved iov sock nodes
    have asked_le := asInt_le (Int.natCast_nonneg iov.len)
    rw [List.map_cons, List.sum_cons]
    by_cases failed : sock.answer 0 iov ≤ 0
    · -- a call that fails ends the function, whatever the calls before it have moved
      rw [if_pos failed, cleanFrom_failed failed, moves.result]
      refine ⟨0, by omega, Nat.zero_le _, by omega, ?_⟩
      omega
    · have some_ : 0 < sock.answer 0 iov := Int.not_le.mp failed
      have honest : sock.answer 0 iov ≤ num iov := sock.layer.honest _ _ some_
      rw [if_neg failed]
      by_cases full : sock.answer 0 iov = num iov
      · have asked_some : 0 < num iov := by
          rw [← full]
          exact some_
        rw [if_neg (not_not_intro full), full,
          cleanFrom_full (moves.layer iov sock nodes) (moves.calls iov sock nodes) asked_some full]
        rw [full] at went
        obtain ⟨k, total, bound, below, iff⟩ :=
          ih (T + (num iov).toNat) (call iov sock nodes).2.1 (call iov sock nodes).2.2
        have sum : asInt (asInt T + num iov) = asInt (T + (num iov).toNat : Nat) := by
          rw [asInt_add, Int.natCast_add, Int.toNat_of_nonneg asked_some.le]
        have assoc : ((T + (num iov).toNat : Nat) : Int) + k = T + ((num iov).toNat + k : Nat) := by
          rw [Int.natCast_add, Int.natCast_add, Int.add_assoc]
        rw [sum]
        refine ⟨(num iov).toNat + k, by rw [total, went, Nat.add_assoc], ?_, ?_, ?_⟩
        · exact Nat.add_le_add (Int.toNat_le.mpr asked_le) bound
        · rw [← assoc]
          exact below
        · rw [← Nat.add_assoc, ← assoc]
          exact iff
      · rw [if_pos full, cleanFrom_short some_ full]
        have rest := answer_le sock iov
        have sum : (T : Int) + (sock.answer 0 iov).toNat = T + sock.answer 0 iov := by
          rw [Int.toNat_of_nonneg some_.le]
        refine ⟨(sock.answer 0 iov).toNat, went, Nat.le_add_right_of_le rest, ?_, ?_⟩
        · rw [asInt_add, sum]
          exact asInt_le (by omega)
        · rw [asInt_add, sum, asInt_eq_iff (by omega)]
          exact ⟨fun fits => fits (by omega), fun fits _ => fits⟩

theorem reports_iff (moves : Moves call moved) (iovs : List Iovec) (sock : SSLSocket)
    (nodes : List Node) :
    sock.Reports moved (loop call iovs 0 sock nodes) ↔ sock.Clean iovs := by
  obtain ⟨k, total, -, -, iff⟩ := loop_spec moves iovs 0 sock nodes
  rw [cleanFrom_zero, Nat.zero_add, Int.natCast_zero, Int.zero_add] at iff
  refine Iff.trans ⟨fun reports some_ => reports k some_ total, fun returns n some_ same => ?_⟩ iff
  obtain rfl : n = k := Nat.add_left_cancel (same.symm.trans total)
  exact returns some_

end Call

/-! ## The bytes -/

theorem num_eq (small : iov.len < 2 ^ 31) : num iov = iov.len :=
  (asInt_eq_iff (Int.natCast_nonneg _)).mpr (by omega)

theorem scatter_nil (nodes : List Node) (iovs : List Iovec) : scatter nodes iovs [] = nodes := by
  induction iovs generalizing nodes with
  | nil => rfl
  | cons iov iovs ih =>
    have same : (fun node : Node => node.store iov.offset []) = id := by
      funext node
      rw [Node.store, Splice.splice_nil]
      rfl
    rw [scatter, List.take_nil, List.drop_nil, ih, same, List.modify_id]

theorem length_ahead (sock : SSLSocket) (n : Nat) : (sock.ahead n).length = n := by
  rw [ahead, List.length_map, List.length_range]

theorem ahead_add {sock' : SSLSocket} {m : Nat} (incoming : sock'.incoming = sock.incoming)
    (received : sock'.received = sock.received + m) (n : Nat) :
    sock.ahead (m + n) = sock.ahead m ++ sock'.ahead n := by
  simp only [ahead, List.range_add, List.map_append, List.map_map, incoming, received]
  simp only [Function.comp_def, Nat.add_assoc]

/-- A call that does not fill its segment is the last one. -/
theorem loop_stop {call : Iovec → SSLSocket → List Node → Int × SSLSocket × List Node}
    {moved : SSLSocket → Nat} (moves : Moves call moved) {total : Int} {nodes : List Node}
    (short : ¬(0 < num iov ∧ sock.answer 0 iov = num iov)) :
    (loop call (iov :: iovs) total sock nodes).2 = (call iov sock nodes).2 := by
  rw [loop_cons moves]
  split
  · rfl
  next some_ =>
    have room : sock.answer 0 iov ≠ num iov := fun full => short ⟨by omega, full⟩
    rw [if_pos room]

theorem loop_full {call : Iovec → SSLSocket → List Node → Int × SSLSocket × List Node}
    {moved : SSLSocket → Nat} (moves : Moves call moved) {total : Int} {nodes : List Node}
    (some_ : 0 < num iov) (full : sock.answer 0 iov = num iov) :
    loop call (iov :: iovs) total sock nodes =
      loop call iovs (asInt (total + num iov)) (call iov sock nodes).2.1
        (call iov sock nodes).2.2 := by
  rw [loop_cons moves, full, if_neg (Int.not_le.mpr some_), if_neg (not_not_intro rfl)]

theorem loop_moved {call : Iovec → SSLSocket → List Node → Int × SSLSocket × List Node}
    {moved : SSLSocket → Nat} (moves : Moves call moved) (iovs : List Iovec) (m : Int)
    (sock : SSLSocket) (nodes : List Node) :
    ∃ k : Nat, moved (loop call iovs m sock nodes).2.1 = moved sock + k := by
  induction iovs generalizing m sock nodes with
  | nil => exact ⟨0, rfl⟩
  | cons iov iovs ih =>
    by_cases full : 0 < num iov ∧ sock.answer 0 iov = num iov
    · obtain ⟨k, total⟩ := ih (asInt (m + num iov)) (call iov sock nodes).2.1
        (call iov sock nodes).2.2
      rw [loop_full moves full.1 full.2, total, moves.moved, Nat.add_assoc]
      exact ⟨_, rfl⟩
    · rw [loop_stop moves full, moves.moved]
      exact ⟨_, rfl⟩

/-- What has been received is stored as `recvmsg` stores it. -/
theorem read_nodes {k : Nat} {total : Int} {nodes : List Node}
    (small : ∀ iov ∈ iovs, iov.len < 2 ^ 31)
    (went : (loop sslRead iovs total sock nodes).2.1.received = sock.received + k) :
    (loop sslRead iovs total sock nodes).2.2 = scatter nodes iovs (sock.ahead k) := by
  induction iovs generalizing total sock nodes k with
  | nil => rfl
  | cons iov iovs ih =>
    have received := moves_read.moved iov sock nodes
    have fits := small iov List.mem_cons_self
    have stored : (sslRead iov sock nodes).2.2 = nodes.modify iov.node fun node =>
        node.store iov.offset (sock.ahead (sock.answer 0 iov).toNat) := rfl
    by_cases full : 0 < num iov ∧ sock.answer 0 iov = num iov
    · rw [loop_full moves_read full.1 full.2] at went ⊢
      obtain ⟨n, behind⟩ := loop_moved moves_read iovs (asInt (total + num iov))
        (sslRead iov sock nodes).2.1 (sslRead iov sock nodes).2.2
      rw [full.2, num_eq fits, Int.toNat_natCast] at received stored
      obtain rfl : k = iov.len + n := by omega
      have len : (sock.ahead iov.len).length = iov.len := length_ahead sock iov.len
      have incoming : (sslRead iov sock nodes).2.1.incoming = sock.incoming := rfl
      rw [ih (fun b member => small b (List.mem_cons_of_mem iov member)) behind, scatter, stored,
        ahead_add incoming received, List.take_left' len, List.drop_left' len]
    · -- the segments behind it stay as they are
      rw [loop_stop moves_read full] at went ⊢
      obtain rfl : k = (sock.answer 0 iov).toNat := by omega
      have len : (sock.ahead (sock.answer 0 iov).toNat).length ≤ iov.len := by
        rw [length_ahead]
        exact answer_le sock iov
      rw [stored, scatter, List.take_of_length_le len, List.drop_eq_nil_of_le len, scatter_nil]

/-- What has been written is what the segments hold. -/
theorem write_sent {k : Nat} {total : Int} {nodes : List Node}
    (small : ∀ iov ∈ iovs, iov.len < 2 ^ 31)
    (held : ∀ iov ∈ iovs, (gather nodes [iov]).length = iov.len)
    (went : (loop sslWrite iovs total sock nodes).2.1.written = sock.written + k) :
    (loop sslWrite iovs total sock nodes).2.1.sent =
      sock.sent ++ (gather nodes iovs).take k := by
  induction iovs generalizing total sock k with
  | nil =>
    rw [gather, List.flatMap_nil, List.take_nil, List.append_nil]
    rfl
  | cons iov iovs ih =>
    have written := moves_write.moved iov sock nodes
    have fits := small iov List.mem_cons_self
    have len := held iov List.mem_cons_self
    have front : gather nodes (iov :: iovs) = gather nodes [iov] ++ gather nodes iovs := by
      simp [gather]
    have sent : (sslWrite iov sock nodes).2.1.sent =
        sock.sent ++ (gather nodes [iov]).take (sock.answer 0 iov).toNat := rfl
    by_cases full : 0 < num iov ∧ sock.answer 0 iov = num iov
    · rw [loop_full moves_write full.1 full.2] at went ⊢
      obtain ⟨n, behind⟩ := loop_moved moves_write iovs (asInt (total + num iov))
        (sslWrite iov sock nodes).2.1 (sslWrite iov sock nodes).2.2
      rw [full.2, num_eq fits, Int.toNat_natCast] at written sent
      obtain rfl : k = iov.len + n := by omega
      rw [front, List.take_append, len, Nat.add_sub_cancel_left, List.take_of_length_le (by omega)]
      have later := ih (fun b member => small b (List.mem_cons_of_mem iov member))
        (fun b member => held b (List.mem_cons_of_mem iov member)) behind
      rw [sent, List.take_of_length_le (by omega), List.append_assoc] at later
      exact later
    · rw [loop_stop moves_write full] at went ⊢
      obtain rfl : k = (sock.answer 0 iov).toNat := by omega
      rw [sent, front, List.take_append_of_le_length (by rw [len]; exact answer_le sock iov)]

/-- The segments lie in their blocks, so that the blocks keep their sizes. -/
theorem read_uniform {b p q : Nat} {total : Int} {nodes : List Node} (tiles : Tiles b iovs p q)
    (uniform : Uniform b nodes) (fits : q ≤ b * nodes.length) :
    Uniform b (loop sslRead iovs total sock nodes).2.2 ∧
      (loop sslRead iovs total sock nodes).2.2.length = nodes.length := by
  induction tiles generalizing total sock nodes with
  | nil p => exact ⟨uniform, rfl⟩
  | @cons iov iovs p q start some_ inside rest ih =>
    have total_len := rest.sum_len
    have known : iov.node < nodes.length := node_lt start some_ (by omega)
    have short : (sock.ahead (sock.answer 0 iov).toNat).length ≤ iov.len := by
      rw [length_ahead]
      exact answer_le sock iov
    obtain ⟨-, stored⟩ :=
      flat_modify uniform known (Nat.le_trans (Nat.add_le_add_left short iov.offset) inside)
    have same : (sslRead iov sock nodes).2.2.length = nodes.length := List.length_modify _ _ _
    by_cases full : 0 < num iov ∧ sock.answer 0 iov = num iov
    · rw [loop_full moves_read full.1 full.2]
      obtain ⟨uniform_all, length_eq⟩ := ih stored (by rw [List.length_modify]; exact fits)
      exact ⟨uniform_all, length_eq.trans same⟩
    · rw [loop_stop moves_read full]
      exact ⟨stored, same⟩

end Loop

/-! ## The position -/

section Stream

open SSLSocket SocketStream

variable {ba g : ServerFrame.ByteArray} {sock : SSLSocket} {length : Nat}

/-- The end of both functions: the position goes on by what the socket has returned. -/
def finish (rt : Int) (sock' : SSLSocket) : ByteArrayM (Int × SSLSocket) := do
  let ba ← get
  if rt > 0 then setPosition (ba.position + rt.toNat)
  return (rt, sock')

theorem finish_spec (inv : Inv ba) (rt : Int) (sock' : SSLSocket)
    (room : ba.position + rt.toNat ≤ ba.capacity) :
    ∃ ba', finish rt sock' ba = .ok (rt, sock') ba' ∧ ba'.position = ba.position + rt.toNat ∧
      (ba.position + rt.toNat ≤ ba.size → contents ba' = contents ba) := by
  simp only [finish, run_bind, run_get]
  split
  next some_ =>
    obtain ⟨ba', ran, sought⟩ := setPosition_spec inv _ room
    rw [run_bind_ok ran]
    refine ⟨ba', rfl, sought.position_eq, fun within => ?_⟩
    rw [contents, contents, sought.nodes_eq, sought.size_eq, Nat.max_eq_left within]
  next none =>
    rw [Int.toNat_of_nonpos (Int.not_lt.mp none)]
    exact ⟨ba, rfl, rfl, fun _ => rfl⟩

theorem read_eq (connected : sock.isConnected = true) (ssl : sock.ssl = true) {iovs : List Iovec}
    (handed : getWriteBuffers length ba = .ok iovs g) :
    SocketStream.read sock length ba =
      finish (loop sslRead iovs 0 sock g.nodes).1 (loop sslRead iovs 0 sock g.nodes).2.1
        { g with nodes := (loop sslRead iovs 0 sock g.nodes).2.2 } := by
  simp only [SocketStream.read, connected, Bool.not_true, if_neg Bool.false_ne_true,
    run_bind_ok handed, run_bind, run_get, recv, if_pos ssl, run_set]
  rfl

/-- `finish` ends as a socket does that brings as many bytes. -/
theorem receive_of_finish {iovs : List Iovec} {bytes : List UInt8} {rt : Int} {sock' : SSLSocket}
    {ba' : ServerFrame.ByteArray} (handed : getWriteBuffers length ba = .ok iovs g)
    (moved : rt.toNat = bytes.length)
    (ran : finish rt sock' { g with nodes := scatter g.nodes iovs bytes } = .ok (rt, sock') ba') :
    receive length bytes ba = .ok () ba' := by
  rw [finish, run_bind_ok (run_get _)] at ran
  rw [receive, run_bind_ok handed, run_bind_ok (run_modify _ _), run_bind_ok (run_get _), ← moved]
  by_cases some_ : rt > 0
  · rw [if_pos some_] at ran
    rw [if_pos (by omega)]
    cases sought : setPosition (g.position + rt.toNat)
        { g with nodes := scatter g.nodes iovs bytes } with
    | ok _ s =>
      rw [run_bind_ok sought] at ran
      obtain ⟨-, rfl⟩ := (EStateM.Result.ok.injEq ..).mp ran
      rfl
    | error _ s =>
      rw [run_bind_error sought] at ran
      cases ran
  · rw [if_neg some_] at ran
    rw [if_neg (by omega)]
    obtain ⟨-, rfl⟩ := (EStateM.Result.ok.injEq ..).mp ran
    rfl

theorem write_eq (connected : sock.isConnected = true) (ssl : sock.ssl = true) {iovs : List Iovec}
    {n : Nat} (handed : getReadBuffers length ba = .ok (iovs, n) ba) :
    SocketStream.write sock length ba =
      finish (loop sslWrite iovs 0 sock ba.nodes).1 (loop sslWrite iovs 0 sock ba.nodes).2.1
        { ba with nodes := (loop sslWrite iovs 0 sock ba.nodes).2.2 } := by
  simp only [SocketStream.write, connected, Bool.not_true, if_neg Bool.false_ne_true,
    run_bind_ok handed, run_bind, run_get, send, if_pos ssl, run_set]
  rfl

theorem write_nodes (iovs : List Iovec) (m : Int) (sock : SSLSocket) (nodes : List Node) :
    (loop sslWrite iovs m sock nodes).2.2 = nodes := by
  induction iovs generalizing m sock with
  | nil => rfl
  | cons iov iovs ih =>
    by_cases full : 0 < num iov ∧ sock.answer 0 iov = num iov
    · rw [loop_full moves_write full.1 full.2]
      exact ih _ _
    · rw [loop_stop moves_write full]
      rfl

/-- What the number returned has to do with the bytes that have gone through. -/
theorem returned_iff {moved : SSLSocket → Nat}
    {call : Iovec → SSLSocket → List Node → Int × SSLSocket × List Node} (moves : Moves call moved)
    (iovs : List Iovec) (sock : SSLSocket) (nodes : List Node) :
    ∃ k : Nat, moved (loop call iovs 0 sock nodes).2.1 = moved sock + k ∧
      k ≤ (iovs.map Iovec.len).sum ∧ (loop call iovs 0 sock nodes).1.toNat ≤ k ∧
      ((loop call iovs 0 sock nodes).1.toNat = k ∧ (0 < k → (loop call iovs 0 sock nodes).1 = k) ↔
        sock.Clean iovs) := by
  obtain ⟨k, total, bound, below, iff⟩ := loop_spec moves iovs 0 sock nodes
  have start : asInt (0 : Nat) = 0 := rfl
  rw [start] at total below iff
  rw [cleanFrom_zero, Nat.zero_add, Int.natCast_zero, Int.zero_add] at iff
  rw [Int.natCast_zero, Int.zero_add] at below
  refine ⟨k, total, bound, Int.toNat_le.mpr below, ?_⟩
  rw [← iff]
  refine ⟨And.right, fun returns => ⟨?_, returns⟩⟩
  rcases Nat.eq_zero_or_pos k with rfl | some_
  · exact Int.toNat_of_nonpos below
  · rw [returns some_, Int.toNat_natCast]

theorem readsAll_iff (inv : Inv ba) (connected : sock.isConnected = true) (ssl : sock.ssl = true)
    {iovs : List Iovec} (handed : getWriteBuffers length ba = .ok iovs g) :
    ReadsAll sock length ba ↔ sock.Clean iovs := by
  obtain ⟨iovs', g', handed', grown, tiles, room⟩ := getWriteBuffers_spec inv length
  obtain ⟨rfl, rfl⟩ := (EStateM.Result.ok.injEq ..).mp (handed.symm.trans handed')
  obtain ⟨k, total, bound, below, iff⟩ := returned_iff moves_read iovs sock g.nodes
  have inv' := grown.inv
  have sum := tiles.sum_len
  have position_eq := grown.position_eq
  have blocks : Tiles g.baseSize iovs ba.position (ba.position + length) := by
    rw [grown.baseSize_eq]
    exact tiles
  have fits : ba.position + length ≤ g.baseSize * g.nodes.length := by
    rw [← inv'.capacity_eq]
    exact room
  obtain ⟨uniform, length_eq⟩ : Uniform g.baseSize (loop sslRead iovs 0 sock g.nodes).2.2 ∧
      (loop sslRead iovs 0 sock g.nodes).2.2.length = g.nodes.length :=
    read_uniform blocks inv'.uniform fits
  have root := List.length_pos_iff.mpr inv'.root
  have inv_s : Inv { g with nodes := (loop sslRead iovs 0 sock g.nodes).2.2 } := by
    refine ⟨inv'.positive, inv'.position_le, inv'.size_le, ?_, uniform, ?_, inv'.cur_eq⟩
    · dsimp only
      rw [length_eq, inv'.capacity_eq]
    · exact List.ne_nil_of_length_pos (by rw [length_eq]; exact root)
  obtain ⟨ba', ran, position, -⟩ := finish_spec inv_s (loop sslRead iovs 0 sock g.nodes).1
    (loop sslRead iovs 0 sock g.nodes).2.1 (by dsimp only; omega)
  have whole := (read_eq connected ssl handed).trans ran
  constructor
  · rintro ⟨rt, sock', ba'', n, read, received, returns, moved, -⟩
    obtain ⟨same, rfl⟩ := (EStateM.Result.ok.injEq ..).mp (whole.symm.trans read)
    obtain ⟨rfl, rfl⟩ := Prod.mk.inj same
    obtain rfl : k = n := by omega
    exact iff.mp ⟨by dsimp only at position; omega, returns⟩
  · intro clean
    obtain ⟨moved, returns⟩ := iff.mpr clean
    refine ⟨_, _, ba', k, whole, total, returns, by dsimp only at position; omega, fun small => ?_⟩
    -- the state is the one that a socket leaves which brings these bytes
    have short (iov : Iovec) (member : iov ∈ iovs) : iov.len < 2 ^ 31 := by
      have := tiles.within iov member
      omega
    have brought : (sock.ahead k).length ≤ length := by
      rw [length_ahead]
      omega
    obtain ⟨ba₁, received, wrote⟩ := receive_spec inv brought
    rw [read_nodes short total] at ran
    have same := receive_of_finish handed (by rw [moved, length_ahead]) ran
    rw [received] at same
    obtain ⟨-, rfl⟩ := (EStateM.Result.ok.injEq ..).mp same
    exact wrote.contents_eq

theorem writesAll_iff (inv : Inv ba) (connected : sock.isConnected = true) (ssl : sock.ssl = true)
    {iovs : List Iovec} {n : Nat} (handed : getReadBuffers length ba = .ok (iovs, n) ba) :
    WritesAll sock length ba ↔ sock.Clean iovs := by
  obtain ⟨iovs', handed', -, tiles⟩ := getReadBuffers_spec inv length
  obtain ⟨same, -⟩ := (EStateM.Result.ok.injEq ..).mp (handed.symm.trans handed')
  obtain ⟨rfl, rfl⟩ := Prod.mk.inj same
  obtain ⟨k, total, bound, below, iff⟩ := returned_iff moves_write iovs sock ba.nodes
  have sum := tiles.sum_len
  have size_le := inv.size_le
  have position_le := inv.position_le
  have within : ba.position + min length ba.getReadSize ≤ ba.size := by
    simp only [getReadSize]
    omega
  obtain ⟨ba', ran, position, kept⟩ := finish_spec inv (loop sslWrite iovs 0 sock ba.nodes).1
    (loop sslWrite iovs 0 sock ba.nodes).2.1 (by omega)
  have whole : SocketStream.write sock length ba = .ok ((loop sslWrite iovs 0 sock ba.nodes).1,
      (loop sslWrite iovs 0 sock ba.nodes).2.1) ba' := by
    rw [write_eq connected ssl handed, write_nodes]
    exact ran
  constructor
  · rintro ⟨rt, sock', ba'', n, wrote, written, returns, moved, -⟩
    obtain ⟨same, rfl⟩ := (EStateM.Result.ok.injEq ..).mp (whole.symm.trans wrote)
    obtain ⟨rfl, rfl⟩ := Prod.mk.inj same
    obtain rfl : k = n := by omega
    exact iff.mp ⟨by omega, returns⟩
  · intro clean
    obtain ⟨moved, returns⟩ := iff.mpr clean
    refine ⟨_, _, ba', k, whole, total, returns, by omega, kept (by omega), fun small => ?_⟩
    have short (iov : Iovec) (member : iov ∈ iovs) : iov.len < 2 ^ 31 := by
      have := tiles.within iov member
      omega
    have held (iov : Iovec) (member : iov ∈ iovs) : (gather ba.nodes [iov]).length = iov.len := by
      obtain ⟨node, known, inside⟩ := tiles.in_block inv.uniform
        (by rw [← inv.capacity_eq]; omega) iov member
      rw [Node.size] at inside
      simp only [gather, List.flatMap_singleton, known, Node.load, List.length_take,
        List.length_drop]
      omega
    rw [write_sent short held total, gather_contents inv tiles within, List.take_take,
      Nat.min_eq_left (by omega)]

/-- A socket without a connection moves nothing. -/
theorem reports_still {moved : SSLSocket → Nat} (rt : Int) (nodes : List Node) :
    sock.Reports moved (rt, sock, nodes) := fun k some_ same => absurd same (by dsimp only; omega)

theorem readsAll_still (inv : Inv ba) (off : ¬(sock.isConnected = true ∧ sock.ssl = true)) :
    ReadsAll sock length ba := by
  obtain ⟨iovs, g, handed, grown, -⟩ := getWriteBuffers_spec inv length
  have nothing (x : ServerFrame.ByteArray) : Splice.splice (contents x) x.position (sock.ahead 0) =
      contents x := Splice.splice_nil _ _
  by_cases connected : sock.isConnected = true
  · have ssl : ¬sock.ssl = true := fun ssl => off ⟨connected, ssl⟩
    refine ⟨-1, sock, g, 0, ?_, rfl, fun some_ => absurd some_ (Nat.lt_irrefl 0), grown.position_eq,
      fun _ => by rw [nothing, grown.contents_eq inv]⟩
    simp only [SocketStream.read, connected, Bool.not_true, if_neg Bool.false_ne_true,
      run_bind_ok handed, run_bind, run_get, recv, if_neg ssl, run_set]
    rfl
  · rw [Bool.not_eq_true] at connected
    refine ⟨-1, sock, ba, 0, ?_, rfl, fun some_ => absurd some_ (Nat.lt_irrefl 0), rfl,
      fun _ => (nothing ba).symm⟩
    simp only [SocketStream.read, connected, Bool.not_false, if_pos, run_pure]

theorem writesAll_still (inv : Inv ba) (off : ¬(sock.isConnected = true ∧ sock.ssl = true)) :
    WritesAll sock length ba := by
  obtain ⟨iovs, handed, -⟩ := getReadBuffers_spec inv length
  refine ⟨-1, sock, ba, 0, ?_, rfl, fun some_ => absurd some_ (Nat.lt_irrefl 0), rfl, rfl,
    fun _ => (List.append_nil _).symm⟩
  by_cases connected : sock.isConnected = true
  · have ssl : ¬sock.ssl = true := fun ssl => off ⟨connected, ssl⟩
    simp only [SocketStream.write, connected, Bool.not_true, if_neg Bool.false_ne_true,
      run_bind_ok handed, run_bind, run_get, send, if_neg ssl, run_set]
    rfl
  · rw [Bool.not_eq_true] at connected
    simp only [SocketStream.write, connected, Bool.not_false, if_pos, run_pure]

theorem recv_reports_iff (iovs : List Iovec) (nodes : List Node) :
    sock.Reports SSLSocket.received (sock.recv iovs nodes) ↔
      (sock.ssl = true → sock.Clean iovs) := by
  by_cases ssl : sock.ssl = true
  · rw [recv, if_pos ssl, reports_iff moves_read]
    exact ⟨fun clean _ => clean, fun clean => clean ssl⟩
  · rw [recv, if_neg ssl]
    exact iff_of_true (reports_still (-1) nodes) (fun on => absurd on ssl)

theorem send_reports_iff (iovs : List Iovec) (nodes : List Node) :
    sock.Reports SSLSocket.written (sock.send iovs nodes) ↔
      (sock.ssl = true → sock.Clean iovs) := by
  by_cases ssl : sock.ssl = true
  · rw [send, if_pos ssl, reports_iff moves_write]
    exact ⟨fun clean _ => clean, fun clean => clean ssl⟩
  · rw [send, if_neg ssl]
    exact iff_of_true (reports_still (-1) nodes) (fun on => absurd on ssl)

end Stream

/-- The first call moves all that it is asked for, and the others fail. -/
def firstOnly (i : Nat) (num : Int) : Int := if i = 0 then num else -1

theorem firstOnly_honest (i : Nat) (num : Int) (some_ : 0 < firstOnly i num) :
    firstOnly i num ≤ num := by
  unfold firstOnly at some_ ⊢
  split at some_
  · rw [if_pos (by assumption)]
  · omega

def once : SSLSocket where
  isConnected := true
  ssl := true
  layer := ⟨firstOnly, firstOnly_honest⟩
  calls := 0
  incoming := fun _ => 7
  received := 0
  written := 0
  sent := []

section Results

open SSLSocket SocketStream

/-- The bytes that go through the SSL layer are what the functions return, and what the position
of the array goes on by, exactly when no call fails behind one that moved bytes and their number
is an `int`. -/
theorem moved_bytes_reported_iff {ba : ServerFrame.ByteArray} (reachable : Reachable ba)
    (sock : SSLSocket) (iovs : List Iovec) (nodes : List Node) (length : Nat) :
    (sock.Reports SSLSocket.received (sock.recv iovs nodes) ↔
      (sock.ssl = true → sock.Clean iovs)) ∧
    (sock.Reports SSLSocket.written (sock.send iovs nodes) ↔
      (sock.ssl = true → sock.Clean iovs)) ∧
    (ReadsAll sock length ba ↔ (sock.isConnected = true → sock.ssl = true →
      ∀ iovs g, getWriteBuffers length ba = .ok iovs g → sock.Clean iovs)) ∧
    (WritesAll sock length ba ↔ (sock.isConnected = true → sock.ssl = true →
      ∀ iovs n, getReadBuffers length ba = .ok (iovs, n) ba → sock.Clean iovs)) := by
  have inv := reachable.inv
  refine ⟨recv_reports_iff iovs nodes, send_reports_iff iovs nodes, ?_, ?_⟩
  · by_cases on : sock.isConnected = true ∧ sock.ssl = true
    · obtain ⟨iovs, g, handed, -⟩ := getWriteBuffers_spec inv length
      rw [readsAll_iff inv on.1 on.2 handed]
      refine ⟨fun clean _ _ iovs' g' handed' => ?_, fun clean => clean on.1 on.2 iovs g handed⟩
      obtain ⟨rfl, rfl⟩ := (EStateM.Result.ok.injEq ..).mp (handed.symm.trans handed')
      exact clean
    · exact iff_of_true (readsAll_still inv on) (fun connected ssl => absurd ⟨connected, ssl⟩ on)
  · by_cases on : sock.isConnected = true ∧ sock.ssl = true
    · obtain ⟨iovs, handed, -⟩ := getReadBuffers_spec inv length
      rw [writesAll_iff inv on.1 on.2 handed]
      refine ⟨fun clean _ _ iovs' n' handed' => ?_, fun clean => clean on.1 on.2 iovs _ handed⟩
      obtain ⟨same, -⟩ := (EStateM.Result.ok.injEq ..).mp (handed.symm.trans handed')
      obtain ⟨rfl, -⟩ := Prod.mk.inj same
      exact clean
    · exact iff_of_true (writesAll_still inv on) (fun connected ssl => absurd ⟨connected, ssl⟩ on)

/-- A layer that moves all that it is asked for, and two segments. -/
theorem moved_bytes_reported_iff_two_blocks :
    ReadsAll { once with layer := ⟨fun _ num => num, fun _ _ _ => Int.le_refl _⟩ } 4
      (ByteArray.new 2 fun _ => 0) := by
  have reachable : Reachable (ByteArray.new 2 fun _ => 0) := .new (by decide) _
  refine (moved_bytes_reported_iff reachable _ [] [] 4).2.2.1.mpr fun _ _ iovs g handed => ?_
  have two : ∃ g', getWriteBuffers 4 (ByteArray.new 2 fun _ => 0) =
      .ok [⟨0, 0, 2⟩, ⟨1, 0, 2⟩] g' := ⟨_, rfl⟩
  obtain ⟨g', two⟩ := two
  obtain ⟨rfl, -⟩ := (EStateM.Result.ok.injEq ..).mp (two.symm.trans handed)
  refine ⟨fun n iov later known _ => ?_, fun n iov known _ => ?_⟩ <;>
    match n, known with
    | 0, known => obtain rfl := Option.some.inj known; first | omega | decide
    | 1, known => obtain rfl := Option.some.inj known; decide

/-- The second of two segments fails: two bytes have been received and two sent, and both
functions return -1 and leave the position where it was. -/
theorem segments_lose_bytes :
    ∃ ba, Run.run act (ByteArray.new 2 fun _ => 0) [.call (.write [1, 2, 3, 4]), .call (.setPosition 0)] =
        some ba ∧
      (∃ sock' ba', SocketStream.read once 4 ba = .ok (-1, sock') ba' ∧ sock'.received = 2 ∧
        ba'.position = 0 ∧ contents ba' = [7, 7, 3, 4]) ∧
      (∃ sock' ba', SocketStream.write once 4 ba = .ok (-1, sock') ba' ∧ sock'.written = 2 ∧
        sock'.sent = [1, 2] ∧ ba'.position = 0) := by
  refine ⟨_, rfl, ⟨_, _, rfl, rfl, rfl, ?_⟩, ⟨_, _, rfl, rfl, ?_, rfl⟩⟩ <;> decide

end Results

end ServerFrame.SslSocket
