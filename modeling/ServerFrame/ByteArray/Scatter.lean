import ServerFrame.ByteArray.Reachable

/-!
# Segments and the cursor agree

The segments for reading hold the bytes that `Read` would copy, and bytes stored in the
segments for writing become the bytes that `Write` would leave.
-/
namespace ServerFrame.ByteArray

open Splice EState

section Walk

variable {ba : ByteArray}

/-- The walk from `root_` reaches the part of the chain behind the first `count` nodes. -/
theorem walkLoop_eq (count : Nat) (nodes : List Node) (bound : count ≤ nodes.length) :
    walkLoop count nodes = .ok (nodes.drop count) := by
  induction nodes generalizing count with
  | nil =>
    obtain rfl : count = 0 := Nat.le_zero.mp bound
    rfl
  | cons node rest ih =>
    cases count with
    | zero => rfl
    | succ count => exact ih count (Nat.le_of_succ_le_succ bound)

theorem walkLoop_past (count : Nat) (nodes : List Node) (past : nodes.length < count) :
    walkLoop count nodes = .error .nullNode := by
  induction nodes generalizing count with
  | nil =>
    cases count with
    | zero => cases past
    | succ count => rfl
  | cons node rest ih =>
    cases count with
    | zero => cases past
    | succ count => exact ih count (Nat.lt_of_succ_lt_succ past)

/-- The walk for `m` bytes from offset `p` on, over the nodes from that of `p` on. -/
theorem segments_at (inv : Inv ba) {p m : Nat} (fits : p + m ≤ ba.capacity) :
    ∃ iovs, iovecLoop (p / ba.baseSize) (ba.nodes.drop (p / ba.baseSize)) (p % ba.baseSize) m =
        .ok iovs ∧
      Tiles ba.baseSize iovs p (p + m) := by
  have whole := Nat.div_add_mod p ba.baseSize
  have capacity_eq := inv.capacity_eq
  have uniform : Uniform ba.baseSize (ba.nodes.drop (p / ba.baseSize)) :=
    fun node member => inv.uniform node (List.mem_of_mem_drop member)
  have left : ba.baseSize * (ba.nodes.drop (p / ba.baseSize)).length =
      ba.capacity - ba.baseSize * (p / ba.baseSize) := by
    rw [List.length_drop, Nat.mul_sub, ← capacity_eq]
  obtain ⟨iovs, looped, tiles⟩ := iovecLoop_tiles _ uniform (p / ba.baseSize) (p % ba.baseSize) m
    (Nat.mod_lt p inv.positive) (by omega)
  rw [Nat.div_add_mod'] at tiles
  exact ⟨iovs, looped, tiles⟩

theorem clamp_eq (len size : Nat) : (if len > size then size else len) = min len size := by
  split <;> omega

theorem getReadBuffers_spec (inv : Inv ba) (len : Nat) :
    ∃ iovs, getReadBuffers len ba = .ok (iovs, min len ba.getReadSize) ba ∧
      getReadBuffersAt len ba.position ba = .ok (iovs, min len ba.getReadSize) ba ∧
      Tiles ba.baseSize iovs ba.position (ba.position + min len ba.getReadSize) := by
  have position_le := inv.position_le
  have size_le := inv.size_le
  have capacity_eq := inv.capacity_eq
  simp only [getReadBuffers, getReadBuffersAt, run_bind, run_get, clamp_eq]
  by_cases empty : min len ba.getReadSize = 0
  · rw [if_pos empty, if_pos empty, empty]
    exact ⟨[], rfl, rfl, .nil _⟩
  · have ahead : ba.position + min len ba.getReadSize ≤ ba.size := by
      simp only [getReadSize] at empty ⊢
      omega
    have cur : ba.cur = some (ba.position / ba.baseSize) := by
      rw [inv.cur_eq, if_neg (by omega)]
    have bound : ba.position / ba.baseSize ≤ ba.nodes.length := by
      rw [← Nat.mul_le_mul_left_iff inv.positive]
      have := Nat.mul_div_le ba.position ba.baseSize
      omega
    obtain ⟨iovs, looped, tiles⟩ := segments_at inv (Nat.le_trans ahead size_le)
    refine ⟨iovs, ?_, ?_, tiles⟩
    · simp only [if_neg empty, cur, looped, run_pure]
    · simp only [if_neg empty, walkLoop_eq _ _ bound, looped, run_pure]

/-- The bytes in segments that tile a stretch in use. -/
theorem gather_contents (inv : Inv ba) {iovs : List Iovec} {p m : Nat}
    (tiles : Tiles ba.baseSize iovs p (p + m)) (fits : p + m ≤ ba.size) :
    gather ba.nodes iovs = ((contents ba).drop p).take m := by
  have size_le := inv.size_le
  have capacity_eq := inv.capacity_eq
  rw [gather_tiles inv.uniform tiles (by omega), Nat.add_sub_cancel_left, contents, List.drop_take,
    List.take_take, Nat.min_eq_left (by omega)]

end Walk

/-- **Scatter view**: the segments that `GetReadBuffers` hands out are not empty and hold the
bytes that `Read` of as many bytes returns, wherever it returns; the walk from `root_` at the
position of the cursor finds the same segments. -/
theorem getReadBuffers_eq_read {ba : ByteArray} (reachable : Reachable ba) (len : Nat) :
    ∃ iovs, getReadBuffers len ba = .ok (iovs, min len ba.getReadSize) ba ∧
      (∀ iov ∈ iovs, 0 < iov.len) ∧
      gather ba.nodes iovs = ((contents ba).drop ba.position).take (min len ba.getReadSize) ∧
      (gather ba.nodes iovs).length = min len ba.getReadSize ∧
      (0 < min len ba.getReadSize ∨ ba.position < ba.capacity →
        ∃ ba', read (min len ba.getReadSize) ba = .ok (gather ba.nodes iovs) ba') ∧
      getReadBuffersAt len ba.position ba = .ok (iovs, min len ba.getReadSize) ba := by
  have inv := reachable.inv
  have position_le := inv.position_le
  obtain ⟨iovs, handed, walked, tiles⟩ := getReadBuffers_spec inv len
  have fits : ba.position + min len ba.getReadSize ≤ ba.size := by
    simp only [getReadSize]
    omega
  have gathered := gather_contents inv tiles fits
  have length_eq : (gather ba.nodes iovs).length = min len ba.getReadSize := by
    rw [gathered, List.length_take, List.length_drop, inv.length_contents]
    omega
  refine ⟨iovs, handed, tiles.some_, gathered, length_eq, fun readable => ?_, walked⟩
  by_cases empty : min len ba.getReadSize = 0
  · -- nothing is to be read, and the cursor is at a node
    rw [empty] at length_eq readable ⊢
    rw [List.eq_nil_of_length_eq_zero length_eq]
    rcases read_zero inv with ran | ⟨-, full⟩
    · exact ⟨ba, ran⟩
    · omega
  · obtain ⟨ba', ran, -⟩ := read_spec inv (min len ba.getReadSize) (Nat.pos_of_ne_zero empty)
      (Nat.min_le_right _ _)
    exact ⟨ba', by rw [ran, gathered]⟩

/-- Three bytes from the middle of the first block on. -/
theorem getReadBuffers_eq_read_middle :
    ∃ ba iovs, Run.run act (new 2 fun _ => 0) [.call (.write [1, 2, 3, 4]), .call (.setPosition 1)] =
        some ba ∧
      getReadBuffers 9 ba = .ok (iovs, 3) ba ∧ gather ba.nodes iovs = [2, 3, 4] := by
  have reachable : Reachable ⟨2, 1, 4, 4, [⟨[1, 2]⟩, ⟨[3, 4]⟩], some 0, .big, fun _ => 0, 4⟩ :=
    ⟨2, fun _ => 0, [.call (.write [1, 2, 3, 4]), .call (.setPosition 1)], by decide, rfl⟩
  obtain ⟨iovs, handed, -, gathered, -⟩ := getReadBuffers_eq_read reachable 9
  exact ⟨_, iovs, rfl, handed, gathered⟩

/-- **Zero-copy receive**: bytes stored in the segments that `GetWriteBuffers` hands out, with
the cursor set behind them, end as `Write` of these bytes does. The segments have the length
that was asked for, each lies in its block, and no two overlap. -/
theorem receive_eq_write {ba : ByteArray} (reachable : Reachable ba) (len : Nat)
    (bytes : List UInt8) (some_ : 1 ≤ bytes.length) (short : bytes.length ≤ len) :
    ∃ iovs grown received written, getWriteBuffers len ba = .ok iovs grown ∧
      (iovs.map Iovec.len).sum = len ∧ (∀ iov ∈ iovs, 0 < iov.len) ∧
      (∀ iov ∈ iovs, ∃ node, grown.nodes[iov.node]? = some node ∧ iov.offset + iov.len ≤ node.size) ∧
      (iovs.Pairwise fun first second => first.node = second.node →
        first.offset + first.len ≤ second.offset) ∧
      setPosition (grown.position + bytes.length)
        { grown with nodes := scatter grown.nodes iovs bytes } = .ok () received ∧
      receive len bytes ba = .ok () received ∧ write bytes ba = .ok () written ∧
      contents received = contents written ∧ received.size = written.size ∧
      received.position = written.position := by
  have inv := reachable.inv
  obtain ⟨iovs, grown, handed, is_grown, tiles, room⟩ := getWriteBuffers_spec inv len
  obtain ⟨received, ran, stored⟩ := receive_spec inv short
  obtain ⟨written, ran', wrote⟩ := write_spec inv bytes
  have total := tiles.sum_len
  have contents_eq : contents received = contents written := by
    rw [stored.contents_eq, wrote.contents_eq]
  have size_eq : received.size = written.size := by
    rw [← stored.inv.length_contents, ← wrote.inv.length_contents, contents_eq]
  have inv' := is_grown.inv
  refine ⟨iovs, grown, received, written, handed, by omega, tiles.some_, ?_, ?_, ?_, ran, ran',
    contents_eq, size_eq, by rw [stored.position_eq, wrote.position_eq]⟩
  · refine tiles.in_block (is_grown.baseSize_eq ▸ inv'.uniform) ?_
    rw [← is_grown.baseSize_eq, ← inv'.capacity_eq]
    exact room
  · refine tiles.apart.imp fun before same => ?_
    rw [same] at before
    omega
  · rw [receive, run_bind_ok handed] at ran
    simp only [run_bind, run_modify, run_get, if_pos (show bytes.length > 0 from some_)] at ran
    exact ran

/-- Three bytes over the last one of a full block and behind it, where five were asked for. -/
theorem receive_eq_write_short :
    ∃ ba received written, Run.run act (new 2 fun _ => 0) [.call (.write [1, 2]), .call (.setPosition 1)] =
        some ba ∧
      receive 5 [7, 8, 9] ba = .ok () received ∧ write [7, 8, 9] ba = .ok () written ∧
      contents received = contents written := by
  have reachable : Reachable ⟨2, 1, 2, 2, [⟨[1, 2]⟩], some 0, .big, fun _ => 0, 2⟩ :=
    ⟨2, fun _ => 0, [.call (.write [1, 2]), .call (.setPosition 1)], by decide, rfl⟩
  obtain ⟨-, -, received, written, -, -, -, -, -, -, ran, ran', same, -⟩ :=
    receive_eq_write reachable 5 [7, 8, 9] (by decide) (by decide)
  exact ⟨_, received, written, rfl, ran, ran', same⟩

end ServerFrame.ByteArray
