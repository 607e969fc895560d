import ServerFrame.ByteArray.Scatter

/-!
# Reads at an offset

`Read(buf, size, position)` starts its walk at the node of the cursor, and its test and that
of `GetReadBuffers` do not bound the offset. What the two do is said for every offset; it is
what they are for exactly where offset and cursor suit each other.
-/
namespace ServerFrame.ByteArray

open Splice EState

/-! ## The walk from the cursor -/

theorem readLoop_past {b : Nat} (nodes : List Node) (uniform : Uniform b nodes) (npos n : Nat)
    (start : npos < b) (some_ : 0 < n) (past : b * nodes.length < npos + n) :
    readLoop nodes npos n = .error .nullNode := by
  induction nodes generalizing npos n with
  | nil => simp [readLoop, some_]
  | cons node rest ih =>
    have size : node.size = b := uniform node (List.mem_cons_self ..)
    simp only [List.length_cons, Nat.mul_succ] at past
    have missing : ¬ b - npos ≥ n := by omega
    have behind := ih uniform.tail 0 (n - (b - npos)) (by omega) (by omega) (by omega)
    simp only [readLoop, size, if_pos some_, if_neg missing, behind]

/-- Where the walk from the cursor finds offset `position`: as far behind the start of the
cursor's block as the offset is behind that of its own. -/
def walkStart (ba : ByteArray) (position : Nat) : Nat :=
  ba.position / ba.baseSize * ba.baseSize + position % ba.baseSize

section Read

variable {ba : ByteArray} {n position : Nat}

theorem readAt_short (short : sizeSub ba.size position < n) :
    readAt n position ba = .error (.outOfRange "not enough len") ba := by
  simp only [readAt, run_bind, run_get, if_pos (show n > sizeSub ba.size position from short), run_throw]

/-- The nodes from that of the cursor on, when there is one. -/
theorem cursor_drop (inv : Inv ba) :
    Uniform ba.baseSize (ba.nodes.drop (ba.position / ba.baseSize)) ∧
      ba.baseSize * (ba.nodes.drop (ba.position / ba.baseSize)).length +
        ba.position / ba.baseSize * ba.baseSize = ba.capacity ∧
      ∀ npos, (flat (ba.nodes.drop (ba.position / ba.baseSize))).drop npos =
        (flat ba.nodes).drop (ba.position / ba.baseSize * ba.baseSize + npos) := by
  refine ⟨fun node member => inv.uniform node (List.mem_of_mem_drop member), ?_, fun npos => ?_⟩
  · rw [List.length_drop, Nat.mul_comm _ ba.baseSize, ← Nat.mul_add, Nat.sub_add_cancel (block_le inv),
      inv.capacity_eq]
  · rw [flat_drop_block inv.uniform (block_le inv), Nat.mul_comm]

/-- A read that passes the test returns the bytes of the stretch it walks over, or runs off
the chain. -/
theorem readAt_eq (inv : Inv ba) (some_ : 0 < n) (passes : n ≤ sizeSub ba.size position) :
    readAt n position ba =
      if ba.position < ba.capacity ∧ walkStart ba position + n ≤ ba.capacity then
        .ok (((flat ba.nodes).drop (walkStart ba position)).take n) ba
      else .error .nullNode ba := by
  have start := Nat.mod_lt position inv.positive
  have position_le := inv.position_le
  have size_le := inv.size_le
  simp only [readAt, run_bind, run_get, if_neg (Nat.not_lt.mpr passes), inv.cur_eq]
  by_cases full : ba.position = ba.capacity
  · have behind : ¬ (ba.position < ba.capacity ∧ walkStart ba position + n ≤ ba.capacity) :=
      fun inside => Nat.lt_irrefl _ (full ▸ inside.1)
    simp only [if_pos full, if_neg behind, run_throw]
  · obtain ⟨uniform, left, behind⟩ := cursor_drop inv
    simp only [if_neg full]
    by_cases inside : walkStart ba position + n ≤ ba.capacity
    · rw [if_pos ⟨by omega, inside⟩]
      rw [walkStart] at inside ⊢
      have looped := readLoop_spec inv.positive _ uniform _ start n some_ (by omega)
      simp only [looped, behind, run_pure]
    · rw [if_neg fun both => inside both.2]
      rw [walkStart] at inside
      have looped := readLoop_past _ uniform _ n start some_ (by omega)
      simp only [looped, run_throw]

theorem sizeSub_of_le {a b : Nat} (le : b ≤ a) : sizeSub a b = a - b := if_pos le

theorem walkStart_eq (ba : ByteArray) {position : Nat}
    (same : position / ba.baseSize = ba.position / ba.baseSize) : walkStart ba position = position := by
  rw [walkStart, ← same, Nat.div_add_mod']

theorem ne_walkStart (ba : ByteArray) (positive : 1 ≤ ba.baseSize) {position : Nat}
    (other : position / ba.baseSize ≠ ba.position / ba.baseSize) :
    walkStart ba position ≠ position := by
  intro same
  apply other
  have start := Nat.mod_lt position positive
  calc
    position / ba.baseSize = walkStart ba position / ba.baseSize := by rw [same]
    _ = ba.position / ba.baseSize := by
      rw [walkStart, Nat.mul_comm, Nat.mul_add_div (by omega), Nat.div_eq_of_lt start, Nat.add_zero]

/-- In the block of the cursor the walk is right. -/
theorem readAt_same_block (inv : Inv ba) (some_ : 0 < n) (inside : position + n ≤ ba.size)
    (same : position / ba.baseSize = ba.position / ba.baseSize) :
    readAt n position ba = .ok (((contents ba).drop position).take n) ba := by
  have size_le := inv.size_le
  have position_le := inv.position_le
  have passes : n ≤ sizeSub ba.size position := by
    rw [sizeSub_of_le (by omega)]
    omega
  have start := walkStart_eq ba same
  -- a cursor behind the last block is in no block of an offset in use
  have ahead : ba.position < ba.capacity := by
    have capacity_eq := inv.capacity_eq
    by_contra full
    have at_end : ba.position = ba.baseSize * ba.nodes.length := by omega
    rw [at_end, Nat.mul_div_cancel_left _ (by have := inv.positive; omega)] at same
    have below := Nat.div_mul_le_self position ba.baseSize
    rw [same, Nat.mul_comm] at below
    omega
  rw [readAt_eq inv some_ passes, start, if_pos ⟨ahead, by omega⟩, contents, List.drop_take,
    List.take_take, Nat.min_eq_left (by omega)]

end Read

/-! ## An array with one byte that differs -/

theorem newNode_bytes (v : UInt8) (k s : Nat) :
    (newNode (fun _ => v) k s).bytes = List.replicate s v := by
  simp [newNode, List.map_const']

/-- Where the allocator brings zeros, new blocks hold zeros. -/
theorem flat_addCapacity {ba : ByteArray} (zeros : ba.heap = fun _ => 0) (n : Nat) :
    ∃ k, flat (addCapacity n ba).nodes = flat ba.nodes ++ List.replicate k 0 := by
  have fresh_flat : ∀ count, ∃ k, flat ((List.range count).map fun i =>
      newNode ba.heap (ba.allocated + i * ba.baseSize) ba.baseSize) = List.replicate k 0 := by
    intro count
    refine ⟨_, List.eq_replicate_iff.mpr ⟨rfl, fun x member => ?_⟩⟩
    obtain ⟨node, of_fresh, inside⟩ := List.mem_flatMap.mp member
    obtain ⟨i, -, rfl⟩ := List.mem_map.mp of_fresh
    rw [zeros, newNode_bytes] at inside
    exact (List.mem_replicate.mp inside).2
  unfold addCapacity
  dsimp only
  split
  · exact ⟨0, by simp⟩
  · split
    · exact ⟨0, by simp⟩
    · obtain ⟨k, fresh_eq⟩ := fresh_flat ((n - ba.getCapacity + ba.baseSize - 1) / ba.baseSize)
      exact ⟨k, by rw [flat_append, fresh_eq]⟩

/-- For any size and cursor there is a reachable array all of whose bytes are zero but one. -/
theorem exists_marked {b size cursor mark : Nat} (positive : 1 ≤ b) (cursor_le : cursor ≤ size)
    (mark_lt : mark < size) :
    ∃ ba, Reachable ba ∧ ba.baseSize = b ∧ ba.size = size ∧ ba.position = cursor ∧
      ∀ p, (flat ba.nodes)[p]? =
        if p < ba.capacity then some (if p = mark then 1 else 0) else none := by
  have fresh := Reachable.new positive fun _ => 0
  obtain ⟨buf, buf_eq⟩ : ∃ buf : List UInt8, buf = (List.replicate size 0).set mark 1 := ⟨_, rfl⟩
  have length_eq : buf.length = size := by simp [buf_eq]
  -- one write in a fresh array, then one move of the cursor
  obtain ⟨full, ran, wrote, flat_eq, -⟩ := write_grown fresh.inv buf
  have stored : full.size = size := by
    rw [← wrote.inv.length_contents, wrote.contents_eq]
    simp [contents, ByteArray.new, splice, length_eq]
  have is_full : Reachable full := fresh.act (.call (.write buf)) (by simp only [act, after, perform, ran])
  obtain ⟨ba, ran', sought⟩ := setPosition_spec wrote.inv cursor (by
    have := wrote.inv.size_le
    omega)
  refine ⟨ba, is_full.act (.call (.setPosition cursor)) (by simp only [act, after, perform, ran']),
    sought.baseSize_eq.trans wrote.baseSize_eq, by rw [sought.size_eq, stored, Nat.max_eq_left cursor_le],
    sought.position_eq, fun p => ?_⟩
  obtain ⟨k, grown_eq⟩ : ∃ k, flat (addCapacity buf.length (ByteArray.new b fun _ => 0)).nodes =
      flat (ByteArray.new b fun _ => 0).nodes ++ List.replicate k 0 := flat_addCapacity rfl _
  have root : flat (ByteArray.new b fun _ => 0).nodes = List.replicate b 0 := by
    simp [ByteArray.new, newNode_bytes]
  have bytes_eq : flat ba.nodes = buf ++ (List.replicate (b + k) 0).drop size := by
    rw [sought.nodes_eq, flat_eq, grown_eq, root, List.replicate_append_replicate]
    simp [splice, ByteArray.new, length_eq]
  have length_flat := sought.inv.length_flat
  by_cases inside : p < ba.capacity
  · rw [if_pos inside]
    rw [← length_flat, bytes_eq, List.length_append, List.length_drop, List.length_replicate] at inside
    rw [bytes_eq, List.getElem?_append, length_eq]
    by_cases written : p < size
    · rw [if_pos written, buf_eq, List.getElem?_set, List.length_replicate]
      by_cases marked : mark = p
      · simp [marked, written]
      · have other : p ≠ mark := fun same => marked same.symm
        simp [marked, other, written]
    · have other : p ≠ mark := by omega
      rw [if_neg written, List.getElem?_drop, List.getElem?_replicate, if_pos (by omega), if_neg other]
  · rw [if_neg inside, List.getElem?_eq_none (by omega)]

/-! ## Where the read is right -/

/-- **Positional read**: the arrays of a given size and cursor all return the bytes stored at an
offset exactly when the offset lies in the block of the cursor. -/
theorem readAt_right_iff (b size cursor position n : Nat) (positive : 1 ≤ b)
    (cursor_le : cursor ≤ size) (some_ : 1 ≤ n) (inside : position + n ≤ size) :
    (∀ ba, Reachable ba → ba.baseSize = b → ba.size = size → ba.position = cursor →
      readAt n position ba = .ok (((contents ba).drop position).take n) ba) ↔
      position / b = cursor / b := by
  constructor
  · intro right
    by_contra other
    have offset_lt : position < size := by omega
    obtain ⟨ba, reachable, rfl, rfl, rfl, bytes⟩ := exists_marked positive cursor_le offset_lt
    have inv := reachable.inv
    have size_le := inv.size_le
    have returned := right ba reachable rfl rfl rfl
    have passes : n ≤ sizeSub ba.size position := by
      rw [sizeSub_of_le (by omega)]
      omega
    rw [readAt_eq inv some_ passes] at returned
    split at returned
    next walked =>
      -- the first byte tells the two stretches apart
      have same : ((flat ba.nodes).drop (walkStart ba position)).take n =
          ((contents ba).drop position).take n := by injection returned
      have first := congrArg (fun l => l[0]?) same
      have apart := ne_walkStart ba inv.positive other
      simp only [List.getElem?_take, List.getElem?_drop, contents, Nat.add_zero, bytes,
        if_pos (show 0 < n from some_), if_pos (show position < ba.size by omega),
        if_pos (show walkStart ba position < ba.capacity by omega),
        if_pos (show position < ba.capacity by omega), if_neg apart, if_true] at first
      cases first
    next => cases returned
  · rintro same ba reachable rfl rfl rfl
    exact readAt_same_block reachable.inv some_ inside same

/-- In the block of the cursor. -/
theorem readAt_right_iff_same :
    ∃ ba, Run.run act (new 2 fun _ => 0) [.call (.write [1, 2, 3, 4]), .call (.setPosition 0)] =
        some ba ∧
      readAt 1 1 ba = .ok [2] ba :=
  ⟨_, rfl, (readAt_right_iff 2 4 0 1 1 (by decide) (by decide) (by decide) (by decide)).mpr rfl
    ⟨2, 0, 4, 4, [⟨[1, 2]⟩, ⟨[3, 4]⟩], some 0, .big, fun _ => 0, 4⟩
    ⟨2, fun _ => 0, [.call (.write [1, 2, 3, 4]), .call (.setPosition 0)], by decide, rfl⟩ rfl rfl rfl⟩

/-- In the block behind that of the cursor: the byte of the cursor's block is returned. -/
theorem readAt_other_block :
    ∃ ba, Reachable ba ∧ 2 + 1 ≤ ba.size ∧ readAt 1 2 ba = .ok [1] ba ∧
      ((contents ba).drop 2).take 1 = [3] :=
  ⟨⟨2, 0, 4, 4, [⟨[1, 2]⟩, ⟨[3, 4]⟩], some 0, .big, fun _ => 0, 4⟩,
    ⟨2, fun _ => 0, [.call (.write [1, 2, 3, 4]), .call (.setPosition 0)], by decide, rfl⟩,
    by decide, rfl, rfl⟩

/-! ## What the tests let through -/

/-- A read past the size throws. -/
def ReadChecked (ba : ByteArray) (n position : Nat) : Prop :=
  ba.size < position + n → readAt n position ba = .error (.outOfRange "not enough len") ba

/-- The segments are handed out, and all of them lie below the size. -/
def SegmentsInside (ba : ByteArray) (len position : Nat) : Prop :=
  ∃ iovs m, getReadBuffersAt len position ba = .ok (iovs, m) ba ∧
    ∀ iov ∈ iovs, iov.node * ba.baseSize + iov.offset + iov.len ≤ ba.size

theorem readLoop_error {nodes : List Node} {npos n : Nat} {fault : Fault}
    (failed : readLoop nodes npos n = .error fault) : fault = .nullNode := by
  induction nodes generalizing npos n with
  | nil =>
    rw [readLoop] at failed
    split at failed
    · injection failed with same
      exact same.symm
    · cases failed
  | cons node rest ih =>
    rw [readLoop] at failed
    split at failed
    · dsimp only at failed
      split at failed
      · cases failed
      · split at failed
        next rest_failed =>
          injection failed with same
          rw [same] at rest_failed
          exact ih rest_failed
        next => cases failed
    · cases failed

/-- Behind its test the read throws no exception. -/
theorem readAt_passed {ba : ByteArray} {n position : Nat} (passes : n ≤ sizeSub ba.size position)
    (what : String) : readAt n position ba ≠ .error (.outOfRange what) ba := by
  simp only [readAt, run_bind, run_get, if_neg (Nat.not_lt.mpr passes)]
  cases ba.cur with
  | none => simp
  | some i =>
    dsimp only
    cases looped : readLoop (ba.nodes.drop i) (position % ba.baseSize) n with
    | error fault => simp [readLoop_error looped]
    | ok result => simp

theorem readChecked_iff {ba : ByteArray} {n position : Nat} (fits : position < 2 ^ 64) :
    ReadChecked ba n position ↔ position ≤ ba.size ∨ ba.size + 2 ^ 64 < position + n := by
  constructor
  · intro checked
    by_contra unchecked
    simp only [not_or, Nat.not_le, Nat.not_lt] at unchecked
    have passes : n ≤ sizeSub ba.size position := by
      rw [sizeSub, if_neg (by omega)]
      omega
    exact readAt_passed passes _ (checked (by omega))
  · intro bounded past
    refine readAt_short ?_
    rw [sizeSub]
    split <;> omega

/-- Segments that tile a stretch reach its end. -/
theorem Tiles.reaches {b p q : Nat} {iovs : List Iovec} (tiles : Tiles b iovs p q) (some_ : p < q) :
    ∃ iov ∈ iovs, iov.node * b + iov.offset + iov.len = q := by
  induction tiles with
  | nil p => exact absurd some_ (Nat.lt_irrefl p)
  | @cons iov iovs p q start some_ inside rest ih =>
    by_cases more : p + iov.len < q
    · obtain ⟨last, member, stops⟩ := ih more
      exact ⟨last, List.mem_cons_of_mem _ member, stops⟩
    · have total := rest.sum_len
      exact ⟨iov, List.mem_cons_self .., by omega⟩

theorem segmentsInside_iff {ba : ByteArray} (inv : Inv ba) {len position : Nat} :
    SegmentsInside ba len position ↔
      min len ba.getReadSize = 0 ∨ position + min len ba.getReadSize ≤ ba.size := by
  have size_le := inv.size_le
  have capacity_eq := inv.capacity_eq
  unfold SegmentsInside
  simp only [getReadBuffersAt, run_bind, run_get, clamp_eq]
  by_cases empty : min len ba.getReadSize = 0
  · rw [if_pos empty]
    exact ⟨fun _ => .inl empty, fun _ => ⟨[], 0, rfl, fun iov member => by cases member⟩⟩
  · rw [if_neg empty, or_iff_right empty]
    have below := Nat.mul_div_le position ba.baseSize
    by_cases fits : position + min len ba.getReadSize ≤ ba.capacity
    · -- the stretch lies in the chain, and its end in use or not
      have bound : position / ba.baseSize ≤ ba.nodes.length := by
        rw [← Nat.mul_le_mul_left_iff inv.positive]
        omega
      obtain ⟨iovs, looped, tiles⟩ := segments_at inv fits
      simp only [walkLoop_eq _ _ bound, looped, run_pure]
      constructor
      · rintro ⟨iovs', m, handed, inside⟩
        obtain ⟨iov, member, stops⟩ := tiles.reaches (by omega)
        injection handed with same
        injection same with same
        rw [← stops]
        exact inside iov (same ▸ member)
      · intro inside
        exact ⟨iovs, _, rfl, fun iov member => Nat.le_trans (tiles.within iov member).2 inside⟩
    · constructor
      · -- the walk runs off the chain, in its first or in its second loop
        rintro ⟨iovs, m, handed, -⟩
        by_cases bound : position / ba.baseSize ≤ ba.nodes.length
        · have start := Nat.mod_lt position inv.positive
          have whole := Nat.div_add_mod position ba.baseSize
          have left : ba.baseSize * (ba.nodes.drop (position / ba.baseSize)).length =
              ba.capacity - ba.baseSize * (position / ba.baseSize) := by
            rw [List.length_drop, Nat.mul_sub, ← capacity_eq]
          have uniform : Uniform ba.baseSize (ba.nodes.drop (position / ba.baseSize)) :=
            fun node member => inv.uniform node (List.mem_of_mem_drop member)
          have looped := iovecLoop_past _ uniform (position / ba.baseSize)
            (position % ba.baseSize) _ start (Nat.pos_of_ne_zero empty) (by omega)
          simp only [walkLoop_eq _ _ bound, looped, run_throw] at handed
          cases handed
        · simp only [walkLoop_past _ _ (Nat.lt_of_not_le bound), run_throw] at handed
          cases handed
      · intro inside
        exact absurd (Nat.le_trans inside size_le) fits

/-- **Random access**: a read past the size throws exactly where `size_ - position` does not
wrap around, or wraps around to less than what is asked for; and the segments stay below the
size exactly where the offset and the length clamped at the cursor do. -/
theorem random_access_iff {ba : ByteArray} (reachable : Reachable ba) (size len position : UInt64) :
    (ReadChecked ba size.toNat position.toNat ↔
      position.toNat ≤ ba.size ∨ ba.size + 2 ^ 64 < position.toNat + size.toNat) ∧
    (SegmentsInside ba len.toNat position.toNat ↔
      min len.toNat ba.getReadSize = 0 ∨
        position.toNat + min len.toNat ba.getReadSize ≤ ba.size) :=
  ⟨readChecked_iff position.toNat_lt, segmentsInside_iff reachable.inv⟩

/-- An array of two bytes with the cursor at its start. -/
theorem random_access_iff_end :
    ∃ ba, Run.run act (new 4 fun _ => 0) [.call (.write [1, 2]), .call (.setPosition 0)] = some ba ∧
      ReadChecked ba 3 1 ∧ SegmentsInside ba 1 1 := by
  have reachable : Reachable ⟨4, 0, 4, 2, [⟨[1, 2, 0, 0]⟩], some 0, .big, fun _ => 0, 4⟩ :=
    ⟨4, fun _ => 0, [.call (.write [1, 2]), .call (.setPosition 0)], by decide, rfl⟩
  obtain ⟨checked, inside⟩ := random_access_iff reachable 3 1 1
  exact ⟨_, rfl, checked.mpr (by decide), inside.mpr (by decide)⟩

/-- There, a read of one byte at offset 3 returns a byte that was never written, and the
segments from offset 1 on reach behind the size. -/
theorem random_access_unwritten :
    ∃ ba, Reachable ba ∧ ba.size = 2 ∧ readAt 1 3 ba = .ok [7] ba ∧ ¬ ReadChecked ba 1 3 ∧
      getReadBuffersAt 2 1 ba = .ok ([⟨0, 1, 2⟩], 2) ba ∧ ¬ SegmentsInside ba 2 1 := by
  have reachable : Reachable ⟨4, 0, 4, 2, [⟨[1, 2, 7, 7]⟩], some 0, .big, fun _ => 7, 4⟩ :=
    ⟨4, fun _ => 7, [.call (.write [1, 2]), .call (.setPosition 0)], by decide, rfl⟩
  refine ⟨_, reachable, rfl, rfl, fun checked => ?_, rfl, fun inside => ?_⟩
  · have thrown := checked (by decide)
    cases thrown
  · exact absurd ((segmentsInside_iff reachable.inv).mp inside) (by decide)

end ServerFrame.ByteArray
