import ServerFrame.Lib.EState
import ServerFrame.ByteArray.Storage

/-!
# Representation invariant of `ByteArray`

One specification lemma for each storage operation: from a state that satisfies
`Inv` it says how the operation ends, what it does to the bytes in use, and that
`Inv` holds again. Everything proved about a `ByteArray` later goes through these
lemmas and never opens a loop again.
-/
namespace ServerFrame.ByteArray

open Splice EState

/-! ## Chains of equal blocks -/

/-- The bytes of a chain, read from its first node on. -/
def flat (nodes : List Node) : List UInt8 := nodes.flatMap Node.bytes

@[simp] theorem flat_nil : flat [] = [] := rfl

@[simp] theorem flat_cons (node : Node) (rest : List Node) :
    flat (node :: rest) = node.bytes ++ flat rest := by
  simp [flat]

@[simp] theorem flat_append (front rest : List Node) :
    flat (front ++ rest) = flat front ++ flat rest := by
  simp [flat]

/-- Every block of the chain has `b` bytes. -/
def Uniform (b : Nat) (nodes : List Node) : Prop := ∀ node ∈ nodes, node.size = b

theorem Uniform.append {b : Nat} {front rest : List Node}
    (first : Uniform b front) (second : Uniform b rest) : Uniform b (front ++ rest) := by
  intro node member
  rcases List.mem_append.mp member with h | h
  · exact first node h
  · exact second node h

theorem Uniform.tail {b : Nat} {node : Node} {rest : List Node}
    (uniform : Uniform b (node :: rest)) : Uniform b rest :=
  fun other member => uniform other (List.mem_cons_of_mem node member)

theorem length_flat {b : Nat} {nodes : List Node} (uniform : Uniform b nodes) :
    (flat nodes).length = b * nodes.length := by
  induction nodes with
  | nil => simp
  | cons node rest ih =>
    have head : node.bytes.length = b := uniform node (List.mem_cons_self ..)
    simp only [flat_cons, List.length_append, head, ih uniform.tail, List.length_cons, Nat.mul_succ]
    omega

theorem length_flat_take {b i : Nat} {nodes : List Node} (uniform : Uniform b nodes)
    (bound : i ≤ nodes.length) : (flat (nodes.take i)).length = b * i := by
  have front : Uniform b (nodes.take i) := fun node member => uniform node (List.mem_of_mem_take member)
  rw [length_flat front, List.length_take, Nat.min_eq_left bound]

/-- Offset `p` of a chain lies in node `p / b`, and is its end when `p` is. -/
theorem nodeAt_eq {b p : Nat} {nodes : List Node} (positive : 1 ≤ b)
    (bound : p ≤ b * nodes.length) :
    nodeAt nodes (p / b) = if p = b * nodes.length then none else some (p / b) := by
  unfold nodeAt
  by_cases full : p = b * nodes.length
  · have last : p / b = nodes.length := by rw [full, Nat.mul_div_cancel_left _ (by omega)]
    rw [if_neg (by omega), if_pos full]
  · have inside : p / b < nodes.length := by
      rw [Nat.div_lt_iff_lt_mul (by omega), Nat.mul_comm]; omega
    simp [full, inside]

/-! ## The copying loops -/

private theorem add_div_of_cross {b m n : Nat} (inside : m < b) (cross : b ≤ m + n) :
    (m + n) / b = (n - (b - m)) / b + 1 := by
  rw [show m + n = (n - (b - m)) + b by omega, Nat.add_div_right _ (by omega)]

theorem writeLoop_spec {b : Nat} (positive : 1 ≤ b) (nodes : List Node) (uniform : Uniform b nodes)
    (npos : Nat) (start : npos < b) (buf : List UInt8) (some_ : 0 < buf.length)
    (fits : npos + buf.length ≤ b * nodes.length) :
    ∃ nodes', writeLoop nodes npos buf = .ok (nodes', (npos + buf.length) / b) ∧
      Uniform b nodes' ∧ nodes'.length = nodes.length ∧
      flat nodes' = splice (flat nodes) npos buf := by
  induction nodes generalizing npos buf with
  | nil => simp only [List.length_nil, Nat.mul_zero] at fits; omega
  | cons node rest ih =>
    have size : node.bytes.length = b := uniform node (List.mem_cons_self ..)
    simp only [writeLoop, Node.size, size, if_pos some_]
    by_cases last : b - npos ≥ buf.length
    · -- the rest of the data fits in this node
      rw [if_pos last]
      have inside : npos + buf.length ≤ node.bytes.length := by omega
      refine ⟨node.store npos buf :: rest, ?_, ?_, rfl, ?_⟩
      · congr 2
        by_cases full : b = npos + buf.length
        · rw [if_pos full, ← full, Nat.div_self (by omega)]
        · rw [if_neg full, Nat.div_eq_of_lt (by omega)]
      · intro other member
        rcases List.mem_cons.mp member with rfl | member
        · rw [Node.size, Node.store, length_splice _ _ _ (by omega)]; omega
        · exact uniform.tail other member
      · rw [flat_cons, flat_cons, splice_append_left _ _ _ _ inside]; rfl
    · -- the node is filled up and the loop goes on at offset 0 of the next one
      rw [if_neg last]
      have taken : (buf.drop (b - npos)).length = buf.length - (b - npos) := List.length_drop
      simp only [List.length_cons, Nat.mul_succ] at fits
      obtain ⟨rest', looped, uniform', count, bytes⟩ :=
        ih uniform.tail 0 (by omega) (buf.drop (b - npos)) (by omega) (by omega)
      rw [looped]
      refine ⟨node.store npos (buf.take (b - npos)) :: rest', ?_, ?_, by simp [count], ?_⟩
      · have moved : (npos + buf.length) / b = _ := add_div_of_cross start (by omega)
        simp only [Nat.zero_add, taken, moved]
      · intro other member
        rcases List.mem_cons.mp member with rfl | member
        · rw [Node.size, Node.store, length_splice _ _ _ (by omega), List.length_take]; omega
        · exact uniform' other member
      · rw [flat_cons, flat_cons, bytes, splice_append_cross _ _ _ _ (by omega) (by omega), size]
        rfl

theorem readLoop_spec {b : Nat} (positive : 1 ≤ b) (nodes : List Node) (uniform : Uniform b nodes)
    (npos : Nat) (start : npos < b) (n : Nat) (some_ : 0 < n)
    (fits : npos + n ≤ b * nodes.length) :
    readLoop nodes npos n = .ok (((flat nodes).drop npos).take n, (npos + n) / b) := by
  induction nodes generalizing npos n with
  | nil => simp only [List.length_nil, Nat.mul_zero] at fits; omega
  | cons node rest ih =>
    have size : node.bytes.length = b := uniform node (List.mem_cons_self ..)
    have split : (node.bytes ++ flat rest).drop npos = node.bytes.drop npos ++ flat rest :=
      List.drop_append_of_le_length (by omega)
    have left : (node.bytes.drop npos).length = b - npos := by rw [List.length_drop, size]
    simp only [readLoop, Node.size, size, if_pos some_, flat_cons, split]
    by_cases last : b - npos ≥ n
    · rw [if_pos last, List.take_append_of_le_length (by omega)]
      by_cases full : b = npos + n
      · rw [if_pos full, ← full, Nat.div_self (by omega)]; rfl
      · rw [if_neg full, Nat.div_eq_of_lt (by omega)]; rfl
    · rw [if_neg last]
      simp only [List.length_cons, Nat.mul_succ] at fits
      rw [ih uniform.tail 0 (by omega) (n - (b - npos)) (by omega) (by omega)]
      have moved : (npos + n) / b = _ := add_div_of_cross start (by omega)
      have whole : node.load npos (b - npos) = node.bytes.drop npos := by
        rw [Node.load, List.take_of_length_le (by omega)]
      have kept : (node.bytes.drop npos).take n = node.bytes.drop npos :=
        List.take_of_length_le (by omega)
      rw [List.take_append, left, kept]
      simp only [whole, List.drop_zero, Nat.zero_add, moved]

theorem seekLoop_spec {b : Nat} (positive : 1 ≤ b) (nodes : List Node) (uniform : Uniform b nodes)
    (v : Nat) (nonempty : nodes ≠ []) (fits : v ≤ b * nodes.length) :
    seekLoop nodes v = .ok (v / b) := by
  induction nodes generalizing v with
  | nil => exact absurd rfl nonempty
  | cons node rest ih =>
    have size : node.size = b := uniform node (List.mem_cons_self ..)
    simp only [seekLoop, size]
    simp only [List.length_cons, Nat.mul_succ] at fits
    by_cases past : v > b
    · have more : rest ≠ [] := by
        rintro rfl
        simp only [List.length_nil, Nat.mul_zero] at fits; omega
      rw [if_pos past, ih uniform.tail (v - b) more (by omega)]
      have step : v / b = (v - b) / b + 1 := by
        rw [← Nat.add_div_right _ (by omega : 0 < b), Nat.sub_add_cancel (by omega)]
      simp only [step]
    · rw [if_neg past]
      by_cases full : v = b
      · rw [if_pos full, full, Nat.div_self (by omega)]
      · rw [if_neg full, Nat.div_eq_of_lt (by omega)]

/-! ## The invariant -/

structure Inv (ba : ByteArray) : Prop where
  positive : 1 ≤ ba.baseSize
  position_le : ba.position ≤ ba.size
  size_le : ba.size ≤ ba.capacity
  capacity_eq : ba.capacity = ba.baseSize * ba.nodes.length
  uniform : Uniform ba.baseSize ba.nodes
  root : ba.nodes ≠ []
  cur_eq : ba.cur = if ba.position = ba.capacity then none else some (ba.position / ba.baseSize)

/-- The bytes in use, `[0, size_)`. -/
def contents (ba : ByteArray) : List UInt8 := (flat ba.nodes).take ba.size

theorem Inv.length_flat {ba : ByteArray} (inv : Inv ba) : (flat ba.nodes).length = ba.capacity := by
  rw [ByteArray.length_flat inv.uniform, inv.capacity_eq]

theorem Inv.length_contents {ba : ByteArray} (inv : Inv ba) : (contents ba).length = ba.size := by
  rw [contents, List.length_take, inv.length_flat, Nat.min_eq_left inv.size_le]

/-- The invariant determines `cur_` as the node at the cursor. -/
theorem Inv.cur_nodeAt {ba : ByteArray} (inv : Inv ba) :
    ba.cur = nodeAt ba.nodes (ba.position / ba.baseSize) := by
  have bound : ba.position ≤ ba.baseSize * ba.nodes.length := by
    have := inv.position_le; have := inv.size_le; have := inv.capacity_eq; omega
  rw [inv.cur_eq, nodeAt_eq inv.positive bound, inv.capacity_eq]

private theorem size_newNode (heap : Nat → UInt8) (k s : Nat) : (newNode heap k s).size = s := by
  simp [newNode, Node.size]

theorem inv_new {baseSize : Nat} (positive : 1 ≤ baseSize) (heap : Nat → UInt8) :
    Inv (new baseSize heap) where
  positive := positive
  position_le := Nat.le_refl 0
  size_le := Nat.zero_le _
  capacity_eq := by simp [new]
  uniform := by
    intro node member
    rw [List.mem_singleton.mp member]
    exact size_newNode heap 0 baseSize
  root := by simp [new]
  cur_eq := by
    have : ¬ 0 = baseSize := by omega
    simp [new, this]

/-- `ba'` is `ba` with blocks added behind those in use. -/
structure Grown (ba ba' : ByteArray) : Prop where
  inv : Inv ba'
  position_eq : ba'.position = ba.position
  size_eq : ba'.size = ba.size
  baseSize_eq : ba'.baseSize = ba.baseSize
  endian_eq : ba'.endian = ba.endian
  capacity_le : ba.capacity ≤ ba'.capacity
  flat_eq : (flat ba'.nodes).take ba.capacity = flat ba.nodes

theorem Grown.contents_eq {ba ba' : ByteArray} (inv : Inv ba) (grown : Grown ba ba') :
    contents ba' = contents ba := by
  rw [contents, contents, ← grown.flat_eq, List.take_take, grown.size_eq,
    Nat.min_eq_left inv.size_le]

theorem Grown.refl {ba : ByteArray} (inv : Inv ba) : Grown ba ba :=
  ⟨inv, rfl, rfl, rfl, rfl, Nat.le_refl _, by
    rw [List.take_of_length_le (Nat.le_of_eq inv.length_flat)]⟩

theorem addCapacity_spec {ba : ByteArray} (inv : Inv ba) (n : Nat) :
    Grown ba (addCapacity n ba) ∧ n ≤ (addCapacity n ba).getCapacity := by
  unfold addCapacity
  by_cases zero : n = 0
  · rw [if_pos zero]
    exact ⟨.refl inv, by omega⟩
  rw [if_neg zero]
  dsimp only
  by_cases room : n ≤ ba.getCapacity
  · rw [if_pos room]
    exact ⟨.refl inv, room⟩
  rw [if_neg room]
  have positive := inv.positive
  have position_le := inv.position_le
  have size_le := inv.size_le
  have capacity_eq := inv.capacity_eq
  -- `ceil(1.0 * size / base_size_)` blocks are enough
  have missing : n - ba.getCapacity ≤
      (n - ba.getCapacity + ba.baseSize - 1) / ba.baseSize * ba.baseSize := by
    have := Nat.div_add_mod' (n - ba.getCapacity + ba.baseSize - 1) ba.baseSize
    have := Nat.mod_lt (n - ba.getCapacity + ba.baseSize - 1) positive
    omega
  generalize count_eq : (n - ba.getCapacity + ba.baseSize - 1) / ba.baseSize = count at missing
  generalize fresh_eq : (List.range count).map (fun i =>
    newNode ba.heap (ba.allocated + i * ba.baseSize) ba.baseSize) = fresh
  have fresh_length : fresh.length = count := by simp [← fresh_eq]
  have fresh_uniform : Uniform ba.baseSize fresh := by
    intro node member
    rw [← fresh_eq] at member
    obtain ⟨i, -, rfl⟩ := List.mem_map.mp member
    exact size_newNode _ _ _
  have capacity_eq' : ba.capacity + count * ba.baseSize =
      ba.baseSize * (ba.nodes ++ fresh).length := by
    rw [List.length_append, fresh_length, Nat.mul_add, capacity_eq, Nat.mul_comm count]
  have room' : n ≤ ba.capacity + count * ba.baseSize - ba.position := by
    simp only [getCapacity] at missing room; omega
  refine ⟨⟨⟨positive, position_le, by dsimp only; omega, capacity_eq',
    inv.uniform.append fresh_uniform, by simp [inv.root], ?_⟩, rfl, rfl, rfl, rfl, ?_, ?_⟩, ?_⟩
  · -- a full array had a null cursor, which now points at the first new block
    have behind : ¬ ba.position = ba.capacity + count * ba.baseSize := by omega
    dsimp only
    rw [if_neg behind]
    by_cases full : ba.getCapacity = 0
    · have stop : ba.position = ba.baseSize * ba.nodes.length := by
        simp only [getCapacity] at full; omega
      have more : 0 < count := by
        rcases Nat.eq_zero_or_pos count with none_ | more
        · subst none_; omega
        · exact more
      rw [if_pos full, nodeAt, if_pos (by simp [fresh_length, more]), stop,
        Nat.mul_div_cancel_left _ (by omega)]
    · rw [if_neg full, inv.cur_eq, if_neg (by simp only [getCapacity] at full; omega)]
  · dsimp only; omega
  · dsimp only
    rw [flat_append, ← inv.length_flat, List.take_left]
  · exact room'

/-- What a write of `buf` at the cursor leaves behind. -/
structure Wrote (ba : ByteArray) (buf : List UInt8) (ba' : ByteArray) : Prop where
  inv : Inv ba'
  position_eq : ba'.position = ba.position + buf.length
  contents_eq : contents ba' = splice (contents ba) ba.position buf
  baseSize_eq : ba'.baseSize = ba.baseSize
  endian_eq : ba'.endian = ba.endian

/-- The bytes from a block on, and those before it. -/
theorem flat_drop_block {b : Nat} {nodes : List Node} (uniform : Uniform b nodes) {i : Nat}
    (bound : i ≤ nodes.length) (npos : Nat) :
    (flat (nodes.drop i)).drop npos = (flat nodes).drop (b * i + npos) := by
  have front := length_flat_take uniform bound
  have split : flat nodes = flat (nodes.take i) ++ flat (nodes.drop i) := by
    rw [← flat_append, List.take_append_drop]
  rw [← front, split, List.drop_length_add_append]

/-- The block in which a walk of `n` bytes ends. -/
theorem div_add_walk {b : Nat} (positive : 1 ≤ b) (p n : Nat) :
    p / b + (p % b + n) / b = (p + n) / b := by
  rw [← Nat.mul_add_div positive, ← Nat.add_assoc, Nat.div_add_mod]

theorem block_le {ba : ByteArray} (inv : Inv ba) : ba.position / ba.baseSize ≤ ba.nodes.length := by
  have position_le := inv.position_le
  have size_le := inv.size_le
  have capacity_eq := inv.capacity_eq
  have below := Nat.mul_div_le ba.position ba.baseSize
  rw [← Nat.mul_le_mul_left_iff inv.positive]
  omega

/-- The bytes from the cursor on, as the walk from its node finds them. -/
theorem drop_cursor {ba : ByteArray} (inv : Inv ba) :
    (flat (ba.nodes.drop (ba.position / ba.baseSize))).drop (ba.position % ba.baseSize) =
      (flat ba.nodes).drop ba.position := by
  rw [flat_drop_block inv.uniform (block_le inv), Nat.div_add_mod]

/-- The nodes from the cursor on, as the loops see them. -/
theorem cursor_split {ba : ByteArray} (inv : Inv ba) :
    flat ba.nodes = flat (ba.nodes.take (ba.position / ba.baseSize)) ++
      flat (ba.nodes.drop (ba.position / ba.baseSize)) ∧
    (flat (ba.nodes.take (ba.position / ba.baseSize))).length + ba.position % ba.baseSize =
      ba.position ∧
    Uniform ba.baseSize (ba.nodes.drop (ba.position / ba.baseSize)) ∧
    ba.baseSize * (ba.nodes.drop (ba.position / ba.baseSize)).length +
      (ba.position - ba.position % ba.baseSize) = ba.capacity := by
  have whole := Nat.div_add_mod ba.position ba.baseSize
  have position_le := inv.position_le
  have size_le := inv.size_le
  have bound := block_le inv
  refine ⟨?_, ?_, ?_, ?_⟩
  · rw [← flat_append, List.take_append_drop]
  · rw [length_flat_take inv.uniform bound, whole]
  · exact fun node member => inv.uniform node (List.mem_of_mem_drop member)
  · rw [List.length_drop, Nat.mul_sub, inv.capacity_eq]
    have := Nat.mul_le_mul_left ba.baseSize bound
    omega

/-- A write stores into the chain that `AddCapacity` leaves. -/
theorem write_grown {ba : ByteArray} (inv : Inv ba) (buf : List UInt8) :
    ∃ ba', write buf ba = .ok () ba' ∧ Wrote ba buf ba' ∧
      flat ba'.nodes = splice (flat (addCapacity buf.length ba).nodes) ba.position buf ∧
      ba'.capacity = (addCapacity buf.length ba).capacity := by
  by_cases empty : buf.length = 0
  · have nil : buf = [] := List.eq_nil_of_length_eq_zero empty
    refine ⟨ba, by simp [write, nil], ?_⟩
    subst nil
    exact ⟨⟨inv, by simp, by simp, rfl, rfl⟩, by simp [addCapacity], rfl⟩
  have some_ : 0 < buf.length := by omega
  -- the chain has grown first, so that the loop never meets a null pointer
  obtain ⟨grown, room⟩ := addCapacity_spec inv buf.length
  have contents_eq := grown.contents_eq inv
  simp only [write, if_neg empty, run_bind, run_modify, run_get]
  generalize addCapacity buf.length ba = g at grown room contents_eq ⊢
  obtain ⟨split, offset, uniform, behind⟩ := cursor_split grown.inv
  have inv' := grown.inv
  have ahead : g.position + buf.length ≤ g.capacity := by
    have := inv'.position_le; have := inv'.size_le
    simp only [getCapacity] at room; omega
  have cur : g.cur = some (g.position / g.baseSize) := by
    rw [inv'.cur_eq, if_neg (by omega)]
  have start := Nat.mod_lt g.position inv'.positive
  have below := Nat.mod_le g.position g.baseSize
  -- the blocks before the cursor stay, those from it on are rewritten
  obtain ⟨rest, looped, uniform', count, bytes⟩ :=
    writeLoop_spec inv'.positive _ uniform _ start buf some_ (by omega)
  rw [cur]
  simp only [looped, run_set]
  have length_eq : (g.nodes.take (g.position / g.baseSize) ++ rest).length = g.nodes.length := by
    rw [List.length_append, count, ← List.length_append, List.take_append_drop]
  have flat_eq : flat (g.nodes.take (g.position / g.baseSize) ++ rest) =
      splice (flat g.nodes) g.position buf := by
    rw [flat_append, bytes, split, ← splice_append_right, offset]
  have moved := div_add_walk inv'.positive g.position buf.length
  have size_eq : (if g.position + buf.length > g.size then g.position + buf.length else g.size) =
      max g.size (g.position + buf.length) := by
    split <;> omega
  have position_le := inv'.position_le
  have size_le := inv'.size_le
  refine ⟨_, rfl, ⟨⟨inv'.positive, ?_, ?_, ?_, ?_, ?_, ?_⟩, ?_, ?_, grown.baseSize_eq,
    grown.endian_eq⟩, by rw [← grown.position_eq]; exact flat_eq, rfl⟩
  · dsimp only; omega
  · dsimp only; omega
  · dsimp only; rw [length_eq, inv'.capacity_eq]
  · exact Uniform.append (fun node member => inv'.uniform node (List.mem_of_mem_take member)) uniform'
  · exact List.ne_nil_of_length_pos (by rw [length_eq]; exact List.length_pos_iff.mpr inv'.root)
  · dsimp only
    rw [moved, nodeAt_eq inv'.positive (by rw [length_eq, ← inv'.capacity_eq]; exact ahead), length_eq,
      ← inv'.capacity_eq]
  · dsimp only; rw [grown.position_eq]
  · rw [← contents_eq, ← grown.position_eq, contents]
    dsimp only
    rw [flat_eq, size_eq, take_splice _ _ _ _ position_le, contents]
    · rw [inv'.length_flat]; exact ahead
    · rw [inv'.length_flat]; exact size_le

theorem write_spec {ba : ByteArray} (inv : Inv ba) (buf : List UInt8) :
    ∃ ba', write buf ba = .ok () ba' ∧ Wrote ba buf ba' := by
  obtain ⟨ba', ran, wrote, -⟩ := write_grown inv buf
  exact ⟨ba', ran, wrote⟩

/-- What a read of `n` bytes leaves behind: only the cursor moves. -/
structure Advanced (ba : ByteArray) (n : Nat) (ba' : ByteArray) : Prop where
  inv : Inv ba'
  position_eq : ba'.position = ba.position + n
  contents_eq : contents ba' = contents ba
  baseSize_eq : ba'.baseSize = ba.baseSize
  endian_eq : ba'.endian = ba.endian

/-- The state with the cursor `n` bytes farther on. -/
def advance (ba : ByteArray) (n : Nat) : ByteArray :=
  { ba with position := ba.position + n, cur := nodeAt ba.nodes ((ba.position + n) / ba.baseSize) }

theorem advance_advance (ba : ByteArray) (m n : Nat) :
    (ba.advance m).advance n = ba.advance (m + n) := by
  simp [advance, Nat.add_assoc]

theorem advance_zero {ba : ByteArray} (inv : Inv ba) : ba.advance 0 = ba := by
  have same : nodeAt ba.nodes (ba.position / ba.baseSize) = ba.cur := inv.cur_nodeAt.symm
  simp [advance, same]

/-- A read copies the bytes at the cursor and moves it behind them. -/
theorem read_advance {ba : ByteArray} (inv : Inv ba) (n : Nat) (some_ : 0 < n)
    (enough : n ≤ ba.getReadSize) :
    read n ba = .ok (((contents ba).drop ba.position).take n) (ba.advance n) ∧
      Advanced ba n (ba.advance n) := by
  obtain ⟨-, -, uniform, behind⟩ := cursor_split inv
  have position_le := inv.position_le
  have size_le := inv.size_le
  have ahead : ba.position + n ≤ ba.size := by simp only [getReadSize] at enough; omega
  have cur : ba.cur = some (ba.position / ba.baseSize) := by
    rw [inv.cur_eq, if_neg (by omega)]
  have start := Nat.mod_lt ba.position inv.positive
  have below := Nat.mod_le ba.position ba.baseSize
  -- there are enough unread bytes, so the loop stays in the chain
  have looped := readLoop_spec inv.positive _ uniform _ start n some_ (by omega)
  have bytes : ((flat (ba.nodes.drop (ba.position / ba.baseSize))).drop
      (ba.position % ba.baseSize)).take n = ((contents ba).drop ba.position).take n := by
    -- what is read lies in the bytes in use
    rw [drop_cursor inv, contents, List.drop_take, List.take_take, Nat.min_eq_left (by omega)]
  have moved := div_add_walk inv.positive ba.position n
  simp only [read, run_bind, run_get, if_neg (Nat.not_lt.mpr enough), cur, looped, run_set,
    run_pure, bytes, moved]
  have cur' : nodeAt ba.nodes ((ba.position + n) / ba.baseSize) =
      if ba.position + n = ba.capacity then none else some ((ba.position + n) / ba.baseSize) := by
    rw [nodeAt_eq inv.positive (by rw [← inv.capacity_eq]; omega), inv.capacity_eq]
  exact ⟨rfl, ⟨inv.positive, ahead, size_le, inv.capacity_eq, inv.uniform, inv.root, cur'⟩,
    rfl, rfl, rfl, rfl⟩

theorem read_spec {ba : ByteArray} (inv : Inv ba) (n : Nat) (some_ : 0 < n)
    (enough : n ≤ ba.getReadSize) :
    ∃ ba', read n ba = .ok (((contents ba).drop ba.position).take n) ba' ∧ Advanced ba n ba' :=
  ⟨_, read_advance inv n some_ enough⟩

/-- A read past the end throws and changes nothing. -/
theorem read_short {ba : ByteArray} {n : Nat} (short : ba.getReadSize < n) :
    read n ba = .error (.outOfRange "not enough len") ba := by
  simp only [read, run_bind, run_get, if_pos (show n > ba.getReadSize from short), run_throw]

private theorem readLoop_zero (nodes : List Node) (npos : Nat) :
    readLoop nodes npos 0 = .ok ([], 0) := by
  cases nodes <;> rfl

theorem read_zero_full {ba : ByteArray} (inv : Inv ba) (full : ba.position = ba.capacity) :
    read 0 ba = .error .nullNode ba := by
  simp only [read, run_bind, run_get, Nat.not_lt_zero, if_false, gt_iff_lt, inv.cur_eq, if_pos full,
    run_throw]

/-- A read of nothing does nothing, unless the cursor is null. -/
theorem read_zero {ba : ByteArray} (inv : Inv ba) :
    read 0 ba = .ok [] ba ∨ (read 0 ba = .error .nullNode ba ∧ ba.position = ba.capacity) := by
  by_cases full : ba.position = ba.capacity
  · exact .inr ⟨read_zero_full inv full, full⟩
  · left
    have same : nodeAt ba.nodes (ba.position / ba.baseSize) = ba.cur := inv.cur_nodeAt.symm
    simp only [read, run_bind, run_get, Nat.not_lt_zero, if_false, gt_iff_lt]
    rw [inv.cur_eq]
    simp only [if_neg full, readLoop_zero, run_bind, run_set, run_pure, Nat.add_zero, same]

/-- What `SetPosition(v)` leaves behind; past the end it takes in unwritten bytes. -/
structure Sought (ba : ByteArray) (v : Nat) (ba' : ByteArray) : Prop where
  inv : Inv ba'
  position_eq : ba'.position = v
  size_eq : ba'.size = max ba.size v
  nodes_eq : ba'.nodes = ba.nodes
  baseSize_eq : ba'.baseSize = ba.baseSize
  endian_eq : ba'.endian = ba.endian

theorem setPosition_spec {ba : ByteArray} (inv : Inv ba) (v : Nat) (bound : v ≤ ba.capacity) :
    ∃ ba', setPosition v ba = .ok () ba' ∧ Sought ba v ba' := by
  have fits : v ≤ ba.baseSize * ba.nodes.length := by rw [← inv.capacity_eq]; exact bound
  have sought := seekLoop_spec inv.positive ba.nodes inv.uniform v inv.root fits
  have size_le := inv.size_le
  have size_eq : (if v > ba.size then v else ba.size) = max ba.size v := by split <;> omega
  simp only [setPosition, run_bind, run_get, if_neg (Nat.not_lt.mpr bound), sought, run_set]
  refine ⟨_, rfl, ⟨inv.positive, ?_, ?_, inv.capacity_eq, inv.uniform, inv.root, ?_⟩,
    rfl, size_eq, rfl, rfl, rfl⟩
  · dsimp only; omega
  · dsimp only; omega
  · dsimp only
    rw [nodeAt_eq inv.positive fits, inv.capacity_eq]

theorem setPosition_past {ba : ByteArray} {v : Nat} (past : ba.capacity < v) :
    setPosition v ba = .error (.outOfRange "set_position out of range") ba := by
  simp only [setPosition, run_bind, run_get, if_pos (show v > ba.capacity from past), run_throw]

theorem clear_spec {ba : ByteArray} (inv : Inv ba) :
    ∃ ba', clear ba = .ok () ba' ∧ Inv ba' ∧ ba'.position = 0 ∧ ba'.size = 0 ∧
      ba'.baseSize = ba.baseSize ∧ ba'.endian = ba.endian := by
  obtain ⟨root, rest, chain⟩ := List.exists_cons_of_ne_nil inv.root
  have positive := inv.positive
  refine ⟨_, rfl, ⟨positive, Nat.le_refl 0, Nat.zero_le _, ?_, ?_, ?_, ?_⟩, rfl, rfl, rfl, rfl⟩
  · simp [chain]
  · exact fun node member => inv.uniform node (List.mem_of_mem_take member)
  · simp [chain]
  · have : ¬ 0 = ba.baseSize := by omega
    simp [this]

/-! ## `ReadFromFile` -/

theorem readFileLoop_spec {ba : ByteArray} (inv : Inv ba) (fuel : Nat) (content : List UInt8)
    (enough : content.length < fuel) :
    ∃ ba', readFileLoop fuel content ba = .ok () ba' ∧ Wrote ba content ba' := by
  induction fuel generalizing ba content with
  | zero => omega
  | succ fuel ih =>
    obtain ⟨mid, ran, wrote⟩ := write_spec inv (content.take ba.baseSize)
    have position_le : ba.position ≤ (contents ba).length := by
      rw [inv.length_contents]; exact inv.position_le
    simp only [readFileLoop, run_bind, run_get, ran]
    by_cases short : content.length < ba.baseSize
    · rw [if_pos short]
      rw [List.take_of_length_le (Nat.le_of_lt short)] at wrote
      exact ⟨mid, rfl, wrote⟩
    · rw [if_neg short]
      have positive := inv.positive
      obtain ⟨ba', ran', wrote'⟩ := ih wrote.inv (content.drop ba.baseSize)
        (by rw [List.length_drop]; omega)
      refine ⟨ba', ran', wrote'.inv, ?_, ?_, ?_, ?_⟩
      · rw [wrote'.position_eq, wrote.position_eq, Nat.add_assoc, ← List.length_append,
          List.take_append_drop]
      · rw [wrote'.contents_eq, wrote.contents_eq, wrote.position_eq,
          splice_splice _ _ _ _ position_le, List.take_append_drop]
      · rw [wrote'.baseSize_eq, wrote.baseSize_eq]
      · rw [wrote'.endian_eq, wrote.endian_eq]

/-- A file that can be opened is written at the cursor as a whole. -/
theorem readFromFile_spec {ba : ByteArray} (inv : Inv ba) (content : List UInt8) :
    ∃ ba', readFromFile (some content) ba = .ok true ba' ∧ Wrote ba content ba' := by
  obtain ⟨ba', ran, wrote⟩ := readFileLoop_spec inv _ content (Nat.lt_succ_self _)
  exact ⟨ba', by simp only [readFromFile, run_bind, ran, run_pure], wrote⟩

end ServerFrame.ByteArray
