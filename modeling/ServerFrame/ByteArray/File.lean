import ServerFrame.ByteArray.Scatter

/-!
# `WriteToFile` and `ReadFromFile`

The loop that saves computes for every block an offset and a length. The two are those of
the block only when the first piece ends with its block.
-/
namespace ServerFrame.ByteArray

open Splice EState

/-- How `WriteToFile` leaves defined behaviour: a null `Node*` is followed, `write` is called
with a pointer before the block, or with a count below zero. -/
inductive SaveFault where
  | nullNode
  | outsideBlock
  | negativeCount
  deriving DecidableEq, Repr

/-- The loop of `WriteToFile` over the nodes from `cur` on. -/
def saveLoop (baseSize : Nat) : List Node → Nat → Nat → Except SaveFault (List UInt8)
  | [], readSize, _ => if readSize > 0 then .error .nullNode else .ok []
  | node :: rest, readSize, pos =>
    if readSize > 0 then
      -- `diff` is an `int`
      let diff := Int.bmod (pos % baseSize : Nat) (2 ^ 32)
      let len := ((if readSize > baseSize then baseSize else readSize : Nat) : Int) - diff
      if diff < 0 then .error .outsideBlock
      else if len < 0 then .error .negativeCount
      else
        match saveLoop baseSize rest (readSize - len.toNat) (pos + len.toNat) with
        | .error e => .error e
        | .ok bytes => .ok (node.load diff.toNat len.toNat ++ bytes)
    else .ok []

/-- `WriteToFile`: what the file holds; `none` when it cannot be opened. -/
def writeToFile (opened : Bool) (ba : ByteArray) : Except SaveFault (Option (List UInt8)) :=
  if opened then
    let nodes := match ba.cur with
      | none => []
      | some i => ba.nodes.drop i
    (saveLoop ba.baseSize nodes ba.getReadSize ba.position).map some
  else .ok none

/-! ## The loop -/

section Loop

variable {b : Nat}

theorem saveLoop_zero (nodes : List Node) (pos : Nat) : saveLoop b nodes 0 pos = .ok [] := by
  cases nodes <;> rfl

/-- One round at an offset that an `int` holds. -/
theorem saveLoop_cons {node : Node} {rest : List Node} {readSize pos : Nat} (some_ : 0 < readSize)
    (small : pos % b < 2 ^ 31) :
    saveLoop b (node :: rest) readSize pos =
      if min readSize b < pos % b then .error .negativeCount
      else match saveLoop b rest (readSize - (min readSize b - pos % b))
          (pos + (min readSize b - pos % b)) with
        | .error e => .error e
        | .ok bytes => .ok (node.load (pos % b) (min readSize b - pos % b) ++ bytes) := by
  have same : Int.bmod (pos % b : Nat) (2 ^ 32) = (pos % b : Nat) :=
    Int.bmod_eq_of_le (by omega) (by omega)
  have least : (if readSize > b then b else readSize) = min readSize b := by
    split <;> omega
  have not_below : ¬ ((pos % b : Nat) : Int) < 0 := by omega
  simp only [saveLoop, if_pos some_, same, least, if_neg not_below, Int.toNat_natCast]
  by_cases short : min readSize b < pos % b
  · rw [if_pos short, if_pos (by omega)]
  · have count : (((min readSize b : Nat) : Int) - (pos % b : Nat)).toNat =
        min readSize b - pos % b := by omega
    rw [if_neg short, if_neg (by omega), count]

/-- From the start of a block on. -/
theorem saveLoop_aligned (positive : 1 ≤ b) (nodes : List Node) (uniform : Uniform b nodes)
    (readSize pos : Nat) (aligned : pos % b = 0) (fits : readSize ≤ b * nodes.length) :
    saveLoop b nodes readSize pos = .ok ((flat nodes).take readSize) := by
  induction nodes generalizing readSize pos with
  | nil =>
    simp only [List.length_nil, Nat.mul_zero] at fits
    obtain rfl : readSize = 0 := by omega
    rfl
  | cons node rest ih =>
    by_cases empty : readSize = 0
    · rw [empty, saveLoop_zero, List.take_zero]
    have size : node.bytes.length = b := uniform node (List.mem_cons_self ..)
    simp only [List.length_cons, Nat.mul_succ] at fits
    rw [saveLoop_cons (Nat.pos_of_ne_zero empty) (by omega), aligned, if_neg (by omega), Nat.sub_zero,
      flat_cons]
    by_cases last : readSize ≤ b
    · -- the last piece
      rw [Nat.min_eq_left last, Nat.sub_self, saveLoop_zero]
      dsimp only
      rw [List.append_nil, Node.load, List.drop_zero, List.take_append_of_le_length (by omega)]
    · have next := ih uniform.tail (readSize - b) (pos + b) (by rw [Nat.add_mod_right, aligned])
        (by omega)
      have whole : readSize = node.bytes.length + (readSize - b) := by omega
      rw [Nat.min_eq_right (by omega), next]
      dsimp only
      rw [Node.load, List.drop_zero, List.take_of_length_le (by omega), whole,
        List.take_length_add_append, ← whole]

/-- A first piece that goes to the end of its block. -/
theorem saveLoop_to_end (positive : 1 ≤ b) (nodes : List Node) (uniform : Uniform b nodes)
    (readSize pos : Nat) (small : pos % b < 2 ^ 31) (enough : b ≤ readSize)
    (fits : pos % b + readSize ≤ b * nodes.length) :
    saveLoop b nodes readSize pos = .ok (((flat nodes).drop (pos % b)).take readSize) := by
  have inside := Nat.mod_lt pos positive
  cases nodes with
  | nil =>
    simp only [List.length_nil, Nat.mul_zero] at fits
    omega
  | cons node rest =>
    have size : node.bytes.length = b := uniform node (List.mem_cons_self ..)
    simp only [List.length_cons, Nat.mul_succ] at fits
    have whole := Nat.div_add_mod pos b
    have at_start : (pos + (b - pos % b)) % b = 0 := by
      have next : pos + (b - pos % b) = b * (pos / b + 1) := by
        rw [Nat.mul_succ]
        omega
      rw [next, Nat.mul_mod_right]
    have behind := saveLoop_aligned positive rest uniform.tail (readSize - (b - pos % b))
      (pos + (b - pos % b)) at_start (by omega)
    have left : (node.bytes.drop (pos % b)).length = b - pos % b := by rw [List.length_drop, size]
    have split : readSize = (node.bytes.drop (pos % b)).length + (readSize - (b - pos % b)) := by omega
    rw [saveLoop_cons (by omega) small, Nat.min_eq_right enough, if_neg (by omega), behind, flat_cons,
      List.drop_append_of_le_length (by omega)]
    dsimp only
    rw [Node.load, List.take_of_length_le (Nat.le_of_eq left), split, List.take_length_add_append,
      ← split]

/-- A first piece inside of its block is followed by one that cannot be written. -/
theorem saveLoop_fails (small : b ≤ 2 ^ 31) (nodes : List Node) (readSize pos : Nat)
    (offset : 0 < pos % b) (some_ : 0 < readSize) (short : readSize < b) :
    ∃ fault, saveLoop b nodes readSize pos = .error fault := by
  have inside := Nat.mod_lt pos (show 0 < b by omega)
  induction nodes with
  | nil => exact ⟨.nullNode, by rw [saveLoop, if_pos some_]⟩
  | cons node rest ih =>
    rw [saveLoop_cons some_ (by omega), Nat.min_eq_left (Nat.le_of_lt short)]
    rcases Nat.lt_trichotomy readSize (pos % b) with below | same | above
    · exact ⟨.negativeCount, by rw [if_pos below]⟩
    · -- nothing is written and nothing changes, up to the end of the chain
      obtain ⟨fault, failed⟩ := ih
      exact ⟨fault, by rw [if_neg (by omega), same, Nat.sub_self, Nat.add_zero, Nat.sub_zero, ← same,
        failed]⟩
    · have offset' : (pos + (readSize - pos % b)) % b = readSize := by
        have split : pos + (readSize - pos % b) = b * (pos / b) + readSize := by
          have := Nat.div_add_mod pos b
          omega
        rw [split, Nat.mul_add_mod, Nat.mod_eq_of_lt short]
      have left : readSize - (readSize - pos % b) = pos % b := by omega
      rw [if_neg (by omega), left]
      cases rest with
      | nil => exact ⟨.nullNode, by rw [saveLoop, if_pos offset]⟩
      | cons next rest =>
        refine ⟨.negativeCount, ?_⟩
        rw [saveLoop_cons offset (by omega), offset', if_pos (by omega)]

end Loop

/-! ## Save and load -/

/-- The file holds what lies between the cursor and the end, and loading it writes that at the
cursor of any array. -/
def SavesAndLoads (ba : ByteArray) : Prop :=
  writeToFile true ba = .ok (some ((contents ba).drop ba.position)) ∧
  ∀ target, Reachable target →
    ∃ target', readFromFile (some ((contents ba).drop ba.position)) target = .ok true target' ∧
      contents target' =
        splice (contents target) target.position ((contents ba).drop ba.position) ∧
      target'.position = target.position + ((contents ba).drop ba.position).length

/-- The first piece that is saved starts with its block, or goes to the end of it and starts
at an offset that an `int` holds; or there is none. -/
def WholePieces (ba : ByteArray) : Prop :=
  ba.getReadSize = 0 ∨ ba.position % ba.baseSize = 0 ∨
    ba.position % ba.baseSize < 2 ^ 31 ∧ ba.baseSize ≤ ba.getReadSize

section Save

variable {ba : ByteArray}

theorem writeToFile_eq (inv : Inv ba) (whole : WholePieces ba) :
    writeToFile true ba = .ok (some ((contents ba).drop ba.position)) := by
  have position_le := inv.position_le
  have size_le := inv.size_le
  by_cases empty : ba.getReadSize = 0
  · have nothing : (contents ba).drop ba.position = [] := by
      apply List.drop_eq_nil_of_le
      rw [inv.length_contents]
      simp only [getReadSize] at empty
      omega
    rw [writeToFile, if_pos rfl, empty, nothing]
    dsimp only
    rw [saveLoop_zero]
    rfl
  · have ahead : ba.position < ba.size := by
      simp only [getReadSize] at empty
      omega
    have cur : ba.cur = some (ba.position / ba.baseSize) := by
      rw [inv.cur_eq, if_neg (by omega)]
    obtain ⟨-, -, uniform, behind⟩ := cursor_split inv
    have below := Nat.mod_le ba.position ba.baseSize
    have fits : ba.position % ba.baseSize + ba.getReadSize ≤
        ba.baseSize * (ba.nodes.drop (ba.position / ba.baseSize)).length := by
      simp only [getReadSize]
      omega
    have bytes : ((flat (ba.nodes.drop (ba.position / ba.baseSize))).drop
        (ba.position % ba.baseSize)).take ba.getReadSize = (contents ba).drop ba.position := by
      rw [drop_cursor inv, contents, List.drop_take, getReadSize]
    have saved : saveLoop ba.baseSize (ba.nodes.drop (ba.position / ba.baseSize)) ba.getReadSize
        ba.position = .ok ((contents ba).drop ba.position) := by
      -- the three ways in which the loop's offsets are those of the blocks
      rcases whole with none_left | aligned | ⟨small, enough⟩
      · exact absurd none_left empty
      · rw [saveLoop_aligned inv.positive _ uniform _ _ aligned (by omega), ← bytes, aligned,
          List.drop_zero]
      · rw [saveLoop_to_end inv.positive _ uniform _ _ small enough fits, bytes]
    rw [writeToFile, if_pos rfl, cur]
    dsimp only
    rw [saved]
    rfl

theorem writeToFile_fails (small : ba.baseSize ≤ 2 ^ 31) (inv : Inv ba) (broken : ¬ WholePieces ba) :
    ∃ fault, writeToFile true ba = .error fault := by
  simp only [WholePieces, not_or, not_and, Nat.not_le] at broken
  obtain ⟨some_, offset, short⟩ := broken
  have inside := Nat.mod_lt ba.position inv.positive
  have less := short (by omega)
  obtain ⟨fault, failed⟩ := saveLoop_fails small (match ba.cur with
    | none => []
    | some i => ba.nodes.drop i) ba.getReadSize ba.position (Nat.pos_of_ne_zero offset)
    (Nat.pos_of_ne_zero some_) less
  refine ⟨fault, ?_⟩
  rw [writeToFile, if_pos rfl]
  dsimp only
  rw [failed]
  rfl

end Save

/-- **Save and load**: an array whose first piece is whole is saved and loaded as it is; where
an `int` holds every offset in a block, no other array is. -/
theorem savesAndLoads_iff {ba : ByteArray} (reachable : Reachable ba) :
    (WholePieces ba → SavesAndLoads ba) ∧
      (ba.baseSize ≤ 2 ^ 31 → SavesAndLoads ba → WholePieces ba) := by
  have inv := reachable.inv
  constructor
  · intro whole
    refine ⟨writeToFile_eq inv whole, fun target is_reachable => ?_⟩
    obtain ⟨target', ran, wrote⟩ :=
      readFromFile_spec is_reachable.inv ((contents ba).drop ba.position)
    exact ⟨target', ran, wrote.contents_eq, wrote.position_eq⟩
  · rintro small ⟨saved, -⟩
    by_contra broken
    obtain ⟨fault, failed⟩ := writeToFile_fails small inv broken
    rw [failed] at saved
    cases saved

/-- From the middle of a block, with more than a block left. -/
theorem savesAndLoads_iff_middle :
    ∃ ba, Run.run act (new 2 fun _ => 0) [.call (.write [1, 2, 3, 4]), .call (.setPosition 1)] =
        some ba ∧
      SavesAndLoads ba := by
  have reachable : Reachable ⟨2, 1, 4, 4, [⟨[1, 2]⟩, ⟨[3, 4]⟩], some 0, .big, fun _ => 0, 4⟩ :=
    ⟨2, fun _ => 0, [.call (.write [1, 2, 3, 4]), .call (.setPosition 1)], by decide, rfl⟩
  exact ⟨_, rfl, (savesAndLoads_iff reachable).1 (.inr (.inr (by decide)))⟩

/-- From the middle of a block, with less than a block left: the count of the first piece is
below zero. -/
theorem savesAndLoads_short :
    ∃ ba, Reachable ba ∧ (contents ba).drop ba.position = [3] ∧
      writeToFile true ba = .error .negativeCount ∧ ¬ SavesAndLoads ba := by
  refine ⟨⟨4, 2, 4, 3, [⟨[1, 2, 3, 0]⟩], some 0, .big, fun _ => 0, 4⟩,
    ⟨4, fun _ => 0, [.call (.write [1, 2, 3]), .call (.setPosition 2)], by decide, rfl⟩, rfl, rfl, ?_⟩
  rintro ⟨saved, -⟩
  cases saved

end ServerFrame.ByteArray
