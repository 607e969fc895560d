import ServerFrame.Lib.Occurrences
import ServerFrame.Socket.Subnet

/-!
# The text of an IPv6 address

`IPv6Address::Insert` writes eight groups, the first run of zero groups as `::`. The text is read
by the rules of RFC 4291, as `inet_pton` does.
-/
namespace ServerFrame.AddressText

open Occurrences Subnet

/-! ## Writing -/

/-- The four hexadecimal digits of a number. -/
def nibbles (v : BitVec 16) : List Nat :=
  [v.toNat / 4096, v.toNat / 256 % 16, v.toNat / 16 % 16, v.toNat % 16]

def hexDigit (n : Nat) : UInt8 := UInt8.ofNat (if n < 10 then 48 + n else 87 + n)

/-- A number after `std::hex`: no zeros in front. -/
def hexText (v : BitVec 16) : List UInt8 :=
  match (nibbles v).dropWhile (· == 0) with
  | [] => [48]
  | digits => digits.map hexDigit

/-- A number after `std::dec`. -/
def decText (n : Nat) : List UInt8 := (Nat.toDigits 10 n).map fun c => UInt8.ofNat c.toNat

/-- `bswap_16`. -/
def bswap16 (v : BitVec 16) : BitVec 16 := v.extractLsb' 0 8 ++ v.extractLsb' 8 8

/-- The array `addr`: two bytes each, the lower one first. -/
def loaded (a : IPv6Address) : List (BitVec 16) :=
  (List.finRange 8).map fun i => a.sin6Addr[2 * i.val + 1] ++ a.sin6Addr[2 * i.val]

/-- The loop over `addr`: what it writes and `used_zeros`. `before` is the element in front, `none`
for the first one. -/
def insertLoop : Option (BitVec 16) → List (BitVec 16) → Bool → List UInt8 × Bool
  | _, [], usedZeros => ([], usedZeros)
  | before, group :: groups, usedZeros =>
    if group = 0 ∧ usedZeros = false then insertLoop (some group) groups usedZeros
    else
      let zeros := before == some 0 && !usedZeros
      let (text, usedZeros) := insertLoop (some group) groups (usedZeros || zeros)
      let colon := if before.isSome then [58] else []
      ((if zeros then [58] else []) ++ (colon ++ (hexText (bswap16 group) ++ text)), usedZeros)

/-- What is written between the brackets. -/
def insertGroups (addr : List (BitVec 16)) : List UInt8 :=
  let (text, usedZeros) := insertLoop none addr false
  if usedZeros = false ∧ addr.getLast? = some 0 then text ++ [58, 58] else text

/-- `Insert`. -/
def insert (a : IPv6Address) : List UInt8 :=
  91 :: (insertGroups (loaded a) ++ 93 :: 58 :: decText (bswap16 a.sin6Port.toBitVec).toNat)

/-- The eight groups of an address. -/
def groups (a : IPv6Address) : List (BitVec 16) :=
  (List.finRange 8).map fun i => a.sin6Addr[2 * i.val] ++ a.sin6Addr[2 * i.val + 1]

example : insertGroups [0x0100, 0, 0, 0, 0, 0, 0, 0] = [49, 58, 58] := by decide

/-! ## Reading -/

def hexValue (c : UInt8) : Option Nat :=
  if 48 ≤ c ∧ c ≤ 57 then some (c.toNat - 48)
  else if 97 ≤ c ∧ c ≤ 102 then some (c.toNat - 87)
  else if 65 ≤ c ∧ c ≤ 70 then some (c.toNat - 55)
  else none

/-- One to four hexadecimal digits. -/
def readGroup (text : List UInt8) : Option (BitVec 16) :=
  if 1 ≤ text.length ∧ text.length ≤ 4 then
    (text.mapM hexValue).map fun digits => BitVec.ofNat 16 (digits.foldl (16 * · + ·) 0)
  else none

/-- One to three decimal digits, at most 255, and no zero in front. -/
def readOctet (text : List UInt8) : Option (BitVec 8) := do
  let digits ← text.mapM fun c => if 48 ≤ c ∧ c ≤ 57 then some (c.toNat - 48) else none
  let value := digits.foldl (10 * · + ·) 0
  if 1 ≤ text.length ∧ text.length ≤ 3 ∧ value ≤ 255 ∧ (text.head? = some 48 → text.length = 1) then
    some (BitVec.ofNat 8 value)
  else none

/-- Four decimal numbers, for the last two groups. -/
def readQuad (text : List UInt8) : Option (List (BitVec 16)) :=
  match text.splitOn 46 with
  | [a, b, c, d] => do
    let a ← readOctet a
    let b ← readOctet b
    let c ← readOctet c
    let d ← readOctet d
    some [a ++ b, c ++ d]
  | _ => none

/-- Groups with colons between them. The last two may be written as decimal numbers, at the end of
an address only. -/
def readPieces (atEnd : Bool) : List (List UInt8) → Option (List (BitVec 16))
  | [] => some []
  | [piece] =>
    match readGroup piece with
    | some group => some [group]
    | none => if atEnd then readQuad piece else none
  | piece :: pieces => do
    let group ← readGroup piece
    let groups ← readPieces atEnd pieces
    some (group :: groups)

/-- The groups on one side of `::`, of which there may be none. -/
def readSide (atEnd : Bool) (text : List UInt8) : Option (List (BitVec 16)) :=
  if text = [] then some [] else readPieces atEnd (text.splitOn 58)

/-- An address. `::` stands for the groups that are missing, at least one. -/
def readAddress (text : List UInt8) : Option (List (BitVec 16)) :=
  match first [58, 58] text with
  | none => do
    let groups ← readPieces true (text.splitOn 58)
    if groups.length = 8 then some groups else none
  | some i => do
    let left ← readSide false (text.take i)
    let right ← readSide true (text.drop (i + 2))
    let given := left.length + right.length
    if given ≤ 7 then some (left ++ List.replicate (8 - given) 0 ++ right) else none

/-- The text stands for these groups: it has one `::` at most, which stands for one or more of them that are
zero, and it is read as them. -/
structure ReadAs (text : List UInt8) (groups : List (BitVec 16)) : Prop where
  once : ∀ i j, OccursAt [58, 58] text i → OccursAt [58, 58] text j → i = j
  zeros : ∀ i, OccursAt [58, 58] text i → ∃ left right n, 1 ≤ n ∧
    readSide false (text.take i) = some left ∧ readSide true (text.drop (i + 2)) = some right ∧
    groups = left ++ List.replicate n 0 ++ right
  read : readAddress text = some groups

/-! ## One group -/

theorem digit_facts {n : Nat} (small : n < 16) :
    hexValue (hexDigit n) = some n ∧ hexDigit n ≠ 58 ∧ hexDigit n ≠ 93 := by
  have all : ∀ n : Fin 16, hexValue (hexDigit n) = some n.val ∧ hexDigit n ≠ 58 ∧ hexDigit n ≠ 93 := by
    decide
  exact all ⟨n, small⟩

/-- Zeros in front do not count. -/
theorem foldl_dropWhile (digits : List Nat) :
    (digits.dropWhile (· == 0)).foldl (16 * · + ·) 0 = digits.foldl (16 * · + ·) 0 := by
  induction digits with
  | nil => rfl
  | cons digit digits ih =>
    rw [List.dropWhile_cons]
    split
    · next zero =>
      rw [beq_iff_eq] at zero
      rw [ih, zero]
      rfl
    · rfl

/-- A group is written with one to four digits, which are those of its number. -/
theorem hexText_digits (v : BitVec 16) : ∃ digits : List Nat, hexText v = digits.map hexDigit ∧
    1 ≤ digits.length ∧ digits.length ≤ 4 ∧ (∀ d ∈ digits, d < 16) ∧
    digits.foldl (16 * · + ·) 0 = v.toNat := by
  have bound := v.isLt
  have small : ∀ d ∈ nibbles v, d < 16 := by
    simp only [nibbles, List.mem_cons, List.not_mem_nil, or_false, forall_eq_or_imp, forall_eq]
    omega
  have value : (nibbles v).foldl (16 * · + ·) 0 = v.toNat := by
    simp only [nibbles, List.foldl_cons, List.foldl_nil]
    omega
  have shorter : ((nibbles v).dropWhile (· == 0)).length ≤ 4 :=
    (List.dropWhile_sublist _).length_le
  have kept := foldl_dropWhile (nibbles v)
  rw [hexText]
  cases digits : (nibbles v).dropWhile (· == 0) with
  | nil =>
    -- all digits are zeros, and one is written
    rw [digits, value] at kept
    exact ⟨[0], rfl, le_rfl, by decide, by decide, kept⟩
  | cons d ds =>
    rw [digits] at kept shorter
    refine ⟨d :: ds, rfl, Nat.le_add_left 1 _, shorter, fun e member => ?_, kept.trans value⟩
    exact small e ((List.dropWhile_sublist _).subset (digits ▸ member))

theorem mapM_hexValue {digits : List Nat} (small : ∀ d ∈ digits, d < 16) :
    (digits.map hexDigit).mapM hexValue = some digits := by
  induction digits with
  | nil => rfl
  | cons d digits ih =>
    rw [List.map_cons, List.mapM_cons, (digit_facts (small d (List.mem_cons_self ..))).1,
      ih fun e member => small e (List.mem_cons_of_mem _ member)]
    rfl

theorem readGroup_hexText (v : BitVec 16) : readGroup (hexText v) = some v := by
  obtain ⟨digits, written, some_, few, small, value⟩ := hexText_digits v
  rw [written, readGroup, List.length_map, if_pos ⟨some_, few⟩, mapM_hexValue small,
    Option.map_some, value, BitVec.ofNat_toNat, BitVec.setWidth_eq]

theorem hexText_ne_nil (v : BitVec 16) : hexText v ≠ [] := by
  obtain ⟨digits, written, some_, -⟩ := hexText_digits v
  rw [written]
  intro empty
  rw [List.map_eq_nil_iff.mp empty] at some_
  exact absurd some_ (by decide)

/-- A group has no colon and no bracket. -/
theorem hexText_plain (v : BitVec 16) : 58 ∉ hexText v ∧ 93 ∉ hexText v := by
  obtain ⟨digits, written, -, -, small, -⟩ := hexText_digits v
  rw [written]
  simp only [List.mem_map, not_exists, not_and]
  exact ⟨fun d member => (digit_facts (small d member)).2.1,
    fun d member => (digit_facts (small d member)).2.2⟩

/-! ## Groups with colons between them -/

/-- Groups as they are written without `::`. -/
def joined (groups : List (BitVec 16)) : List UInt8 := [58].intercalate (groups.map hexText)

section Joined

variable {groups left right : List (BitVec 16)}

theorem pieces_ne_nil (groups : List (BitVec 16)) : ∀ piece ∈ groups.map hexText, piece ≠ [] := by
  simp only [List.mem_map, forall_exists_index, and_imp, forall_apply_eq_imp_iff₂]
  exact fun group _ => hexText_ne_nil group

theorem pieces_plain (groups : List (BitVec 16)) : ∀ piece ∈ groups.map hexText, 58 ∉ piece := by
  simp only [List.mem_map, forall_exists_index, and_imp, forall_apply_eq_imp_iff₂]
  exact fun group _ => (hexText_plain group).1

theorem joined_cons (group : BitVec 16) (groups : List (BitVec 16)) :
    joined (group :: groups) = hexText group ++ groups.flatMap fun g => 58 :: hexText g := by
  induction groups generalizing group with
  | nil => simp [joined]
  | cons next groups ih =>
    have behind := ih next
    rw [joined, List.map_cons] at behind
    rw [joined, List.map_cons, List.map_cons, List.intercalate_cons_cons, behind]
    simp

/-- The closing bracket is behind them. -/
theorem joined_plain (groups : List (BitVec 16)) : 93 ∉ joined groups := by
  cases groups with
  | nil => simp [joined]
  | cons group groups =>
    rw [joined_cons]
    simp [(hexText_plain _).2]

theorem joined_ne_nil (some_ : groups ≠ []) : joined groups ≠ [] := by
  cases groups with
  | nil => exact absurd rfl some_
  | cons group groups =>
    rw [joined_cons]
    exact List.append_ne_nil_of_left_ne_nil (hexText_ne_nil group) _

theorem readPieces_groups (atEnd : Bool) (groups : List (BitVec 16)) :
    readPieces atEnd (groups.map hexText) = some groups := by
  induction groups with
  | nil => rfl
  | cons group groups ih =>
    cases groups with
    | nil => simp only [List.map_cons, List.map_nil, readPieces, readGroup_hexText]
    | cons next groups =>
      rw [List.map_cons] at ih
      rw [List.map_cons, List.map_cons, readPieces, readGroup_hexText, ih]
      · rfl
      · simp

theorem splitOn_joined (some_ : groups ≠ []) : (joined groups).splitOn 58 = groups.map hexText :=
  List.splitOn_intercalate 58 (pieces_plain groups) (by simpa using some_)

theorem readSide_joined (atEnd : Bool) (groups : List (BitVec 16)) :
    readSide atEnd (joined groups) = some groups := by
  by_cases empty : groups = []
  · subst empty
    rfl
  · rw [readSide, if_neg (joined_ne_nil empty), splitOn_joined empty, readPieces_groups]

/-- Eight groups with colons between them. -/
theorem readAs_joined (eight : groups.length = 8) : ReadAs (joined groups) groups := by
  have nowhere : ∀ i, ¬ OccursAt [58, 58] (joined groups) i :=
    not_twice_joined (pieces_ne_nil groups) (pieces_plain groups)
  have some_ : groups ≠ [] := by
    rintro rfl
    cases eight
  refine ⟨fun i _ here => absurd here (nowhere i), fun i here => absurd here (nowhere i), ?_⟩
  rw [readAddress, first_of_absent nowhere]
  simp only [splitOn_joined some_, readPieces_groups, bind, Option.bind_some, eight, if_true]

/-- Groups on both sides of `::`, of which there are less than eight. -/
theorem readAs_zeros {n : Nat} (some_ : 1 ≤ n) (eight : left.length + n + right.length = 8) :
    ReadAs (joined left ++ ([58, 58] ++ joined right)) (left ++ List.replicate n 0 ++ right) := by
  -- no group is empty, so that two colons stand together in the middle only
  have only : ∀ i, OccursAt [58, 58] (joined left ++ ([58, 58] ++ joined right)) i →
      i = (joined left).length := fun i here =>
    twice_between (pieces_ne_nil left) (pieces_plain left) (pieces_ne_nil right)
      (pieces_plain right) here
  have front : (joined left ++ ([58, 58] ++ joined right)).take (joined left).length = joined left :=
    List.take_left
  have behind : (joined left ++ ([58, 58] ++ joined right)).drop ((joined left).length + 2) =
      joined right := by
    rw [← List.drop_drop, List.drop_left]
    rfl
  have found : first [58, 58] (joined left ++ ([58, 58] ++ joined right)) =
      some (joined left).length := by
    apply first_of_before
    intro i less here
    exact absurd (only i here) (Nat.ne_of_lt less)
  refine ⟨fun i j here there => (only i here).trans (only j there).symm, fun i here => ?_, ?_⟩
  · rw [only i here, front, behind]
    exact ⟨left, right, n, some_, readSide_joined false left, readSide_joined true right, rfl⟩
  · have given : left.length + right.length ≤ 7 := by omega
    have missing : 8 - (left.length + right.length) = n := by omega
    rw [readAddress, found]
    simp only [front, behind, readSide_joined, bind, Option.bind_some, if_pos given, missing]

end Joined

/-! ## The loop -/

/-- No zero groups, then a run of them, then a group that is not zero, or no more groups. -/
theorem exists_run (addr : List (BitVec 16)) : ∃ left n right,
    addr = left ++ (List.replicate n 0 ++ right) ∧ (∀ group ∈ left, group ≠ 0) ∧
    right.head? ≠ some 0 ∧ (n = 0 → right = []) := by
  induction addr with
  | nil => exact ⟨[], 0, [], rfl, by simp, by simp, fun _ => rfl⟩
  | cons group addr ih =>
    obtain ⟨left, n, right, rfl, nonzero, head, none_⟩ := ih
    by_cases zero : group = 0
    · cases left with
      | nil =>
        refine ⟨[], n + 1, right, ?_, by simp, head, by simp⟩
        rw [zero, List.replicate_succ]
        rfl
      | cons first left =>
        -- a run of one, in front of what was said of the rest
        refine ⟨[], 1, first :: left ++ (List.replicate n 0 ++ right), ?_, by simp, ?_, by simp⟩
        · rw [zero]
          rfl
        · simpa using nonzero first (List.mem_cons_self ..)
    · exact ⟨group :: left, n, right, rfl, List.forall_mem_cons.mpr ⟨zero, nonzero⟩, head, none_⟩

/-- The text of groups that are written one after another, behind a group. -/
def colonText (addr : List (BitVec 16)) : List UInt8 :=
  (addr.map bswap16).flatMap fun group => 58 :: hexText group

theorem colonText_cons (group : BitVec 16) (addr : List (BitVec 16)) :
    colonText (group :: addr) = 58 :: (hexText (bswap16 group) ++ colonText addr) := by
  simp [colonText]

/-- Once zeros are used, all groups are written. -/
theorem insertLoop_used (before : BitVec 16) (addr : List (BitVec 16)) :
    insertLoop (some before) addr true = (colonText addr, true) := by
  induction addr generalizing before with
  | nil => rfl
  | cons group addr ih =>
    rw [insertLoop, if_neg (by simp), colonText_cons]
    simp [ih]

/-- Zeros are passed over. -/
theorem insertLoop_zeros (before : Option (BitVec 16)) (n : Nat) (right : List (BitVec 16)) :
    insertLoop before (List.replicate (n + 1) 0 ++ right) false = insertLoop (some 0) right false := by
  induction n generalizing before with
  | zero => rw [List.replicate_one, List.singleton_append, insertLoop, if_pos ⟨rfl, rfl⟩]
  | succ n ih =>
    rw [List.replicate_succ, List.cons_append, insertLoop, if_pos ⟨rfl, rfl⟩]
    exact ih (some 0)

/-- The group behind them is written with two colons in front. -/
theorem insertLoop_behind {group : BitVec 16} (nonzero : group ≠ 0) (addr : List (BitVec 16)) :
    insertLoop (some 0) (group :: addr) false =
      ([58, 58] ++ joined ((group :: addr).map bswap16), true) := by
  rw [insertLoop, if_neg (fun zero => nonzero zero.1), List.map_cons, joined_cons]
  simp [insertLoop_used, colonText]

/-- Groups that are not zero are written, behind one that is not. -/
theorem insertLoop_nonzero {before : BitVec 16} (first : before ≠ 0) {left : List (BitVec 16)}
    (nonzero : ∀ group ∈ left, group ≠ 0) (rest : List (BitVec 16)) :
    ∃ last, insertLoop (some before) (left ++ rest) false =
      (colonText left ++ (insertLoop (some last) rest false).1,
        (insertLoop (some last) rest false).2) := by
  induction left generalizing before with
  | nil => exact ⟨before, rfl⟩
  | cons group left ih =>
    have nonzero_ := nonzero group (List.mem_cons_self ..)
    obtain ⟨last, ran⟩ := ih nonzero_ fun g member => nonzero g (List.mem_cons_of_mem _ member)
    refine ⟨last, ?_⟩
    have other : (before == 0#16) = false := beq_eq_false_iff_ne.mpr first
    rw [List.cons_append, insertLoop, if_neg (fun zero => nonzero_ zero.1), colonText_cons]
    simp [other, ran]

/-- The groups in front of the first zero are written with colons between them. -/
theorem insertLoop_front {left : List (BitVec 16)} (nonzero : ∀ group ∈ left, group ≠ 0)
    (rest : List (BitVec 16)) :
    ∃ before, insertLoop none (left ++ rest) false =
      (joined (left.map bswap16) ++ (insertLoop before rest false).1,
        (insertLoop before rest false).2) := by
  cases left with
  | nil => exact ⟨none, rfl⟩
  | cons group left =>
    have first := nonzero group (List.mem_cons_self ..)
    obtain ⟨last, ran⟩ := insertLoop_nonzero first
      (fun g member => nonzero g (List.mem_cons_of_mem _ member)) rest
    refine ⟨some last, ?_⟩
    rw [List.cons_append, insertLoop, if_neg (fun zero => first zero.1), List.map_cons, joined_cons]
    simp [ran, colonText]

/-- What is written for groups that are not zero, a run of zeros and the rest. -/
theorem insertGroups_eq {left right : List (BitVec 16)} {n : Nat}
    (nonzero : ∀ group ∈ left, group ≠ 0) (head : right.head? ≠ some 0) :
    insertGroups (left ++ (List.replicate (n + 1) 0 ++ right)) =
      joined (left.map bswap16) ++ ([58, 58] ++ joined (right.map bswap16)) := by
  obtain ⟨before, ran⟩ := insertLoop_front nonzero (List.replicate (n + 1) 0 ++ right)
  rw [insertGroups, ran, insertLoop_zeros]
  cases right with
  | nil =>
    -- the run is at the end
    have last : (left ++ List.replicate (n + 1) 0#16).getLast? = some 0#16 := by
      rw [List.replicate_succ', ← List.append_assoc, List.getLast?_concat]
    simp [insertLoop, last, joined]
  | cons group right =>
    have other : group ≠ 0 := by simpa using head
    rw [insertLoop_behind other]
    simp

/-- Without a zero nothing is left out. -/
theorem insertGroups_nonzero {left : List (BitVec 16)} (nonzero : ∀ group ∈ left, group ≠ 0) :
    insertGroups left = joined (left.map bswap16) := by
  obtain ⟨before, ran⟩ := insertLoop_front nonzero []
  have last : left.getLast? ≠ some 0#16 := fun zero =>
    nonzero 0 (List.mem_of_getLast? zero) rfl
  rw [List.append_nil] at ran
  rw [insertGroups, ran]
  simp [insertLoop, last]

theorem bswap16_append (x y : BitVec 8) : bswap16 (x ++ y) = y ++ x := by
  have low : (x ++ y).extractLsb' 0 8 = y := BitVec.extractLsb'_append_eq_right
  have high : (x ++ y).extractLsb' 8 8 = x := BitVec.extractLsb'_append_eq_left
  exact congrArg₂ (fun u v : BitVec 8 => u ++ v) low high

theorem groups_eq (a : IPv6Address) : groups a = (loaded a).map bswap16 := by
  rw [groups, loaded, List.map_map]
  apply List.map_congr_left
  intro i _
  exact (bswap16_append _ _).symm

/-- For eight elements the text stands for them, with their bytes swapped. -/
theorem insertGroups_readAs {addr : List (BitVec 16)} (eight : addr.length = 8) :
    93 ∉ insertGroups addr ∧ ReadAs (insertGroups addr) (addr.map bswap16) := by
  obtain ⟨left, n, right, rfl, nonzero, head, none_⟩ := exists_run addr
  cases n with
  | zero =>
    -- no group is zero
    rw [none_ rfl, List.replicate_zero, List.append_nil, List.append_nil] at eight ⊢
    rw [insertGroups_nonzero nonzero]
    exact ⟨joined_plain _, readAs_joined (by simpa using eight)⟩
  | succ n =>
    have zero : bswap16 0 = 0 := rfl
    have count : (left.map bswap16).length + (n + 1) + (right.map bswap16).length = 8 := by
      simpa [Nat.add_assoc] using eight
    have readAs := readAs_zeros (Nat.le_add_left 1 n) count
    rw [List.append_assoc] at readAs
    rw [insertGroups_eq nonzero head, List.map_append, List.map_append, List.map_replicate, zero]
    refine ⟨?_, readAs⟩
    simp [joined_plain]

/-- The text between the brackets stands for the eight groups of the address. -/
theorem insert_between_brackets (a : IPv6Address) : ∃ text,
    insert a = 91 :: (text ++ 93 :: 58 :: decText (bswap16 a.sin6Port.toBitVec).toNat) ∧
      93 ∉ text ∧ ReadAs text (groups a) := by
  have eight : (loaded a).length = 8 := by simp [loaded]
  obtain ⟨plain, readAs⟩ := insertGroups_readAs eight
  exact ⟨insertGroups (loaded a), rfl, plain, groups_eq a ▸ readAs⟩

end ServerFrame.AddressText
