import ServerFrame.ByteArray.Partial

/-!
# Reads of size zero

`Read` looks at the node of the cursor before its loop, so a read of nothing follows a null
pointer when the cursor is behind the last block. Among strings this meets only the last
one, when it is empty and the data ends with a block.
-/
namespace ServerFrame.ByteArray

open Splice EState

/-- `Read` of `n` bytes returns when they are there and throws `std::out_of_range` otherwise. -/
def ReadsRight (ba : ByteArray) (n : Nat) : Prop :=
  (n ≤ ba.getReadSize → ∃ ba', read n ba = .ok ((unread ba).take n) ba') ∧
  (ba.getReadSize < n → read n ba = .error (.outOfRange "not enough len") ba)

theorem readsRight_iff {ba : ByteArray} (inv : Inv ba) (n : Nat) :
    ReadsRight ba n ↔ ¬ (n = 0 ∧ ba.position = ba.capacity) := by
  constructor
  · rintro ⟨returns, -⟩ ⟨rfl, full⟩
    obtain ⟨ba', ran⟩ := returns (Nat.zero_le _)
    rw [read_zero_full inv full] at ran
    cases ran
  · intro inside
    refine ⟨fun enough => ?_, fun short => read_short short⟩
    by_cases empty : n = 0
    · rcases read_zero inv with ran | ⟨-, full⟩
      · exact ⟨ba, by rw [empty, ran, List.take_zero]⟩
      · exact absurd ⟨empty, full⟩ inside
    · exact ⟨_, (read_advance inv n (Nat.pos_of_ne_zero empty) enough).1⟩

/-! ## Where writes end -/

/-- The capacity that `n` bytes take in blocks of `b`. -/
def inBlocks (b n : Nat) : Nat := (n + b - 1) / b * b

section Blocks

variable {b m n : Nat}

theorem inBlocks_mono (le : m ≤ n) : inBlocks b m ≤ inBlocks b n :=
  Nat.mul_le_mul_right b (Nat.div_le_div_right (by omega))

theorem le_inBlocks (positive : 1 ≤ b) (n : Nat) : n ≤ inBlocks b n := by
  have whole := Nat.div_add_mod' (n + b - 1) b
  have rest := Nat.mod_lt (n + b - 1) positive
  rw [inBlocks]
  omega

theorem inBlocks_mul (positive : 1 ≤ b) (k n : Nat) : inBlocks b (b * k + n) = b * k + inBlocks b n := by
  have split : b * k + n + b - 1 = n + b - 1 + b * k := by omega
  rw [inBlocks, inBlocks, split, Nat.add_mul_div_left _ _ positive, Nat.add_mul, Nat.mul_comm k,
    Nat.add_comm]

theorem inBlocks_eq_iff (positive : 1 ≤ b) : inBlocks b n = n ↔ b ∣ n := by
  constructor
  · intro same
    rw [← same]
    exact Nat.dvd_mul_left b _
  · rintro ⟨k, rfl⟩
    have none_more : inBlocks b 0 = 0 := by
      rw [inBlocks, Nat.zero_add, Nat.div_eq_of_lt (by omega), Nat.zero_mul]
    have same := inBlocks_mul positive k 0
    rwa [none_more, Nat.add_zero] at same

end Blocks

theorem addCapacity_capacity {ba : ByteArray} (inv : Inv ba) (n : Nat) :
    (addCapacity n ba).capacity = max ba.capacity (inBlocks ba.baseSize (ba.position + n)) := by
  have position_le := inv.position_le
  have size_le := inv.size_le
  have in_chain : inBlocks ba.baseSize ba.capacity = ba.capacity := by
    rw [inBlocks_eq_iff inv.positive, inv.capacity_eq]
    exact Nat.dvd_mul_right _ _
  by_cases room : n ≤ ba.getCapacity
  · have kept : (addCapacity n ba).capacity = ba.capacity := by
      unfold addCapacity
      dsimp only
      split
      · rfl
      · rfl
    have fits : inBlocks ba.baseSize (ba.position + n) ≤ ba.capacity := by
      rw [← in_chain]
      apply inBlocks_mono
      simp only [getCapacity] at room
      omega
    rw [kept, Nat.max_eq_left fits]
  · have some_ : ¬ n = 0 := by omega
    have grown : (addCapacity n ba).capacity = ba.capacity +
        inBlocks ba.baseSize (n - ba.getCapacity) := by
      unfold addCapacity
      dsimp only
      rw [if_neg some_, if_neg room]
      rfl
    have missing : ba.position + n = ba.baseSize * ba.nodes.length + (n - ba.getCapacity) := by
      rw [← inv.capacity_eq]
      simp only [getCapacity] at room ⊢
      omega
    rw [grown, missing, inBlocks_mul inv.positive, ← inv.capacity_eq, Nat.max_eq_right (Nat.le_add_right _ _)]

/-- A write of `image`, and the capacity it leaves. -/
structure Stored (ba : ByteArray) (image : List UInt8) (ba' : ByteArray) : Prop where
  wrote : Wrote ba image ba'
  capacity_eq : ba'.capacity =
    max ba.capacity (inBlocks ba.baseSize (ba.position + image.length))

section Write

variable {ba : ByteArray}

theorem write_stored (inv : Inv ba) (buf : List UInt8) :
    ∃ ba', write buf ba = .ok () ba' ∧ Stored ba buf ba' := by
  obtain ⟨ba', ran, wrote, -, capacity_eq⟩ := write_grown inv buf
  exact ⟨ba', ran, wrote, by rw [capacity_eq, addCapacity_capacity inv]⟩

theorem Stored.trans {mid ba' : ByteArray} {front back : List UInt8} (inv : Inv ba)
    (first : Stored ba front mid) (second : Stored mid back ba') : Stored ba (front ++ back) ba' := by
  have position_le : ba.position ≤ (contents ba).length := by
    rw [inv.length_contents]
    exact inv.position_le
  have mid_position := first.wrote.position_eq
  refine ⟨⟨second.wrote.inv, ?_, ?_, second.wrote.baseSize_eq.trans first.wrote.baseSize_eq,
    second.wrote.endian_eq.trans first.wrote.endian_eq⟩, ?_⟩
  · rw [second.wrote.position_eq, mid_position, List.length_append, Nat.add_assoc]
  · rw [second.wrote.contents_eq, first.wrote.contents_eq, mid_position,
      splice_splice _ _ _ _ position_le]
  · have grows : inBlocks ba.baseSize (ba.position + front.length) ≤
        inBlocks ba.baseSize (ba.position + (front ++ back).length) := by
      apply inBlocks_mono
      rw [List.length_append]
      omega
    rw [second.capacity_eq, first.capacity_eq, first.wrote.baseSize_eq, mid_position, Nat.add_assoc,
      ← List.length_append, Nat.max_assoc, Nat.max_eq_right grows]

/-- `back` is at `ba`'s cursor again, behind which `image` has been written. -/
structure Rewound (ba : ByteArray) (image : List UInt8) (back : ByteArray) : Prop where
  inv : Inv back
  position_eq : back.position = ba.position
  endian_eq : back.endian = ba.endian
  ahead : unread back = image ++ (contents ba).drop (ba.position + image.length)
  capacity_eq : back.capacity =
    max ba.capacity (inBlocks ba.baseSize (ba.position + image.length))

theorem Stored.rewind {full : ByteArray} {image : List UInt8} (inv : Inv ba)
    (stored : Stored ba image full) :
    ∃ back, setPosition ba.position full = .ok () back ∧ Rewound ba image back := by
  have position_le : ba.position ≤ (contents ba).length := by
    rw [inv.length_contents]
    exact inv.position_le
  have size_full := stored.wrote.inv.length_contents
  rw [stored.wrote.contents_eq, length_splice _ _ _ position_le] at size_full
  have start_le : ba.position ≤ full.size := by omega
  obtain ⟨back, ran, sought⟩ := setPosition_spec stored.wrote.inv ba.position
    (Nat.le_trans start_le stored.wrote.inv.size_le)
  have contents_eq : contents back = splice (contents ba) ba.position image := by
    rw [contents, sought.nodes_eq, sought.size_eq, Nat.max_eq_left start_le, ← stored.wrote.contents_eq,
      contents]
  have front : ((contents ba).take ba.position).length = ba.position := by
    rw [List.length_take, Nat.min_eq_left position_le]
  refine ⟨back, ran, sought.inv, sought.position_eq, sought.endian_eq.trans stored.wrote.endian_eq,
    ?_, ?_⟩
  · rw [unread, contents_eq, sought.position_eq, splice, List.append_assoc, List.drop_left' front]
  · rw [sought.inv.capacity_eq, sought.nodes_eq, sought.baseSize_eq, ← stored.wrote.inv.capacity_eq,
      stored.capacity_eq]

end Write

/-! ## Strings behind their length -/

namespace Item

/-- The string of a string item. -/
def text : Item → List UInt8
  | .stringF16 s | .stringF32 s | .stringF64 s | .stringVint s => s
  | _ => []

/-- The string is not longer than its length prefix can say, and than a string can be. -/
def FitsPrefix : Item → Prop
  | .stringF16 s => s.length < 65536
  | .stringF32 s => s.length < 2 ^ 32
  | .stringF64 s | .stringVint s => s.length ≤ maxStringSize
  | _ => True

/-- The bytes of the length, in the byte order `e`. -/
def lengthImage (e : Endian) : Item → List UInt8
  | .stringF16 s => fixedImage e 2 (UInt16.ofNat s.length).toNat
  | .stringF32 s => fixedImage e 4 (UInt32.ofNat s.length).toNat
  | .stringF64 s => fixedImage e 8 (UInt64.ofNat s.length).toNat
  | .stringVint s => (varintBytes 10 (UInt64.ofNat s.length).toNat).getD []
  | _ => []
where
  fixedImage (e : Endian) (n v : Nat) : List UInt8 :=
    toMemory n (if e ≠ byteOrder then byteswap n v else v)

/-- The bytes of a string item. -/
def image (e : Endian) (item : Item) : List UInt8 := item.lengthImage e ++ item.text

end Item

def images (e : Endian) (items : List Item) : List UInt8 := items.flatMap (Item.image e)

section Number

variable {α : Type} {ba : ByteArray} {r : ByteArrayM α} {a : α}

/-- The unread bytes of any array stand behind its cursor. -/
theorem at_unread (inv : Inv ba) : At ba ba.endian ((contents ba).take ba.position) (unread ba) := by
  have position_le := inv.position_le
  have whole : (contents ba).take ba.position ++ unread ba = contents ba := List.take_append_drop ..
  refine ⟨⟨inv, whole.symm, ?_⟩, rfl⟩
  dsimp only
  rw [List.length_take, inv.length_contents, Nat.min_eq_left position_le]

/-- A codec whose writer is a write of `image` reads `image`. -/
theorem Codec.reads_image {e : Endian} {w : ByteArrayM Unit} {image : List UInt8}
    (codec : Codec e w r a) (writes : ∀ ba, ba.endian = e → w ba = write image ba) {pre post : List UInt8}
    (at_ : At ba e pre (image ++ post)) : ∃ ba', r ba = .ok a ba' ∧ At ba' e (pre ++ image) post := by
  obtain ⟨image', writes', reads⟩ := codec
  -- on an empty array the two images are seen to be one
  have fresh : At { new 1 fun _ => 0 with endian := e } e [] [] := by
    have rep := Represents.new (show 1 ≤ 1 by decide) fun _ => 0
    exact ⟨⟨⟨rep.inv.positive, rep.inv.position_le, rep.inv.size_le, rep.inv.capacity_eq,
      rep.inv.uniform, rep.inv.root, rep.inv.cur_eq⟩, rep.bytes_eq, rep.pos_eq⟩, rfl⟩
  obtain ⟨ba₁, ran₁, at₁⟩ := writes' _ _ fresh
  obtain ⟨ba₂, ran₂, at₂⟩ := write_at fresh image
  rw [writes _ rfl, ran₂] at ran₁
  cases ran₁
  have same : image = image' := by
    have contents_eq := at₁.rep.bytes_eq
    rw [at₂.rep.bytes_eq] at contents_eq
    simpa using contents_eq
  subst same
  exact reads ba pre post at_

/-- A number that stands before the other unread bytes is read. -/
theorem read_number {w : ByteArrayM Unit} {image post : List UInt8} {first span : Nat} {v : α} (inv : Inv ba)
    (outcome : Outcome r ba first span v) (codec : Codec ba.endian w r a)
    (writes : ∀ other, other.endian = ba.endian → w other = write image other)
    (ahead : unread ba = image ++ post) : r ba = .ok a (ba.advance image.length) := by
  have at_ := at_unread inv
  rw [ahead] at at_
  obtain ⟨ba', ran, at'⟩ := codec.reads_image writes at_
  obtain ⟨-, rfl, -⟩ := outcome.of_ok ran
  have position_eq : ba.position + span = ((contents ba).take ba.position ++ image).length :=
    at'.rep.pos_eq
  have start : ((contents ba).take ba.position).length = ba.position := by
    rw [List.length_take, inv.length_contents, Nat.min_eq_left inv.position_le]
  rw [List.length_append, start, Nat.add_left_cancel_iff] at position_eq
  rw [ran, position_eq]

/-- A string behind its length, at the front of the unread bytes. -/
theorem read_string {len : α → Nat} {make : List UInt8 → Item} {image text post : List UInt8}
    (inv : Inv ba) (number : r ba = .ok a (ba.advance image.length)) (length_eq : len a = text.length)
    (small : text.length ≤ maxStringSize) (ahead : unread ba = image ++ text ++ post) :
    (text = [] ∧ ba.position + (image ++ text).length = ba.capacity →
      ∃ ba', ((r >>= fun a => readString (len a)) >>= fun s => pure (make s)) ba =
        .error .nullNode ba') ∧
    (¬ (text = [] ∧ ba.position + (image ++ text).length = ba.capacity) →
      ((r >>= fun a => readString (len a)) >>= fun s => pure (make s)) ba =
        .ok (make text) (ba.advance (image ++ text).length)) := by
  have enough : image.length ≤ (unread ba).length := by
    rw [ahead, List.length_append, List.length_append]
    omega
  have inv' := inv_advance inv enough
  have left : unread (ba.advance image.length) = text ++ post := by
    rw [unread_advance, ahead, List.append_assoc, List.drop_left]
  have position_eq : (ba.advance image.length).position = ba.position + image.length := rfl
  have capacity_eq : (ba.advance image.length).capacity = ba.capacity := rfl
  rw [run_bind, run_bind_ok number, length_eq]
  by_cases empty : text = []
  · subst empty
    simp only [List.append_nil, List.length_nil, true_and]
    rcases readString_empty_cases inv' with ⟨ran, inside⟩ | ⟨failed, full⟩
    · rw [ran]
      exact ⟨fun full => absurd full inside, fun _ => rfl⟩
    · rw [failed]
      exact ⟨fun _ => ⟨_, rfl⟩, fun inside => absurd full inside⟩
  · have some_ : 0 < text.length := List.length_pos_iff.mpr empty
    have ran := (readString_spec inv' some_ small).whole (by rw [left, List.length_append]; omega)
    rw [left, List.take_left, advance_advance, ← List.length_append] at ran
    rw [ran]
    exact ⟨fun none_ => absurd none_.1 empty, fun _ => rfl⟩

end Number

section Items

variable {ba : ByteArray} {item : Item} {items : List Item}

theorem varint_image (v : UInt64) : writeUint64 v ba = write ((varintBytes 10 v.toNat).getD []) ba := by
  obtain ⟨tmp, encoded⟩ := varintBytes_isSome 10 v.toNat (by decide) (Nat.lt_trans v.toNat_lt (by decide))
  rw [writeUint64, writeVarint, encoded]
  rfl

/-- A string item is written as its image. -/
theorem writeItem_stored (inv : Inv ba) (string : item.kind.isString = true) :
    ∃ ba', writeItem item ba = .ok () ba' ∧ Stored ba (item.image ba.endian) ba' := by
  obtain ⟨mid, ran, stored⟩ := write_stored inv (item.lengthImage ba.endian)
  obtain ⟨ba', ran', stored'⟩ := write_stored stored.wrote.inv item.text
  refine ⟨ba', ?_, stored.trans inv stored'⟩
  cases item with
  | stringF16 s => exact (run_bind_ok (show writeFuint16 _ ba = _ from ran) _).trans ran'
  | stringF32 s => exact (run_bind_ok (show writeFuint32 _ ba = _ from ran) _).trans ran'
  | stringF64 s => exact (run_bind_ok (show writeFuint64 _ ba = _ from ran) _).trans ran'
  | stringVint s => exact (run_bind_ok ((varint_image _).trans ran) _).trans ran'
  | _ => cases string

theorem writeItems_stored (inv : Inv ba) (strings : ∀ item ∈ items, item.kind.isString = true) :
    ∃ ba', writeItems items ba = .ok () ba' ∧ Stored ba (images ba.endian items) ba' := by
  induction items generalizing ba with
  | nil =>
    obtain ⟨ba', ran, stored⟩ := write_stored inv []
    have nothing : write [] ba = .ok () ba := by simp [write]
    rw [nothing] at ran
    exact ⟨ba', ran, stored⟩
  | cons item items ih =>
    obtain ⟨mid, ran, stored⟩ := writeItem_stored inv (strings item (List.mem_cons_self ..))
    obtain ⟨ba', ran', stored'⟩ := ih stored.wrote.inv fun other member =>
      strings other (List.mem_cons_of_mem _ member)
    rw [stored.wrote.endian_eq] at stored'
    exact ⟨ba', by rw [writeItems, run_bind_ok ran, ran'], stored.trans inv stored'⟩

/-- A string item at the front of the unread bytes is read, unless it is empty and ends the
last block. -/
theorem readItem_image {post : List UInt8} (inv : Inv ba) (string : item.kind.isString = true)
    (fits : item.FitsPrefix) (ahead : unread ba = item.image ba.endian ++ post) :
    (item.text = [] ∧ ba.position + (item.image ba.endian).length = ba.capacity →
      ∃ ba', readItem item.kind ba = .error .nullNode ba') ∧
    (¬ (item.text = [] ∧ ba.position + (item.image ba.endian).length = ba.capacity) →
      readItem item.kind ba = .ok item (ba.advance (item.image ba.endian).length)) := by
  have split : unread ba = item.lengthImage ba.endian ++ (item.text ++ post) := by
    rw [ahead, Item.image, List.append_assoc]
  cases item with
  | stringF16 s =>
    have length_eq : (UInt16.ofNat s.length).toNat = s.length :=
      UInt16.toNat_ofNat'.trans (Nat.mod_eq_of_lt fits)
    have small : s.length ≤ maxStringSize := Nat.le_trans (Nat.le_of_lt fits) (by decide)
    exact read_string inv (read_number inv ((outcome_readFixed inv (by decide)).map _) (codec_fuint16 _)
      (fun other same => by rw [← same]; rfl) split) length_eq small ahead
  | stringF32 s =>
    have length_eq : (UInt32.ofNat s.length).toNat = s.length :=
      UInt32.toNat_ofNat'.trans (Nat.mod_eq_of_lt fits)
    have small : s.length ≤ maxStringSize := Nat.le_trans (Nat.le_of_lt fits) (by decide)
    exact read_string inv (read_number inv ((outcome_readFixed inv (by decide)).map _) (codec_fuint32 _)
      (fun other same => by rw [← same]; rfl) split) length_eq small ahead
  | stringF64 s =>
    have length_eq : (UInt64.ofNat s.length).toNat = s.length :=
      UInt64.toNat_ofNat'.trans (Nat.mod_eq_of_lt (Nat.lt_of_le_of_lt fits (by decide)))
    exact read_string inv (read_number inv ((outcome_readFixed inv (by decide)).map _) (codec_fuint64 _)
      (fun other same => by rw [← same]; rfl) split) length_eq fits ahead
  | stringVint s =>
    have length_eq : (UInt64.ofNat s.length).toNat = s.length :=
      UInt64.toNat_ofNat'.trans (Nat.mod_eq_of_lt (Nat.lt_of_le_of_lt fits (by decide)))
    exact read_string inv (read_number inv ((outcome_varint inv (by decide) (by decide)).map _)
      (codec_uint64 _) (fun _ _ => varint_image _) split) length_eq fits ahead
  | _ => cases string

theorem varintBytes_pos {room v : Nat} {tmp : List UInt8} (encoded : varintBytes room v = some tmp) :
    0 < tmp.length := by
  cases room with
  | zero => cases encoded
  | succ room =>
    rw [varintBytes] at encoded
    split at encoded
    · obtain ⟨rest, -, rfl⟩ := Option.map_eq_some_iff.mp encoded
      exact Nat.succ_pos _
    · cases encoded
      exact Nat.succ_pos _

theorem images_pos {e : Endian} (string : item.kind.isString = true) :
    0 < (images e (item :: items)).length := by
  have first : 0 < (item.lengthImage e).length := by
    cases item with
    | stringF16 s => simp [Item.lengthImage, Item.lengthImage.fixedImage]
    | stringF32 s => simp [Item.lengthImage, Item.lengthImage.fixedImage]
    | stringF64 s => simp [Item.lengthImage, Item.lengthImage.fixedImage]
    | stringVint s =>
      obtain ⟨tmp, encoded⟩ := varintBytes_isSome 10 (UInt64.ofNat s.length).toNat (by decide)
        (Nat.lt_trans (UInt64.ofNat s.length).toNat_lt (by decide))
      rw [Item.lengthImage, encoded]
      exact varintBytes_pos encoded
    | _ => cases string
  have images_eq : images e (item :: items) = item.lengthImage e ++ (item.text ++ images e items) := by
    rw [← List.append_assoc]
    rfl
  rw [images_eq, List.length_append]
  omega

/-- String items at the front of the unread bytes are read, unless the last one is empty and
ends the last block. The items before it end inside of the data. -/
theorem readItems_images {post : List UInt8} (inv : Inv ba)
    (strings : ∀ item ∈ items, item.kind.isString = true) (fits : ∀ item ∈ items, item.FitsPrefix)
    (ahead : unread ba = images ba.endian items ++ post) :
    ((∃ item, items.getLast? = some item ∧ item.text = []) ∧
        ba.position + (images ba.endian items).length = ba.capacity →
      ∃ ba', readItems (items.map Item.kind) ba = .error .nullNode ba') ∧
    (¬ ((∃ item, items.getLast? = some item ∧ item.text = []) ∧
        ba.position + (images ba.endian items).length = ba.capacity) →
      readItems (items.map Item.kind) ba =
        .ok items (ba.advance (images ba.endian items).length)) := by
  -- only the last item can end with the chain; one that is empty there cannot be read
  induction items generalizing ba with
  | nil =>
    constructor
    · rintro ⟨⟨item, none_, -⟩, -⟩
      cases none_
    · intro _
      have nothing : (images ba.endian []).length = 0 := rfl
      rw [nothing, advance_zero inv]
      rfl
  | cons item items ih =>
    have size_le := inv.size_le
    have position_le := inv.position_le
    have total := length_unread inv
    have images_eq : images ba.endian (item :: items) = item.image ba.endian ++ images ba.endian items :=
      rfl
    rw [images_eq, List.append_assoc] at ahead
    rw [images_eq, List.length_append]
    have string := strings item (List.mem_cons_self ..)
    obtain ⟨fails, returns⟩ := readItem_image inv string (fits item (List.mem_cons_self ..)) ahead
    rw [List.map_cons, readItems]
    cases items with
    | nil =>
      have last : (∃ other, [item].getLast? = some other ∧ other.text = []) ↔ item.text = [] := by
        simp
      have nothing : (images ba.endian []).length = 0 := rfl
      rw [last, nothing, Nat.add_zero]
      constructor
      · intro full
        obtain ⟨ba', failed⟩ := fails full
        exact ⟨ba', by rw [run_bind_error failed]⟩
      · intro inside
        rw [run_bind_ok (returns inside)]
        rfl
    | cons next rest =>
      have enough : (item.image ba.endian).length ≤ (unread ba).length := by
        rw [ahead, List.length_append]
        omega
      have left : unread (ba.advance (item.image ba.endian).length) =
          images ba.endian (next :: rest) ++ post := by
        rw [unread_advance, ahead, List.drop_left]
      -- the item that follows takes bytes of its own
      have more : 0 < (images ba.endian (next :: rest)).length :=
        images_pos (strings next (by simp))
      have inside : ¬ (item.text = [] ∧ ba.position + (item.image ba.endian).length = ba.capacity) := by
        rintro ⟨-, full⟩
        rw [ahead, List.length_append, List.length_append] at total
        simp only [getReadSize] at total
        omega
      obtain ⟨fails', returns'⟩ := ih (inv_advance inv enough)
        (fun other member => strings other (List.mem_cons_of_mem _ member))
        (fun other member => fits other (List.mem_cons_of_mem _ member)) left
      have endian_eq : (ba.advance (item.image ba.endian).length).endian = ba.endian := rfl
      have position_eq : (ba.advance (item.image ba.endian).length).position =
          ba.position + (item.image ba.endian).length := rfl
      have capacity_eq : (ba.advance (item.image ba.endian).length).capacity = ba.capacity := rfl
      rw [endian_eq, position_eq, capacity_eq, Nat.add_assoc] at fails' returns'
      rw [advance_advance] at returns'
      rw [List.getLast?_cons_cons, run_bind_ok (returns inside)]
      constructor
      · intro full
        obtain ⟨ba', failed⟩ := fails' full
        exact ⟨ba', by rw [run_bind_error failed]⟩
      · intro not_full
        rw [run_bind_ok (returns' not_full)]
        rfl

end Items

/-! ## What is read fits its prefix -/

section Fits

variable {α : Type} {ba ba' : ByteArray}

theorem readString_ok (inv : Inv ba) {n : Nat} {text : List UInt8}
    (ran : readString n ba = .ok text ba') : text.length = n ∧ n ≤ maxStringSize := by
  by_cases small : n ≤ maxStringSize
  · refine ⟨?_, small⟩
    by_cases empty : n = 0
    · subst empty
      rcases readString_empty_cases inv with ⟨same, -⟩ | ⟨failed, -⟩
      · rw [same] at ran
        cases ran
        rfl
      · rw [failed] at ran
        cases ran
    · obtain ⟨rfl, -, enough⟩ := (readString_spec inv (Nat.pos_of_ne_zero empty) small).of_ok ran
      rw [List.length_take, Nat.min_eq_left enough]
  · rw [readString, if_pos (Nat.lt_of_not_le small)] at ran
    cases ran

theorem read_string_ok {r : ByteArrayM α} {len : α → Nat} {make : List UInt8 → Item}
    {text : List UInt8} (inv : Inv ba) (keeps : Keeps r) (injective : ∀ s t, make s = make t → s = t)
    (ran : ((r >>= fun a => readString (len a)) >>= fun s => pure (make s)) ba = .ok (make text) ba') :
    ∃ a, text.length = len a ∧ text.length ≤ maxStringSize := by
  have kept := keeps ba inv
  rw [run_bind, run_bind] at ran
  cases number : r ba with
  | error fault mid =>
    rw [number] at ran
    cases ran
  | ok a mid =>
    rw [number] at kept ran
    dsimp only at ran
    cases string : readString (len a) mid with
    | error fault last =>
      rw [string] at ran
      cases ran
    | ok s last =>
      rw [string] at ran
      injection ran with same
      obtain ⟨length_eq, small⟩ := readString_ok kept string
      rw [← injective s text same]
      exact ⟨a, length_eq, length_eq ▸ small⟩

theorem readItem_fits {item : Item} (inv : Inv ba) (ran : readItem item.kind ba = .ok item ba') :
    item.FitsPrefix := by
  cases item with
  | stringF16 s =>
    obtain ⟨len, length_eq, -⟩ := read_string_ok inv ((keeps_readFixed 2 (by decide)).map UInt16.ofNat)
      (fun _ _ => Item.stringF16.inj) ran
    exact Nat.lt_of_le_of_lt (Nat.le_of_eq length_eq) len.toNat_lt
  | stringF32 s =>
    obtain ⟨len, length_eq, -⟩ := read_string_ok inv ((keeps_readFixed 4 (by decide)).map UInt32.ofNat)
      (fun _ _ => Item.stringF32.inj) ran
    exact Nat.lt_of_le_of_lt (Nat.le_of_eq length_eq) len.toNat_lt
  | stringF64 s =>
    obtain ⟨-, -, small⟩ := read_string_ok inv ((keeps_readFixed 8 (by decide)).map UInt64.ofNat)
      (fun _ _ => Item.stringF64.inj) ran
    exact small
  | stringVint s =>
    obtain ⟨-, -, small⟩ := read_string_ok inv keeps_readUint64 (fun _ _ => Item.stringVint.inj) ran
    exact small
  | _ => trivial

theorem readItems_fits {items : List Item} (inv : Inv ba)
    (ran : readItems (items.map Item.kind) ba = .ok items ba') : ∀ item ∈ items, item.FitsPrefix := by
  induction items generalizing ba ba' with
  | nil =>
    intro item member
    cases member
  | cons item items ih =>
    have kept := preserves_readItem item.kind ba inv
    rw [List.map_cons, readItems, run_bind] at ran
    cases first : readItem item.kind ba with
    | error fault mid =>
      rw [first] at ran
      cases ran
    | ok got mid =>
      rw [first] at kept ran
      dsimp only at ran
      rw [run_bind] at ran
      cases rest : readItems (items.map Item.kind) mid with
      | error fault last =>
        rw [rest] at ran
        cases ran
      | ok others last =>
        rw [rest] at ran
        injection ran with same
        obtain ⟨rfl, rfl⟩ := List.cons_eq_cons.mp same
        intro other member
        rcases List.mem_cons.mp member with rfl | member
        · exact readItem_fits inv first
        · exact ih kept rest other member

end Fits

/-! ## Reads of every size -/

/-- The items written at the cursor are read back from where they start. -/
def ReadsBack (ba : ByteArray) (items : List Item) : Prop :=
  ∃ ba', (do
    writeItems items
    setPosition ba.position
    readItems (items.map Item.kind) : ByteArrayM (List Item)) ba = .ok items ba'

/-- The last string is empty, and the items end with a block that has to be the last one. -/
def EndsBlock (ba : ByteArray) (items : List Item) : Prop :=
  (∃ item, items.getLast? = some item ∧ item.text = []) ∧
  ba.baseSize ∣ ba.position + (images ba.endian items).length ∧
  ba.capacity ≤ ba.position + (images ba.endian items).length

theorem readsBack_iff {ba : ByteArray} (inv : Inv ba) {items : List Item}
    (strings : ∀ item ∈ items, item.kind.isString = true) :
    ReadsBack ba items ↔ (∀ item ∈ items, item.FitsPrefix) ∧ ¬ EndsBlock ba items := by
  obtain ⟨full, wrote_items, stored⟩ := writeItems_stored inv strings
  obtain ⟨back, sought_back, rewound⟩ := stored.rewind inv
  have run_eq : ∀ result, (do
      writeItems items
      setPosition ba.position
      readItems (items.map Item.kind) : ByteArrayM (List Item)) ba = result ↔
        readItems (items.map Item.kind) back = result := by
    intro result
    rw [run_bind_ok wrote_items, run_bind_ok sought_back]
  -- the items end at the capacity when it is not more than they need
  have full_iff : ba.position + (images ba.endian items).length = back.capacity ↔
      ba.baseSize ∣ ba.position + (images ba.endian items).length ∧
        ba.capacity ≤ ba.position + (images ba.endian items).length := by
    have above := le_inBlocks inv.positive (ba.position + (images ba.endian items).length)
    rw [rewound.capacity_eq, ← inBlocks_eq_iff inv.positive]
    omega
  have images_of_fits : (∀ item ∈ items, item.FitsPrefix) → _ := fun fits =>
    readItems_images rewound.inv strings fits (by rw [rewound.endian_eq]; exact rewound.ahead)
  rw [rewound.endian_eq, rewound.position_eq, full_iff] at images_of_fits
  constructor
  · rintro ⟨ba', ran⟩
    rw [run_eq] at ran
    have fits := readItems_fits rewound.inv ran
    refine ⟨fits, fun ends => ?_⟩
    obtain ⟨ba'', failed⟩ := (images_of_fits fits).1 ends
    rw [ran] at failed
    cases failed
  · rintro ⟨fits, inside⟩
    exact ⟨_, (run_eq _).mpr ((images_of_fits fits).2 inside)⟩

/-- **Reads of any size**: `Read` returns or throws as it should except for a read of nothing
behind the last block; string items are read back exactly when their lengths fit and the
last is not an empty string that ends the last block. -/
theorem read_any_size_iff {ba : ByteArray} (reachable : Reachable ba) :
    (∀ n, ReadsRight ba n ↔ ¬ (n = 0 ∧ ba.position = ba.capacity)) ∧
    (∀ items : List Item, (∀ item ∈ items, item.kind.isString = true) →
      (ReadsBack ba items ↔ (∀ item ∈ items, item.FitsPrefix) ∧ ¬ EndsBlock ba items)) :=
  ⟨readsRight_iff reachable.inv, fun _ strings => readsBack_iff reachable.inv strings⟩

/-- Two empty strings in a block with room for one byte more. -/
theorem read_any_size_iff_room :
    ReadsRight (new 5 fun _ => 0) 0 ∧ ReadsBack (new 5 fun _ => 0) [.stringF16 [], .stringF16 []] := by
  obtain ⟨right, back⟩ := read_any_size_iff (Reachable.new (show 1 ≤ 5 by decide) fun _ => 0)
  refine ⟨(right 0).mpr (by simp [new]), (back _ (by simp [Item.kind, Kind.isString])).mpr ⟨?_, ?_⟩⟩
  · simp [Item.FitsPrefix]
  · rintro ⟨-, divides, -⟩
    exact absurd divides (by decide)

/-- An empty string that fills a block: `Read` follows the null cursor. -/
theorem empty_string_at_border :
    ∃ ba ba', Reachable ba ∧ unread ba = [0, 0] ∧
      readItem .stringF16 ba = .error .nullNode ba' ∧ ba'.position = ba'.capacity ∧
      ¬ ReadsBack (new 2 fun _ => 0) [.stringF16 []] := by
  refine ⟨⟨2, 0, 2, 2, [⟨[0, 0]⟩], some 0, .big, fun _ => 0, 2⟩,
    ⟨2, 2, 2, 2, [⟨[0, 0]⟩], none, .big, fun _ => 0, 2⟩,
    ⟨2, fun _ => 0, [.call (.writeItem (.stringF16 [])), .call (.setPosition 0)], by decide, rfl⟩,
    rfl, rfl, rfl, ?_⟩
  rintro ⟨ba', ran⟩
  cases ran

end ServerFrame.ByteArray
