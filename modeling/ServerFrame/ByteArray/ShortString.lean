import ServerFrame.ByteArray.Empty

/-!
# Short strings

`WriteStringF16` stores the length in two bytes, cuts it off there, and writes the string in
full. Behind a string that is too long nothing is read as it was written.
-/
namespace ServerFrame.ByteArray

open Splice EState

/-- `WriteStringF16` refuses `s` and changes nothing, or `s` and the item written behind it are
read back. -/
def KeepsInStep (ba : ByteArray) (s : List UInt8) (x : Item) : Prop :=
  (∃ fault, writeStringF16 s ba = .error fault ba) ∨ ReadsBack ba [.stringF16 s, x]

variable {ba : ByteArray} {s : List UInt8} {x : Item}

/-- A number is written at once. -/
theorem writeItem_number (number : x.kind.isString = false) (e : Endian) :
    ∃ image, 0 < image.length ∧ ∀ ba : ByteArray, ba.endian = e → writeItem x ba = write image ba := by
  have fixed (n v : Nat) (some_ : 0 < n) : ∃ image, 0 < image.length ∧
      ∀ ba : ByteArray, ba.endian = e → writeFixed n v ba = write image ba :=
    ⟨toMemory n (if e ≠ byteOrder then byteswap n v else v), by rwa [length_toMemory], fun ba same => by
      rw [← same]
      rfl⟩
  have varint (room v : Nat) (some_ : 0 < room) (bound : v < 128 ^ room) : ∃ image, 0 < image.length ∧
      ∀ ba : ByteArray, ba.endian = e → writeVarint room v ba = write image ba := by
    obtain ⟨tmp, encoded⟩ := varintBytes_isSome room v some_ bound
    exact ⟨tmp, varintBytes_pos encoded, fun ba _ => by rw [writeVarint, encoded]⟩
  cases x with
  | fint8 v => exact ⟨[v.toUInt8], Nat.one_pos, fun _ _ => rfl⟩
  | fuint8 v => exact ⟨[v], Nat.one_pos, fun _ _ => rfl⟩
  | fint16 v => exact fixed 2 v.toUInt16.toNat (by decide)
  | fuint16 v => exact fixed 2 v.toNat (by decide)
  | fint32 v => exact fixed 4 v.toUInt32.toNat (by decide)
  | fuint32 v => exact fixed 4 v.toNat (by decide)
  | fint64 v => exact fixed 8 v.toUInt64.toNat (by decide)
  | fuint64 v => exact fixed 8 v.toNat (by decide)
  | int32 v => exact varint 5 _ (by decide) (Nat.lt_trans (encodeZigzag32 v).toNat_lt (by decide))
  | uint32 v => exact varint 5 _ (by decide) (Nat.lt_trans v.toNat_lt (by decide))
  | int64 v => exact varint 10 _ (by decide) (Nat.lt_trans (encodeZigzag64 v).toNat_lt (by decide))
  | uint64 v => exact varint 10 _ (by decide) (Nat.lt_trans v.toNat_lt (by decide))
  | float v => exact fixed 4 v.toNat (by decide)
  | double v => exact fixed 8 v.toNat (by decide)
  | _ => cases number

theorem fits_of_number (number : x.kind.isString = false) : x.Fits := by
  cases x with
  | stringF16 _ | stringF32 _ | stringF64 _ | stringVint _ => cases number
  | _ => trivial

theorem fitsPrefix_of_number (number : x.kind.isString = false) : x.FitsPrefix := by
  cases x with
  | stringF16 _ | stringF32 _ | stringF64 _ | stringVint _ => cases number
  | _ => trivial

/-- A number behind a string is read where it was written. -/
theorem readsBack_number (inv : Inv ba) (number : x.kind.isString = false)
    (short : s.length < 65536) : ReadsBack ba [.stringF16 s, x] := by
  obtain ⟨image, some_, writes⟩ := writeItem_number number ba.endian
  obtain ⟨mid, ran₁, stored₁⟩ := @writeItem_stored _ (.stringF16 s) inv rfl
  obtain ⟨full, ran₂, stored₂⟩ := write_stored stored₁.wrote.inv image
  obtain ⟨back, ran₃, rewound⟩ := (stored₁.trans inv stored₂).rewind inv
  have wrote_x : writeItem x mid = .ok () full := (writes mid stored₁.wrote.endian_eq).trans ran₂
  have ahead := rewound.ahead
  rw [← rewound.endian_eq, List.append_assoc] at ahead
  -- the number takes bytes of its own, so the string ends inside of the data
  have inside : back.position + (Item.image back.endian (.stringF16 s)).length ≠ back.capacity := by
    have total := length_unread rewound.inv
    have size_le := rewound.inv.size_le
    have position_le := rewound.inv.position_le
    rw [ahead, List.length_append, List.length_append] at total
    simp only [getReadSize] at total
    omega
  have read_s := (@readItem_image _ (.stringF16 s) _ rewound.inv rfl short ahead).2
    fun full => inside full.2
  have enough : (Item.image back.endian (.stringF16 s)).length ≤ (unread back).length := by
    rw [ahead, List.length_append]
    omega
  have left := unread_advance back (Item.image back.endian (.stringF16 s)).length
  rw [ahead, List.drop_left] at left
  have at_ := at_unread (inv_advance rewound.inv enough)
  rw [left] at at_
  obtain ⟨last, read_x, -⟩ := (codec_item x (fits_of_number number)).reads_image
    (fun other same => writes other (same.trans rewound.endian_eq)) at_
  refine ⟨last, ?_⟩
  have wrote : writeItems [.stringF16 s, x] ba = .ok () full := by
    rw [writeItems, run_bind_ok ran₁, writeItems, run_bind_ok wrote_x]
    rfl
  have read_rest : readItems [x.kind] (back.advance (Item.image back.endian (.stringF16 s)).length) =
      .ok [x] last := by
    rw [readItems, run_bind_ok read_x]
    rfl
  rw [run_bind_ok wrote, run_bind_ok ran₃, List.map_cons, readItems, run_bind_ok read_s,
    List.map_singleton, run_bind_ok read_rest]
  rfl

theorem writeStringF16_ok (inv : Inv ba) (s : List UInt8) :
    ∃ ba', writeStringF16 s ba = .ok () ba' := by
  obtain ⟨ba', ran, -⟩ := @writeItem_stored _ (.stringF16 s) inv rfl
  exact ⟨ba', ran⟩

theorem keeps_writeItems (items : List Item) : Keeps (writeItems items) := by
  induction items with
  | nil => exact .pure ()
  | cons item items ih => exact (keeps_writeItem item).bind fun _ => ih

/-- What is read back fits behind its length. -/
theorem fits_of_readsBack {items : List Item} (inv : Inv ba) (back : ReadsBack ba items) :
    ∀ item ∈ items, item.FitsPrefix := by
  obtain ⟨ba', ran⟩ := back
  have kept : Keeps (writeItems items >>= fun _ => setPosition ba.position) :=
    (keeps_writeItems items).bind fun _ => keeps_setPosition ba.position
  have inv_back := kept ba inv
  rw [← bind_assoc, run_bind] at ran
  cases wrote : (writeItems items >>= fun _ => setPosition ba.position) ba with
  | error fault mid =>
    rw [wrote] at ran
    cases ran
  | ok _ mid =>
    rw [wrote] at ran inv_back
    exact readItems_fits inv_back ran

/-- **Short strings**: `WriteStringF16` refuses no string. The string and the item behind it are
read back exactly when both are no longer than their lengths can say and an empty string does not end the
last block. -/
theorem keepsInStep_iff {ba : ByteArray} (reachable : Reachable ba) (s : List UInt8) (x : Item) :
    KeepsInStep ba s x ↔ s.length < 65536 ∧ x.FitsPrefix ∧
      ¬ (x.kind.isString = true ∧ EndsBlock ba [.stringF16 s, x]) := by
  have inv := reachable.inv
  have not_refused : KeepsInStep ba s x ↔ ReadsBack ba [.stringF16 s, x] := by
    refine ⟨fun keeps => ?_, .inr⟩
    rcases keeps with ⟨fault, refused⟩ | back
    · obtain ⟨ba', ran⟩ := writeStringF16_ok inv s
      rw [ran] at refused
      cases refused
    · exact back
  rw [not_refused]
  cases number : x.kind.isString with
  | true =>
    have strings : ∀ item ∈ [Item.stringF16 s, x], item.kind.isString = true := by
      intro item member
      rcases List.mem_cons.mp member with rfl | member
      · rfl
      · exact (List.mem_singleton.mp member) ▸ number
    rw [readsBack_iff inv strings, List.forall_mem_cons, List.forall_mem_singleton, and_assoc]
    simp only [true_and]
    rfl
  | false =>
    constructor
    · intro back
      exact ⟨fits_of_readsBack inv back _ (List.mem_cons_self ..), fitsPrefix_of_number number,
        fun ends => Bool.false_ne_true ends.1⟩
    · rintro ⟨short, -⟩
      exact readsBack_number inv number short

/-- A string and a number over three blocks. -/
theorem keepsInStep_iff_number : KeepsInStep (new 3 fun _ => 0) [97, 98, 99, 100] (.fuint8 7) :=
  (keepsInStep_iff (Reachable.new (show 1 ≤ 3 by decide) fun _ => 0) _ _).mpr
    ⟨by decide, trivial, fun ends => Bool.false_ne_true ends.1⟩

/-- A string of 65536 bytes is neither refused nor read back. -/
theorem long_string_lost :
    ¬ KeepsInStep (new 4096 fun _ => 0) (List.replicate 65536 97) (.fuint8 7) := by
  have inv := (Reachable.new (show 1 ≤ 4096 by decide) fun _ => 0).inv
  rintro (⟨fault, refused⟩ | back)
  · obtain ⟨ba', ran⟩ := writeStringF16_ok inv (List.replicate 65536 97)
    rw [ran] at refused
    cases refused
  · have fits := fits_of_readsBack inv back _ (List.mem_cons_self ..)
    rw [Item.FitsPrefix, List.length_replicate] at fits
    exact absurd fits (by decide)

end ServerFrame.ByteArray
