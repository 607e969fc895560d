import ServerFrame.ByteArray.Safety

/-!
# Reachable states

A state is reachable when some sequence of defined calls on a fresh array ends in it:
members that return or throw, and bytes that a socket stores. Reads of nothing are among
the calls, as long as they do not follow a null pointer.
-/
namespace ServerFrame.ByteArray

open Splice EState

/-! ## Bytes from a socket -/

theorem Inv.scattered {ba : ByteArray} {iovs : List Iovec} {p q : Nat} (inv : Inv ba)
    (tiles : Tiles ba.baseSize iovs p q) (fits : q ≤ ba.capacity) (bytes : List UInt8) :
    Inv { ba with nodes := scatter ba.nodes iovs bytes } ∧
      flat (scatter ba.nodes iovs bytes) = splice (flat ba.nodes) p (bytes.take (q - p)) := by
  obtain ⟨flat_eq, uniform, length_eq⟩ :=
    scatter_tiles tiles inv.uniform (by rwa [← inv.capacity_eq]) bytes
  have root := List.length_pos_iff.mpr inv.root
  refine ⟨⟨inv.positive, inv.position_le, inv.size_le, ?_, uniform, ?_, inv.cur_eq⟩, flat_eq⟩
  · dsimp only
    rw [length_eq, inv.capacity_eq]
  · exact List.ne_nil_of_length_pos (by rw [length_eq]; exact root)

/-- What a socket brings is written at the cursor. -/
theorem receive_spec {ba : ByteArray} (inv : Inv ba) {len : Nat} {bytes : List UInt8}
    (short : bytes.length ≤ len) :
    ∃ ba', receive len bytes ba = .ok () ba' ∧ Wrote ba bytes ba' := by
  obtain ⟨iovs, g, handed, grown, tiles, room⟩ := getWriteBuffers_spec inv len
  have inv' := grown.inv
  rw [← grown.baseSize_eq] at tiles
  obtain ⟨inv_s, flat_eq⟩ := inv'.scattered tiles room bytes
  have whole : bytes.take (ba.position + len - ba.position) = bytes :=
    List.take_of_length_le (by omega)
  rw [whole] at flat_eq
  have contents_eq := grown.contents_eq inv
  have position_le := inv'.position_le
  have size_le := inv'.size_le
  have length_flat := inv'.length_flat
  have position_eq := grown.position_eq
  simp only [receive, run_bind_ok handed, run_bind, run_modify, run_get]
  by_cases some_ : bytes.length > 0
  · -- the cursor moves over what was stored
    obtain ⟨ba', ran, sought⟩ := setPosition_spec inv_s (g.position + bytes.length)
      (by dsimp only; omega)
    rw [if_pos some_, ran]
    refine ⟨ba', rfl, sought.inv, by rw [sought.position_eq, position_eq], ?_,
      sought.baseSize_eq.trans grown.baseSize_eq, sought.endian_eq.trans grown.endian_eq⟩
    have stored := take_splice (flat g.nodes) g.position g.size bytes position_le
      (by omega) (by omega)
    rw [contents, sought.nodes_eq, sought.size_eq]
    dsimp only
    rw [flat_eq, ← position_eq, stored, ← contents_eq, contents]
  · have nil : bytes = [] := List.eq_nil_of_length_eq_zero (by omega)
    rw [if_neg some_]
    refine ⟨_, rfl, inv_s, ?_, ?_, grown.baseSize_eq, grown.endian_eq⟩
    · rw [nil]
      exact position_eq
    · rw [← contents_eq, contents, contents]
      dsimp only
      rw [flat_eq, nil, splice_nil, splice_nil]

/-! ## Every defined call -/

/-- Whether `x` returns or throws an exception, the invariant holds again. -/
def Preserves {α : Type} (x : ByteArrayM α) : Prop :=
  Triple Inv x (fun _ ba => Inv ba) (fun fault ba => fault.isException = true → Inv ba)

theorem Keeps.preserves {α : Type} {x : ByteArrayM α} (keeps : Keeps x) : Preserves x := by
  intro ba inv
  have kept := keeps ba inv
  cases ran : x ba with
  | ok a ba' =>
    rw [ran] at kept
    exact kept
  | error fault ba' =>
    rw [ran] at kept
    exact fun _ => kept.1

namespace Preserves

variable {α β : Type}

theorem bind {x : ByteArrayM α} {f : α → ByteArrayM β} (first : Preserves x)
    (second : ∀ a, Preserves (f a)) : Preserves (x >>= f) :=
  Triple.bind first second

theorem map {x : ByteArrayM α} (first : Preserves x) (f : α → β) : Preserves (do return f (← x)) :=
  first.bind fun a => (Keeps.pure (f a)).preserves

end Preserves

theorem preserves_read (n : Nat) : Preserves (read n) := by
  by_cases empty : n = 0
  · intro ba inv
    rw [empty]
    rcases read_zero inv with ran | ⟨ran, -⟩
    · rw [ran]
      exact inv
    · rw [ran]
      exact fun _ => inv
  · exact (keeps_read (Nat.pos_of_ne_zero empty)).preserves

theorem preserves_readString (len : Nat) : Preserves (readString len) := by
  rw [readString]
  split
  · exact Triple.throw fun _ inv _ => inv
  · exact preserves_read len

/-- A reader that reaches no `Read` of size zero in any state. -/
theorem keeps_readItem {kind : Kind} (full : ∀ ba, readsNothing ba (.readItem kind) = false) :
    Keeps (readItem kind) :=
  fun ba inv => keepsFrom_readItem inv kind (full ba) ba rfl

theorem preserves_readItem (kind : Kind) : Preserves (readItem kind) := by
  cases kind
  case stringF16 =>
    have len : Keeps readFuint16 := (keeps_readFixed 2 (by decide)).map _
    exact (len.preserves.bind fun n => preserves_readString n.toNat).map _
  case stringF32 =>
    have len : Keeps readFuint32 := (keeps_readFixed 4 (by decide)).map _
    exact (len.preserves.bind fun n => preserves_readString n.toNat).map _
  case stringF64 =>
    have len : Keeps readFuint64 := (keeps_readFixed 8 (by decide)).map _
    exact (len.preserves.bind fun n => preserves_readString n.toNat).map _
  case stringVint => exact (keeps_readUint64.preserves.bind fun n => preserves_readString n.toNat).map _
  all_goals exact (keeps_readItem fun _ => rfl).preserves

theorem preserves_perform (op : Op) : Preserves (perform op) := by
  cases op with
  | write buf => exact (keeps_write buf).preserves
  | read n => exact (preserves_read n).map _
  | setPosition v => exact (keeps_setPosition v).preserves
  | clear => exact keeps_clear.preserves
  | getWriteBuffers len => exact ((keeps_getWriteBuffers len).map _).preserves
  | readFromFile file => exact ((keeps_readFromFile file).map _).preserves
  | setIsLittleEndian val => exact (keeps_setIsLittleEndian val).preserves
  | writeItem item => exact (keeps_writeItem item).preserves
  | writeStringWithoutLength value => exact (keeps_write value).preserves
  | readItem kind => exact (preserves_readItem kind).map _

/-! ## Runs -/

/-- A call of a member function, or a read from a socket that brings `bytes`. -/
inductive Act where
  | call (op : Op)
  | receive (len : Nat) (bytes : List UInt8)

/-- The object after an act; `none` when the call is undefined behaviour. A socket brings no
more than there is room for. -/
def act (ba : ByteArray) : Act → Option ByteArray
  | .call op => after ba op
  | .receive len bytes =>
    if len < bytes.length then none
    else match receive len bytes ba with
      | .ok _ ba' => some ba'
      | .error fault ba' => if fault.isException then some ba' else none

def Reachable (ba : ByteArray) : Prop :=
  ∃ (baseSize : Nat) (heap : Nat → UInt8) (acts : List Act),
    1 ≤ baseSize ∧ Run.run act (new baseSize heap) acts = some ba

theorem act_keeps {ba ba' : ByteArray} (inv : Inv ba) (a : Act) (acted : act ba a = some ba') :
    Inv ba' := by
  cases a with
  | call op =>
    have kept := preserves_perform op ba inv
    rw [act, after] at acted
    cases ran : perform op ba with
    | ok _ next =>
      rw [ran] at kept acted
      cases acted
      exact kept
    | error fault next =>
      rw [ran] at kept acted
      by_cases thrown : fault.isException = true
      · simp only [thrown, if_true] at acted
        cases acted
        exact kept thrown
      · simp [thrown] at acted
  | receive len bytes =>
    rw [act] at acted
    split at acted
    · cases acted
    · next short =>
      obtain ⟨next, ran, wrote⟩ := receive_spec inv (Nat.le_of_not_lt short)
      rw [ran] at acted
      cases acted
      exact wrote.inv

theorem Reachable.inv {ba : ByteArray} (reachable : Reachable ba) : Inv ba := by
  obtain ⟨baseSize, heap, acts, positive, ran⟩ := reachable
  exact Run.run_invariant (fun _ a _ inv acted => act_keeps inv a acted) (inv_new positive heap) ran

theorem Reachable.new {baseSize : Nat} (positive : 1 ≤ baseSize) (heap : Nat → UInt8) :
    Reachable (new baseSize heap) :=
  ⟨baseSize, heap, [], positive, rfl⟩

theorem Reachable.act {ba ba' : ByteArray} (reachable : Reachable ba) (a : Act)
    (acted : ByteArray.act ba a = some ba') : Reachable ba' := by
  obtain ⟨baseSize, heap, acts, positive, ran⟩ := reachable
  refine ⟨baseSize, heap, acts ++ [a], positive, ?_⟩
  rw [Run.run_append, ran]
  simp [Run.run, acted]

end ServerFrame.ByteArray
