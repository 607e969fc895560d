import ServerFrame.Lib.Run
import ServerFrame.ByteArray.RoundTrip
import ServerFrame.ByteArray.Tiles

/-!
# The invariant over every sequence of calls

A call that throws leaves the object in the state it had reached, and the caller goes
on with it. Each member function keeps `Inv` whether it returns or throws, and what it
throws is always a standard exception; so a run never gets stuck.
-/
namespace ServerFrame

open EState

/-- The fault is a standard exception, not undefined behaviour. -/
def Fault.isException : Fault → Bool
  | .outOfRange _ => true
  | .lengthError => true
  | .nullNode => false
  | .overrun => false

namespace ByteArray

/-- A call that may change the object. -/
inductive Op where
  | write (buf : List UInt8)
  | read (n : Nat)
  | setPosition (v : Nat)
  | clear
  | getWriteBuffers (len : Nat)
  | readFromFile (file : Option (List UInt8))
  | setIsLittleEndian (val : Bool)
  | writeItem (item : Item)
  | writeStringWithoutLength (value : List UInt8)
  | readItem (kind : Kind)

def perform : Op → ByteArrayM Unit
  | .write buf => write buf
  | .read n => do let _ ← read n
  | .setPosition v => setPosition v
  | .clear => clear
  | .getWriteBuffers len => do let _ ← getWriteBuffers len
  | .readFromFile file => do let _ ← readFromFile file
  | .setIsLittleEndian val => setIsLittleEndian val
  | .writeItem item => writeItem item
  | .writeStringWithoutLength value => writeStringWithoutLength value
  | .readItem kind => do let _ ← readItem kind

/-- The object after a call; `none` when the call is undefined behaviour. -/
def after (ba : ByteArray) (op : Op) : Option ByteArray :=
  match perform op ba with
  | .ok _ ba' => some ba'
  | .error fault ba' => if fault.isException then some ba' else none

/-- The length prefix that `r` reads says that the string is empty. -/
def emptyString {α : Type} (r : ByteArrayM α) (len : α → Nat) (ba : ByteArray) : Bool :=
  match r ba with
  | .ok a _ => len a = 0
  | .error _ _ => false

/-- The call reaches a `Read` of size zero. -/
def readsNothing (ba : ByteArray) : Op → Bool
  | .read n => n = 0
  | .readItem .stringF16 => emptyString readFuint16 UInt16.toNat ba
  | .readItem .stringF32 => emptyString readFuint32 UInt32.toNat ba
  | .readItem .stringF64 => emptyString readFuint64 UInt64.toNat ba
  | .readItem .stringVint => emptyString readUint64 UInt64.toNat ba
  | _ => false

/-! ## One call -/

/-- Whether `x` returns or throws, the invariant holds again. -/
def Keeps {α : Type} (x : ByteArrayM α) : Prop :=
  Triple Inv x (fun _ ba => Inv ba) (fun fault ba => Inv ba ∧ fault.isException = true)

namespace Keeps

variable {α β : Type}

theorem bind {x : ByteArrayM α} {f : α → ByteArrayM β} (first : Keeps x)
    (second : ∀ a, Keeps (f a)) : Keeps (x >>= f) :=
  Triple.bind first second

theorem pure (a : α) : Keeps (Pure.pure a) := Triple.pure fun _ inv => inv

theorem map {x : ByteArrayM α} (first : Keeps x) (f : α → β) :
    Keeps (do return f (← x)) :=
  first.bind fun a => pure (f a)

theorem get : Keeps (MonadState.get : ByteArrayM ByteArray) := Triple.get fun _ inv => inv

end Keeps

theorem keeps_write (buf : List UInt8) : Keeps (write buf) := by
  intro ba inv
  obtain ⟨ba', ran, wrote⟩ := write_spec inv buf
  rw [ran]
  exact wrote.inv

theorem keeps_read {n : Nat} (some_ : 0 < n) : Keeps (read n) := by
  intro ba inv
  by_cases enough : n ≤ ba.getReadSize
  · obtain ⟨ba', ran, moved⟩ := read_spec inv n some_ enough
    rw [ran]
    exact moved.inv
  · rw [read_short (by omega)]
    exact ⟨inv, rfl⟩

theorem keeps_setPosition (v : Nat) : Keeps (setPosition v) := by
  intro ba inv
  by_cases bound : v ≤ ba.capacity
  · obtain ⟨ba', ran, sought⟩ := setPosition_spec inv v bound
    rw [ran]
    exact sought.inv
  · rw [setPosition_past (by omega)]
    exact ⟨inv, rfl⟩

theorem keeps_clear : Keeps clear := by
  intro ba inv
  obtain ⟨ba', ran, inv', -⟩ := clear_spec inv
  rw [ran]
  exact inv'

theorem keeps_getWriteBuffers (len : Nat) : Keeps (getWriteBuffers len) := by
  intro ba inv
  obtain ⟨iovs, ba', ran, grown, -⟩ := getWriteBuffers_spec inv len
  rw [ran]
  exact grown.inv

theorem keeps_readFromFile (file : Option (List UInt8)) : Keeps (readFromFile file) := by
  intro ba inv
  cases file with
  | none => exact inv
  | some content =>
    obtain ⟨ba', ran, wrote⟩ := readFromFile_spec inv content
    rw [ran]
    exact wrote.inv

theorem keeps_setIsLittleEndian (val : Bool) : Keeps (setIsLittleEndian val) :=
  fun _ inv => ⟨inv.positive, inv.position_le, inv.size_le, inv.capacity_eq, inv.uniform, inv.root,
    inv.cur_eq⟩

theorem keeps_writeFixed (n v : Nat) : Keeps (writeFixed n v) :=
  Keeps.get.bind fun _ => keeps_write _

theorem keeps_readFixed (n : Nat) (some_ : 0 < n) : Keeps (readFixed n) :=
  Keeps.get.bind fun _ => (keeps_read some_).bind fun _ => by
    split
    · exact Keeps.pure _
    · exact Keeps.pure _

theorem keeps_writeVarint {room v : Nat} (some_ : 0 < room) (bound : v < 128 ^ room) :
    Keeps (writeVarint room v) := by
  obtain ⟨tmp, encoded⟩ := varintBytes_isSome room v some_ bound
  rw [writeVarint, encoded]
  exact keeps_write tmp

theorem keeps_writeUint32 (v : UInt32) : Keeps (writeUint32 v) :=
  keeps_writeVarint (by decide) (Nat.lt_trans v.toNat_lt (by decide))

theorem keeps_writeUint64 (v : UInt64) : Keeps (writeUint64 v) :=
  keeps_writeVarint (by decide) (Nat.lt_trans v.toNat_lt (by decide))

theorem keeps_readFuint8 : Keeps readFuint8 := (keeps_read (by decide)).map _

/-- The loop reads one byte a round, and may throw in any of them. -/
theorem keeps_readVarintLoop (bits rounds i result : Nat) :
    Keeps (readVarintLoop bits rounds i result) := by
  induction rounds generalizing i result with
  | zero => exact Keeps.pure _
  | succ rounds ih =>
    rw [readVarintLoop]
    split
    · refine keeps_readFuint8.bind fun b => ?_
      split
      · exact Keeps.pure _
      · exact ih _ _
    · exact Keeps.pure _

theorem keeps_readUint32 : Keeps readUint32 := (keeps_readVarintLoop 32 5 0 0).map _

theorem keeps_readUint64 : Keeps readUint64 := (keeps_readVarintLoop 64 10 0 0).map _

theorem keeps_writeItem (item : Item) : Keeps (writeItem item) := by
  cases item with
  | fint8 v => exact keeps_write [v.toUInt8]
  | fuint8 v => exact keeps_write [v]
  | fint16 v => exact keeps_writeFixed _ _
  | fuint16 v => exact keeps_writeFixed _ _
  | fint32 v => exact keeps_writeFixed _ _
  | fuint32 v => exact keeps_writeFixed _ _
  | fint64 v => exact keeps_writeFixed _ _
  | fuint64 v => exact keeps_writeFixed _ _
  | int32 v => exact keeps_writeUint32 _
  | uint32 v => exact keeps_writeUint32 _
  | int64 v => exact keeps_writeUint64 _
  | uint64 v => exact keeps_writeUint64 _
  | float v => exact keeps_writeFixed _ _
  | double v => exact keeps_writeFixed _ _
  | stringF16 s => exact (keeps_writeFixed _ _).bind fun _ => keeps_write s
  | stringF32 s => exact (keeps_writeFixed _ _).bind fun _ => keeps_write s
  | stringF64 s => exact (keeps_writeFixed _ _).bind fun _ => keeps_write s
  | stringVint s => exact (keeps_writeUint64 _).bind fun _ => keeps_write s

theorem keeps_readString {len : Nat} (some_ : 0 < len) : Keeps (readString len) := by
  rw [readString]
  split
  · exact Triple.throw fun _ inv => ⟨inv, rfl⟩
  · exact keeps_read some_

/-- What `Keeps` says of one call, from the state it is made in. -/
def KeepsFrom {α : Type} (ba : ByteArray) (x : ByteArrayM α) : Prop :=
  Triple (fun s => s = ba) x (fun _ s => Inv s) (fun fault s => Inv s ∧ fault.isException = true)

namespace KeepsFrom

variable {α β : Type} {ba : ByteArray}

theorem intro {x : ByteArrayM α} (inv : Inv ba) (keeps : Keeps x) : KeepsFrom ba x := by
  rintro s rfl
  exact keeps s inv

theorem bind {x : ByteArrayM α} {f : α → ByteArrayM β} (first : KeepsFrom ba x)
    (second : ∀ a ba', x ba = .ok a ba' → Keeps (f a)) : KeepsFrom ba (x >>= f) := by
  rintro s rfl
  have post := first s rfl
  rw [run_bind]
  cases ran : x s with
  | ok a s' =>
    rw [ran] at post
    exact second a s' ran s' post
  | error fault s' =>
    rw [ran] at post
    exact post

end KeepsFrom

/-- A string reader, where the prefix it finds is not zero. -/
theorem keepsFrom_string {α : Type} {r : ByteArrayM α} {ba : ByteArray} (inv : Inv ba)
    (keeps : Keeps r) (len : α → Nat) (full : emptyString r len ba = false) :
    KeepsFrom ba (do readString (len (← r))) := by
  refine KeepsFrom.bind (.intro inv keeps) fun a ba' ran => keeps_readString ?_
  simp only [emptyString, ran, decide_eq_false_iff_not] at full
  omega

theorem keepsFrom_readItem {ba : ByteArray} (inv : Inv ba) (kind : Kind)
    (full : readsNothing ba (.readItem kind) = false) : KeepsFrom ba (readItem kind) := by
  cases kind with
  | fint8 => exact .intro inv ((keeps_readFuint8.map _).map _)
  | fuint8 => exact .intro inv (keeps_readFuint8.map _)
  | fint16 => exact .intro inv (((keeps_readFixed 2 (by decide)).map _).map _)
  | fuint16 => exact .intro inv (((keeps_readFixed 2 (by decide)).map _).map _)
  | fint32 => exact .intro inv (((keeps_readFixed 4 (by decide)).map _).map _)
  | fuint32 => exact .intro inv (((keeps_readFixed 4 (by decide)).map _).map _)
  | fint64 => exact .intro inv (((keeps_readFixed 8 (by decide)).map _).map _)
  | fuint64 => exact .intro inv (((keeps_readFixed 8 (by decide)).map _).map _)
  | int32 => exact .intro inv ((keeps_readUint32.map _).map _)
  | uint32 => exact .intro inv (keeps_readUint32.map _)
  | int64 => exact .intro inv ((keeps_readUint64.map _).map _)
  | uint64 => exact .intro inv (keeps_readUint64.map _)
  | float => exact .intro inv (((keeps_readFixed 4 (by decide)).map _).map _)
  | double => exact .intro inv (((keeps_readFixed 8 (by decide)).map _).map _)
  | stringF16 =>
    exact (keepsFrom_string inv ((keeps_readFixed 2 (by decide)).map _) _ full).bind
      fun _ _ _ => Keeps.pure _
  | stringF32 =>
    exact (keepsFrom_string inv ((keeps_readFixed 4 (by decide)).map _) _ full).bind
      fun _ _ _ => Keeps.pure _
  | stringF64 =>
    exact (keepsFrom_string inv ((keeps_readFixed 8 (by decide)).map _) _ full).bind
      fun _ _ _ => Keeps.pure _
  | stringVint =>
    exact (keepsFrom_string inv keeps_readUint64 _ full).bind fun _ _ _ => Keeps.pure _

theorem keepsFrom_perform {ba : ByteArray} (inv : Inv ba) (op : Op)
    (full : readsNothing ba op = false) : KeepsFrom ba (perform op) := by
  cases op with
  | write buf => exact .intro inv (keeps_write buf)
  | read n =>
    have some_ : 0 < n := by simpa [readsNothing, Nat.pos_iff_ne_zero] using full
    exact .intro inv ((keeps_read some_).map _)
  | setPosition v => exact .intro inv (keeps_setPosition v)
  | clear => exact .intro inv keeps_clear
  | getWriteBuffers len => exact .intro inv ((keeps_getWriteBuffers len).map _)
  | readFromFile file => exact .intro inv ((keeps_readFromFile file).map _)
  | setIsLittleEndian val => exact .intro inv (keeps_setIsLittleEndian val)
  | writeItem item => exact .intro inv (keeps_writeItem item)
  | writeStringWithoutLength value => exact .intro inv (keeps_write value)
  | readItem kind => exact (keepsFrom_readItem inv kind full).bind fun _ _ _ => Keeps.pure _

/-- A call that reads nothing of size zero is defined and keeps the invariant. -/
theorem after_keeps {ba : ByteArray} (inv : Inv ba) (op : Op)
    (full : readsNothing ba op = false) : ∃ ba', after ba op = some ba' ∧ Inv ba' := by
  have kept := keepsFrom_perform inv op full ba rfl
  unfold after
  cases ran : perform op ba with
  | ok _ ba' =>
    rw [ran] at kept
    exact ⟨ba', rfl, kept⟩
  | error fault ba' =>
    rw [ran] at kept
    exact ⟨ba', by simp only [kept.2, if_true], kept.1⟩

/-! ## Every sequence of calls -/

/-- No call of the sequence reaches a `Read` of size zero. -/
def readsSomething : ByteArray → List Op → Bool
  | _, [] => true
  | ba, op :: ops => !readsNothing ba op &&
    match after ba op with
    | some ba' => readsSomething ba' ops
    | none => true

theorem run_after_keeps {ba : ByteArray} (inv : Inv ba) (ops : List Op)
    (full : readsSomething ba ops = true) : ∃ ba', Run.run after ba ops = some ba' ∧ Inv ba' := by
  induction ops generalizing ba with
  | nil => exact ⟨ba, rfl, inv⟩
  | cons op ops ih =>
    simp only [readsSomething, Bool.and_eq_true, Bool.not_eq_true'] at full
    obtain ⟨first, rest⟩ := full
    obtain ⟨mid, stepped, inv_mid⟩ := after_keeps inv op first
    rw [stepped] at rest
    obtain ⟨ba', ran, inv'⟩ := ih inv_mid rest
    exact ⟨ba', by simp only [Run.run, stepped, Option.bind_some, ran], inv'⟩

/-- **Representation invariant**: every sequence of calls on a fresh array is defined
and ends in a state that satisfies `Inv`, and from there `AddCapacity(n)` makes room for
`n` bytes behind the position and keeps `Inv` too. -/
theorem calls_keep_invariant (baseSize : Nat) (positive : 1 ≤ baseSize) (heap : Nat → UInt8)
    (ops : List Op) (full : readsSomething (new baseSize heap) ops = true) :
    ∃ ba, Run.run after (new baseSize heap) ops = some ba ∧
      ba.position ≤ ba.size ∧ ba.size ≤ ba.capacity ∧
      ba.capacity = ba.baseSize * ba.nodes.length ∧
      (∀ node ∈ ba.nodes, node.size = ba.baseSize) ∧
      (ba.cur = if ba.position = ba.capacity then none else some (ba.position / ba.baseSize)) ∧
      ∀ n, Inv (addCapacity n ba) ∧ n ≤ (addCapacity n ba).getCapacity := by
  obtain ⟨ba, ran, inv⟩ := run_after_keeps (inv_new positive heap) ops full
  refine ⟨ba, ran, inv.position_le, inv.size_le, inv.capacity_eq, inv.uniform, inv.cur_eq, ?_⟩
  intro n
  obtain ⟨grown, room⟩ := addCapacity_spec inv n
  exact ⟨grown.inv, room⟩

/-- Filling the blocks exactly, reading to the end, two calls that throw, growing and
clearing, and a string that is cut off. -/
theorem calls_keep_invariant_mixed :
    ∃ ba, Run.run after (new 2 fun _ => 0) [.write [1, 2, 3, 4], .setPosition 0, .read 4, .read 1,
        .setPosition 9, .getWriteBuffers 3, .clear, .writeItem (.fuint16 7), .setPosition 0,
        .readItem .stringF16] = some ba ∧
      ba.position ≤ ba.size := by
  obtain ⟨ba, ran, position_le, -⟩ := calls_keep_invariant 2 (by decide) (fun _ => 0)
    [.write [1, 2, 3, 4], .setPosition 0, .read 4, .read 1, .setPosition 9, .getWriteBuffers 3,
      .clear, .writeItem (.fuint16 7), .setPosition 0, .readItem .stringF16] (by decide)
  exact ⟨ba, ran, position_le⟩

end ByteArray

end ServerFrame
