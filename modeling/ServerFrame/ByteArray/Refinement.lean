import ServerFrame.ByteArray.Invariant

/-!
# `ByteArray` refines a flat byte string with a cursor

`Flat` says what a `ByteArray` is for: a byte string and a position in it. The
refinement relates the two at every call, so the block size cannot be observed.
-/
namespace ServerFrame.ByteArray

open Splice EState

/-- The abstract byte string with its cursor. -/
structure Flat where
  bytes : List UInt8
  pos : Nat
  deriving DecidableEq, Repr

namespace Flat

def empty : Flat := ⟨[], 0⟩

def readSize (flat : Flat) : Nat := flat.bytes.length - flat.pos

def write (flat : Flat) (buf : List UInt8) : Flat :=
  ⟨splice flat.bytes flat.pos buf, flat.pos + buf.length⟩

def peek (flat : Flat) (n : Nat) : List UInt8 := (flat.bytes.drop flat.pos).take n

def advance (flat : Flat) (n : Nat) : Flat := { flat with pos := flat.pos + n }

end Flat

/-- A call on the raw byte interface. -/
inductive RawCall where
  | write (buf : List UInt8)
  | read (n : Nat)
  | setPosition (v : Nat)
  | clear
  deriving DecidableEq, Repr

/-- What the caller of a raw call sees. -/
inductive Answer where
  | done
  | bytes (buf : List UInt8)
  | fault (f : Fault)
  deriving DecidableEq, Repr

/-- What can be observed after a call: its answer, the position and the size. -/
structure Observation where
  answer : Answer
  position : Nat
  size : Nat
  deriving DecidableEq, Repr

/-- One call on the chunked implementation. -/
def call (ba : ByteArray) : RawCall → Answer × ByteArray
  | .write buf =>
    match write buf ba with
    | .ok _ ba' => (.done, ba')
    | .error f ba' => (.fault f, ba')
  | .read n =>
    match read n ba with
    | .ok bytes ba' => (.bytes bytes, ba')
    | .error f ba' => (.fault f, ba')
  | .setPosition v =>
    match setPosition v ba with
    | .ok _ ba' => (.done, ba')
    | .error f ba' => (.fault f, ba')
  | .clear =>
    match clear ba with
    | .ok _ ba' => (.done, ba')
    | .error f ba' => (.fault f, ba')

def calls : ByteArray → List RawCall → List Observation × ByteArray
  | ba, [] => ([], ba)
  | ba, c :: cs =>
    let (answer, ba') := call ba c
    let (seen, last) := calls ba' cs
    (⟨answer, ba'.position, ba'.size⟩ :: seen, last)

/-- One call on the abstract byte string. -/
def Flat.call (flat : Flat) : RawCall → Answer × Flat
  | .write buf => (.done, flat.write buf)
  | .read n =>
    if n > flat.readSize then (.fault (.outOfRange "not enough len"), flat)
    else (.bytes (flat.peek n), flat.advance n)
  | .setPosition v => (.done, { flat with pos := v })
  | .clear => (.done, Flat.empty)

def Flat.calls : Flat → List RawCall → List Observation × Flat
  | flat, [] => ([], flat)
  | flat, c :: cs =>
    let (answer, flat') := flat.call c
    let (seen, last) := flat'.calls cs
    (⟨answer, flat'.pos, flat'.bytes.length⟩ :: seen, last)

/-- The calls the comparison is about: non-empty transfers, and positions inside the data. -/
def Flat.admits (flat : Flat) : RawCall → Prop
  | .write buf => 1 ≤ buf.length
  | .read n => 1 ≤ n
  | .setPosition v => v ≤ flat.bytes.length
  | .clear => True

def Flat.admitsAll : Flat → List RawCall → Prop
  | _, [] => True
  | flat, c :: cs => flat.admits c ∧ (flat.call c).2.admitsAll cs

/-- The abstraction: `ba` holds the byte string and the cursor of `flat`. -/
structure Represents (ba : ByteArray) (flat : Flat) : Prop where
  inv : Inv ba
  bytes_eq : contents ba = flat.bytes
  pos_eq : ba.position = flat.pos

namespace Represents

variable {ba : ByteArray} {flat : Flat}

theorem size_eq (rep : Represents ba flat) : ba.size = flat.bytes.length := by
  rw [← rep.bytes_eq, rep.inv.length_contents]

theorem readSize_eq (rep : Represents ba flat) : ba.getReadSize = flat.readSize := by
  rw [getReadSize, Flat.readSize, rep.size_eq, rep.pos_eq]

theorem new {baseSize : Nat} (positive : 1 ≤ baseSize) (heap : Nat → UInt8) :
    Represents (ByteArray.new baseSize heap) Flat.empty :=
  ⟨inv_new positive heap, by simp [contents, ByteArray.new, Flat.empty], rfl⟩

theorem wrote {buf : List UInt8} {ba' : ByteArray} (rep : Represents ba flat)
    (wrote : Wrote ba buf ba') : Represents ba' (flat.write buf) :=
  ⟨wrote.inv, by rw [wrote.contents_eq, rep.bytes_eq, rep.pos_eq]; rfl,
    by rw [wrote.position_eq, rep.pos_eq]; rfl⟩

theorem advanced {n : Nat} {ba' : ByteArray} (rep : Represents ba flat)
    (moved : Advanced ba n ba') : Represents ba' (flat.advance n) :=
  ⟨moved.inv, by rw [moved.contents_eq, rep.bytes_eq]; rfl,
    by rw [moved.position_eq, rep.pos_eq]; rfl⟩

/-- Moving the cursor inside the data leaves the bytes alone. -/
theorem sought {v : Nat} {ba' : ByteArray} (rep : Represents ba flat)
    (sought : Sought ba v ba') (inside : v ≤ flat.bytes.length) :
    Represents ba' { flat with pos := v } := by
  refine ⟨sought.inv, ?_, sought.position_eq⟩
  have size : ba'.size = ba.size := by
    rw [sought.size_eq, rep.size_eq]; exact Nat.max_eq_left inside
  rw [contents, sought.nodes_eq, size]
  exact rep.bytes_eq

end Represents

/-! ## One call -/

theorem call_write {ba : ByteArray} {flat : Flat} (rep : Represents ba flat) (buf : List UInt8) :
    ∃ ba', call ba (.write buf) = (.done, ba') ∧ Represents ba' (flat.write buf) := by
  obtain ⟨ba', ran, wrote⟩ := write_spec rep.inv buf
  exact ⟨ba', by simp only [call, ran], rep.wrote wrote⟩

theorem call_read {ba : ByteArray} {flat : Flat} (rep : Represents ba flat) {n : Nat}
    (some_ : 1 ≤ n) :
    ∃ ba', call ba (.read n) = ((flat.call (.read n)).1, ba') ∧
      Represents ba' (flat.call (.read n)).2 := by
  simp only [Flat.call]
  by_cases short : n > flat.readSize
  · rw [if_pos short]
    have ran := read_short (n := n) (by rw [rep.readSize_eq]; exact short)
    exact ⟨ba, by simp only [call, ran], rep⟩
  · rw [if_neg short]
    obtain ⟨ba', ran, moved⟩ := read_spec rep.inv n some_ (by rw [rep.readSize_eq]; omega)
    refine ⟨ba', ?_, rep.advanced moved⟩
    simp only [call, ran, Flat.peek, rep.bytes_eq, rep.pos_eq]

theorem call_setPosition {ba : ByteArray} {flat : Flat} (rep : Represents ba flat) {v : Nat}
    (inside : v ≤ flat.bytes.length) :
    ∃ ba', call ba (.setPosition v) = (.done, ba') ∧ Represents ba' { flat with pos := v } := by
  have bound : v ≤ ba.capacity := by
    have := rep.inv.size_le; have := rep.size_eq; omega
  obtain ⟨ba', ran, sought⟩ := setPosition_spec rep.inv v bound
  exact ⟨ba', by simp only [call, ran], rep.sought sought inside⟩

theorem call_clear {ba : ByteArray} {flat : Flat} (rep : Represents ba flat) :
    ∃ ba', call ba .clear = (.done, ba') ∧ Represents ba' Flat.empty := by
  obtain ⟨ba', ran, inv, position, size, -⟩ := clear_spec rep.inv
  refine ⟨ba', by simp only [call, ran], inv, ?_, position⟩
  rw [contents, size]; rfl

/-- Simulation: an admitted call answers as on the abstract string, and the new
states are related again. -/
theorem call_refines {ba : ByteArray} {flat : Flat} (rep : Represents ba flat) (c : RawCall)
    (admitted : flat.admits c) :
    ∃ ba', call ba c = ((flat.call c).1, ba') ∧ Represents ba' (flat.call c).2 := by
  cases c with
  | write buf => exact call_write rep buf
  | read n => exact call_read rep admitted
  | setPosition v => exact call_setPosition rep admitted
  | clear => exact call_clear rep

/-! ## Every sequence of calls -/

theorem calls_refine {ba : ByteArray} {flat : Flat} (rep : Represents ba flat)
    (cs : List RawCall) (admitted : flat.admitsAll cs) :
    (calls ba cs).1 = (flat.calls cs).1 ∧ Represents (calls ba cs).2 (flat.calls cs).2 := by
  induction cs generalizing ba flat with
  | nil => exact ⟨rfl, rep⟩
  | cons c cs ih =>
    obtain ⟨first, rest⟩ := admitted
    obtain ⟨ba', ran, rep'⟩ := call_refines rep c first
    obtain ⟨seen, last⟩ := ih rep' rest
    have observed : (⟨(flat.call c).1, ba'.position, ba'.size⟩ : Observation) =
        ⟨(flat.call c).1, (flat.call c).2.pos, (flat.call c).2.bytes.length⟩ := by
      rw [rep'.pos_eq, rep'.size_eq]
    constructor
    · simp only [calls, ran, Flat.calls, seen, observed]
    · simpa only [calls, ran, Flat.calls] using last

/-- **Refinement**: on every admitted sequence of calls the chunked implementation, for
every block size, answers exactly as the flat byte string and ends with its bytes and
cursor. Two block sizes therefore show the same answers, positions and sizes. -/
theorem refines_flat_string (baseSize baseSize' : Nat) (positive : 1 ≤ baseSize)
    (positive' : 1 ≤ baseSize') (heap heap' : Nat → UInt8) (cs : List RawCall)
    (admitted : Flat.empty.admitsAll cs) :
    ((calls (new baseSize heap) cs).1 = (Flat.empty.calls cs).1 ∧
      contents (calls (new baseSize heap) cs).2 = (Flat.empty.calls cs).2.bytes ∧
      (calls (new baseSize heap) cs).2.position = (Flat.empty.calls cs).2.pos ∧
      (calls (new baseSize heap) cs).2.size = (Flat.empty.calls cs).2.bytes.length) ∧
    (calls (new baseSize heap) cs).1 = (calls (new baseSize' heap') cs).1 := by
  obtain ⟨seen, last⟩ := calls_refine (Represents.new positive heap) cs admitted
  obtain ⟨seen', -⟩ := calls_refine (Represents.new positive' heap') cs admitted
  exact ⟨⟨seen, last.bytes_eq, last.pos_eq, last.size_eq⟩, seen.trans seen'.symm⟩

/-- Overwriting across a block border, reading past the end, rewinding and clearing. -/
theorem refines_flat_string_mixed :
    (calls (new 2 fun _ => 0) [.write [1, 2, 3], .setPosition 1, .write [9], .read 2, .read 1,
      .clear]).1 = (calls (new 5 fun _ => 7) [.write [1, 2, 3], .setPosition 1, .write [9], .read 2,
      .read 1, .clear]).1 :=
  (refines_flat_string 2 5 (by decide) (by decide) _ _
    [.write [1, 2, 3], .setPosition 1, .write [9], .read 2, .read 1, .clear]
    (by simp [Flat.admitsAll, Flat.admits, Flat.call, Flat.write, Flat.empty, splice])).2

end ServerFrame.ByteArray
