import ServerFrame.Lib.Splice

/-!
# Chunked storage of `ByteArray`

`ygw::container::ByteArray` keeps its bytes in a chain of blocks of `base_size_`
bytes and walks the chain with a cached node pointer `cur_`. The chain from `root_`
on is a list here, and a `Node*` into it is the index of the node, with `none` for
`nullptr`. Sizes are `size_t` in the source and `Nat` here: no operation of this
module subtracts below zero in a state the class can reach.
-/
namespace ServerFrame

open Splice

/-- `YGW_LITTLE_ENDIAN` and `YGW_BIG_ENDIAN`. -/
inductive Endian where
  | little
  | big
  deriving DecidableEq, Repr

/-- How a member function can end other than by returning: a standard exception, or
one of the two ways in which it would leave defined behaviour. -/
inductive Fault where
  | outOfRange (what : String)
  | lengthError
  /-- A null `Node*` is followed. -/
  | nullNode
  /-- A local array is indexed past its end. -/
  | overrun
  deriving DecidableEq, Repr

/-- A storage block; its `size` field is the length it was allocated with. -/
structure Node where
  bytes : List UInt8
  deriving DecidableEq, Repr

namespace Node

def size (node : Node) : Nat := node.bytes.length

/-- `memcpy(ptr + npos, src, n)`, for `src` the `n` bytes to copy. -/
def store (node : Node) (npos : Nat) (src : List UInt8) : Node := ⟨splice node.bytes npos src⟩

/-- `memcpy(dst, ptr + npos, n)`. -/
def load (node : Node) (npos n : Nat) : List UInt8 := (node.bytes.drop npos).take n

end Node

/-- `new char[s]` leaves its block uninitialised, so the `k`-th byte ever allocated
has the unspecified value `heap k`. -/
structure ByteArray where
  baseSize : Nat
  position : Nat
  capacity : Nat
  size : Nat
  nodes : List Node
  cur : Option Nat
  endian : Endian
  heap : Nat → UInt8
  allocated : Nat

/-- A member function: it may change the object also when it throws. -/
abbrev ByteArrayM := EStateM Fault ByteArray

/-- A stretch of a node handed out by `GetWriteBuffers`. -/
structure Iovec where
  node : Nat
  offset : Nat
  len : Nat
  deriving DecidableEq, Repr

namespace ByteArray

/-- `new Node(s)`, with the allocator at byte `k`. -/
def newNode (heap : Nat → UInt8) (k s : Nat) : Node := ⟨(List.range s).map fun i => heap (k + i)⟩

def new (baseSize : Nat) (heap : Nat → UInt8) : ByteArray where
  baseSize := baseSize
  position := 0
  capacity := baseSize
  size := 0
  nodes := [newNode heap 0 baseSize]
  cur := some 0
  endian := .big
  heap := heap
  allocated := baseSize

/-- The pointer to the `i`-th node of the chain, null past its end. -/
def nodeAt (nodes : List Node) (i : Nat) : Option Nat := if i < nodes.length then some i else none

def getReadSize (ba : ByteArray) : Nat := ba.size - ba.position

def getCapacity (ba : ByteArray) : Nat := ba.capacity - ba.position

def setIsLittleEndian (val : Bool) : ByteArrayM Unit :=
  modify fun ba => { ba with endian := if val then .little else .big }

/-- `count` is `ceil(1.0 * size / base_size_)`, taken as the exact quotient. -/
def addCapacity (size : Nat) (ba : ByteArray) : ByteArray :=
  if size = 0 then ba
  else
    let oldCap := ba.getCapacity
    if size ≤ oldCap then ba
    else
      let count := (size - oldCap + ba.baseSize - 1) / ba.baseSize
      let fresh := (List.range count).map fun i =>
        newNode ba.heap (ba.allocated + i * ba.baseSize) ba.baseSize
      { ba with
        nodes := ba.nodes ++ fresh
        capacity := ba.capacity + count * ba.baseSize
        allocated := ba.allocated + count * ba.baseSize
        -- `first` is the first node appended, and stays NULL when none is
        cur := if oldCap = 0 then nodeAt (ba.nodes ++ fresh) ba.nodes.length else ba.cur }

/-- The copying loop of `Write` over the nodes from `cur_` on: the nodes with `buf`
stored from `npos` on, and how many nodes `cur_` moves forward. -/
def writeLoop : List Node → Nat → List UInt8 → Except Fault (List Node × Nat)
  | [], _, buf => if buf.length > 0 then .error .nullNode else .ok ([], 0)
  | node :: rest, npos, buf =>
    if buf.length > 0 then
      let ncap := node.size - npos
      if ncap ≥ buf.length then
        .ok (node.store npos buf :: rest, if node.size = npos + buf.length then 1 else 0)
      else
        match writeLoop rest 0 (buf.drop ncap) with
        | .error e => .error e
        | .ok (rest', moved) => .ok (node.store npos (buf.take ncap) :: rest', moved + 1)
    else .ok (node :: rest, 0)

/-- `Write(buf, size)`, for `buf` the `size` bytes it is given. -/
def write (buf : List UInt8) : ByteArrayM Unit := do
  if buf.length = 0 then return
  modify (addCapacity buf.length)
  let ba ← get
  match ba.cur with
  | none => throw .nullNode
  | some i =>
    match writeLoop (ba.nodes.drop i) (ba.position % ba.baseSize) buf with
    | .error e => throw e
    | .ok (rest, moved) =>
      let nodes := ba.nodes.take i ++ rest
      let position := ba.position + buf.length
      set { ba with
        nodes := nodes
        position := position
        size := if position > ba.size then position else ba.size
        cur := nodeAt nodes (i + moved) }

/-- The copying loop of `Read`: the bytes read and how many nodes `cur_` moves forward. -/
def readLoop : List Node → Nat → Nat → Except Fault (List UInt8 × Nat)
  | [], _, size => if size > 0 then .error .nullNode else .ok ([], 0)
  | node :: rest, npos, size =>
    if size > 0 then
      let ncap := node.size - npos
      if ncap ≥ size then
        .ok (node.load npos size, if node.size = npos + size then 1 else 0)
      else
        match readLoop rest 0 (size - ncap) with
        | .error e => .error e
        | .ok (bytes, moved) => .ok (node.load npos ncap ++ bytes, moved + 1)
    else .ok ([], 0)

/-- `Read(buf, size)`; the result is what it copies into `buf`. -/
def read (size : Nat) : ByteArrayM (List UInt8) := do
  let ba ← get
  if size > ba.getReadSize then throw (.outOfRange "not enough len")
  match ba.cur with
  -- `cur_->size` is read before the loop, also when there is nothing to copy
  | none => throw .nullNode
  | some i =>
    match readLoop (ba.nodes.drop i) (ba.position % ba.baseSize) size with
    | .error e => throw e
    | .ok (bytes, moved) =>
      set { ba with position := ba.position + size, cur := nodeAt ba.nodes (i + moved) }
      return bytes

/-- The walk of `SetPosition` from `root_`: how many nodes `cur_` moves forward. -/
def seekLoop : List Node → Nat → Except Fault Nat
  | [], _ => .error .nullNode
  | node :: rest, v =>
    if v > node.size then
      match seekLoop rest (v - node.size) with
      | .error e => .error e
      | .ok moved => .ok (moved + 1)
    else .ok (if v = node.size then 1 else 0)

def setPosition (v : Nat) : ByteArrayM Unit := do
  let ba ← get
  if v > ba.capacity then throw (.outOfRange "set_position out of range")
  match seekLoop ba.nodes v with
  | .error e => throw e
  | .ok moved =>
    set { ba with
      position := v
      size := if v > ba.size then v else ba.size
      cur := nodeAt ba.nodes moved }

def clear : ByteArrayM Unit :=
  modify fun ba => { ba with
    position := 0
    size := 0
    capacity := ba.baseSize
    nodes := ba.nodes.take 1
    cur := some 0 }

/-- The loop of `GetWriteBuffers`, at node `i` of the chain. -/
def iovecLoop (i : Nat) : List Node → Nat → Nat → Except Fault (List Iovec)
  | [], _, len => if len > 0 then .error .nullNode else .ok []
  | node :: rest, npos, len =>
    if len > 0 then
      let ncap := node.size - npos
      if ncap ≥ len then .ok [⟨i, npos, len⟩]
      else
        match iovecLoop (i + 1) rest 0 (len - ncap) with
        | .error e => .error e
        | .ok iovs => .ok (⟨i, npos, ncap⟩ :: iovs)
    else .ok []

def getWriteBuffers (len : Nat) : ByteArrayM (List Iovec) := do
  if len = 0 then return []
  modify (addCapacity len)
  let ba ← get
  match ba.cur with
  | none => throw .nullNode
  | some i =>
    match iovecLoop i (ba.nodes.drop i) (ba.position % ba.baseSize) len with
    | .error e => throw e
    | .ok iovs => return iovs

/-- The loop of `ReadFromFile` on the rest of the file. A read of `base_size_` bytes
that comes back short has hit the end of the file and ends the loop. -/
def readFileLoop : Nat → List UInt8 → ByteArrayM Unit
  | 0, _ => pure ()
  | fuel + 1, content => do
    let ba ← get
    write (content.take ba.baseSize)
    if content.length < ba.baseSize then return
    readFileLoop fuel (content.drop ba.baseSize)

/-- `ReadFromFile`; `none` stands for a file that cannot be opened. Every round
but the last takes at least one byte, so one round more than there are bytes is enough. -/
def readFromFile : Option (List UInt8) → ByteArrayM Bool
  | none => return false
  | some content => do
    readFileLoop (content.length + 1) content
    return true

end ByteArray

end ServerFrame
