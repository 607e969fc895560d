import ServerFrame.ByteArray.Storage

/-!
# Access beside the cursor

The `const` member functions walk the chain with a local pointer and leave the object
alone: a copying read at an offset, and the segments of the chain in which bytes lie.
`SocketStream::Read` lets the socket store into such segments.
-/
namespace ServerFrame

namespace ByteArray

/-- `a - b` of type `size_t`. -/
def sizeSub (a b : Nat) : Nat := if b ≤ a then a - b else a + 2 ^ 64 - b

/-- `Read(buf, size, position) const`. Its loop is the one of `Read`, from `cur_` on. -/
def readAt (size position : Nat) : ByteArrayM (List UInt8) := do
  let ba ← get
  if size > sizeSub ba.size position then throw (.outOfRange "not enough len")
  match ba.cur with
  | none => throw .nullNode
  | some i =>
    match readLoop (ba.nodes.drop i) (position % ba.baseSize) size with
    | .error e => throw e
    | .ok (bytes, _) => return bytes

def toString : ByteArrayM (List UInt8) := do
  let ba ← get
  if ba.getReadSize = 0 then return []
  readAt ba.getReadSize ba.position

/-- `GetReadBuffers(buffers, len)` on an empty vector. Its loop is the one of
`GetWriteBuffers`. -/
def getReadBuffers (len : Nat) : ByteArrayM (List Iovec × Nat) := do
  let ba ← get
  let len := if len > ba.getReadSize then ba.getReadSize else len
  if len = 0 then return ([], 0)
  match ba.cur with
  | none => throw .nullNode
  | some i =>
    match iovecLoop i (ba.nodes.drop i) (ba.position % ba.baseSize) len with
    | .error e => throw e
    | .ok iovs => return (iovs, len)

/-- The walk of `GetReadBuffers` from `root_`: the chain from the node reached on. -/
def walkLoop : Nat → List Node → Except Fault (List Node)
  | 0, nodes => .ok nodes
  | _ + 1, [] => .error .nullNode
  | count + 1, _ :: rest => walkLoop count rest

/-- `GetReadBuffers(buffers, len, position)` on an empty vector. -/
def getReadBuffersAt (len position : Nat) : ByteArrayM (List Iovec × Nat) := do
  let ba ← get
  let len := if len > ba.getReadSize then ba.getReadSize else len
  if len = 0 then return ([], 0)
  let npos := position % ba.baseSize
  let count := position / ba.baseSize
  match walkLoop count ba.nodes with
  | .error e => throw e
  | .ok rest =>
    match iovecLoop count rest npos len with
    | .error e => throw e
    | .ok iovs => return (iovs, len)

/-- The bytes in segments of the chain. -/
def gather (nodes : List Node) (iovs : List Iovec) : List UInt8 :=
  iovs.flatMap fun iov => match nodes[iov.node]? with
    | none => []
    | some node => node.load iov.offset iov.len

/-- What `recvmsg` does with the bytes it brings: it fills one segment after the other. -/
def scatter : List Node → List Iovec → List UInt8 → List Node
  | nodes, [], _ => nodes
  | nodes, iov :: iovs, bytes =>
    scatter (nodes.modify iov.node fun node => node.store iov.offset (bytes.take iov.len)) iovs
      (bytes.drop iov.len)

/-- `SocketStream::Read` of a connected socket, where `bytes` are what the socket brings, none
at the end of the stream or on an error. -/
def receive (len : Nat) (bytes : List UInt8) : ByteArrayM Unit := do
  let iovs ← getWriteBuffers len
  modify fun ba => { ba with nodes := scatter ba.nodes iovs bytes }
  let ba ← get
  if bytes.length > 0 then setPosition (ba.position + bytes.length)

end ByteArray

end ServerFrame
