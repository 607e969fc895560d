import ServerFrame.ByteArray.Storage

/-!
# Typed readers and writers of `ByteArray`

Every `Write*` reduces to `Write` of a byte image, every `Read*` to `Read`. The
fixed-width members differ only in their type, so each is the common body at its
width; signed types go through their two's complement bits.
-/
namespace ServerFrame

namespace ByteArray

/-! ## Byte images of integers -/

/-- The `n` bytes of an integer in the memory of a little-endian host. -/
def toMemory : Nat → Nat → List UInt8
  | 0, _ => []
  | n + 1, v => UInt8.ofNat (v % 256) :: toMemory n (v / 256)

def ofMemory : List UInt8 → Nat
  | [] => 0
  | b :: bytes => b.toNat + 256 * ofMemory bytes

/-- `util::Byteswap` on an integer of `n` bytes. -/
def byteswap (n v : Nat) : Nat := ofMemory (toMemory n v).reverse

/-- `YGW_BYTE_ORDER` on the hosts the library is built for. -/
def byteOrder : Endian := .little

/-- `std::string::max_size()`: `resize` throws above it. -/
def maxStringSize : Nat := 2 ^ 63 - 1

/-! ## Fixed width -/

/-- The body the macro `XX` gives to the fixed-width writers, for `n` bytes. -/
def writeFixed (n value : Nat) : ByteArrayM Unit := do
  let ba ← get
  let value := if ba.endian ≠ byteOrder then byteswap n value else value
  write (toMemory n value)

/-- The body the macro `XX` gives to the fixed-width readers. -/
def readFixed (n : Nat) : ByteArrayM Nat := do
  let ba ← get
  let v := ofMemory (← read n)
  if ba.endian = byteOrder then return v else return byteswap n v

-- a single byte has no order, and the source writes it without asking for one
def writeFint8 (value : Int8) : ByteArrayM Unit := write [value.toUInt8]
def writeFuint8 (value : UInt8) : ByteArrayM Unit := write [value]
def writeFint16 (value : Int16) : ByteArrayM Unit := writeFixed 2 value.toUInt16.toNat
def writeFuint16 (value : UInt16) : ByteArrayM Unit := writeFixed 2 value.toNat
def writeFint32 (value : Int32) : ByteArrayM Unit := writeFixed 4 value.toUInt32.toNat
def writeFuint32 (value : UInt32) : ByteArrayM Unit := writeFixed 4 value.toNat
def writeFint64 (value : Int64) : ByteArrayM Unit := writeFixed 8 value.toUInt64.toNat
def writeFuint64 (value : UInt64) : ByteArrayM Unit := writeFixed 8 value.toNat

def readFuint8 : ByteArrayM UInt8 := return UInt8.ofNat (ofMemory (← read 1))
def readFint8 : ByteArrayM Int8 := return (← readFuint8).toInt8
def readFint16 : ByteArrayM Int16 := return (UInt16.ofNat (← readFixed 2)).toInt16
def readFuint16 : ByteArrayM UInt16 := return UInt16.ofNat (← readFixed 2)
def readFint32 : ByteArrayM Int32 := return (UInt32.ofNat (← readFixed 4)).toInt32
def readFuint32 : ByteArrayM UInt32 := return UInt32.ofNat (← readFixed 4)
def readFint64 : ByteArrayM Int64 := return (UInt64.ofNat (← readFixed 8)).toInt64
def readFuint64 : ByteArrayM UInt64 := return UInt64.ofNat (← readFixed 8)

-- `memcpy` between a float and an integer of its size: only the bits are seen here
def writeFloat (bits : UInt32) : ByteArrayM Unit := writeFuint32 bits
def writeDouble (bits : UInt64) : ByteArrayM Unit := writeFuint64 bits
def readFloat : ByteArrayM UInt32 := readFuint32
def readDouble : ByteArrayM UInt64 := readFuint64

/-! ## Zigzag and varint -/

/-- Signed negation and doubling wrap around. -/
def encodeZigzag32 (v : Int32) : UInt32 :=
  if v < 0 then (-v).toUInt32 * 2 - 1 else (v * 2).toUInt32

def encodeZigzag64 (v : Int64) : UInt64 :=
  if v < 0 then (-v).toUInt64 * 2 - 1 else (v * 2).toUInt64

def decodeZigzag32 (v : UInt32) : Int32 := ((v >>> 1) ^^^ -(v &&& 1)).toInt32

def decodeZigzag64 (v : UInt64) : Int64 := ((v >>> 1) ^^^ -(v &&& 1)).toInt64

/-- The loop that fills `tmp`, with `room` elements of the array left; `none` is an
index past its end. -/
def varintBytes : Nat → Nat → Option (List UInt8)
  | 0, _ => none
  | room + 1, value =>
    if value ≥ 0x80 then
      (varintBytes room (value >>> 7)).map (UInt8.ofNat ((value &&& 0x7F) ||| 0x80) :: ·)
    else some [UInt8.ofNat value]

/-- The common body of `WriteUint32` and `WriteUint64`, for a `tmp` of `room` bytes. -/
def writeVarint (room value : Nat) : ByteArrayM Unit :=
  match varintBytes room value with
  | none => throw .overrun
  | some tmp => write tmp

/-- The loop of `ReadUint32` and `ReadUint64` for results of `bits` bits, at shift
`i` with `rounds` bounding the rounds left. -/
def readVarintLoop (bits : Nat) : Nat → Nat → Nat → ByteArrayM Nat
  | 0, _, result => return result
  | rounds + 1, i, result =>
    if i < bits then do
      let b ← readFuint8
      if b < 0x80 then return result ||| (b.toNat <<< i) % 2 ^ bits
      else readVarintLoop bits rounds (i + 7) (result ||| ((b &&& 0x7f).toNat <<< i) % 2 ^ bits)
    else return result

def writeUint32 (value : UInt32) : ByteArrayM Unit := writeVarint 5 value.toNat
def writeUint64 (value : UInt64) : ByteArrayM Unit := writeVarint 10 value.toNat
def writeInt32 (value : Int32) : ByteArrayM Unit := writeUint32 (encodeZigzag32 value)
def writeInt64 (value : Int64) : ByteArrayM Unit := writeUint64 (encodeZigzag64 value)

def readUint32 : ByteArrayM UInt32 := return UInt32.ofNat (← readVarintLoop 32 5 0 0)
def readUint64 : ByteArrayM UInt64 := return UInt64.ofNat (← readVarintLoop 64 10 0 0)
def readInt32 : ByteArrayM Int32 := return decodeZigzag32 (← readUint32)
def readInt64 : ByteArrayM Int64 := return decodeZigzag64 (← readUint64)

/-! ## Strings -/

-- the length goes through the implicit conversion to the type of the prefix
def writeStringF16 (value : List UInt8) : ByteArrayM Unit := do
  writeFuint16 (UInt16.ofNat value.length)
  write value

def writeStringF32 (value : List UInt8) : ByteArrayM Unit := do
  writeFuint32 (UInt32.ofNat value.length)
  write value

def writeStringF64 (value : List UInt8) : ByteArrayM Unit := do
  writeFuint64 (UInt64.ofNat value.length)
  write value

def writeStringVint (value : List UInt8) : ByteArrayM Unit := do
  writeUint64 (UInt64.ofNat value.length)
  write value

def writeStringWithoutLength (value : List UInt8) : ByteArrayM Unit := write value

/-- `buff.resize(len); Read(&buff[0], len)`. -/
def readString (len : Nat) : ByteArrayM (List UInt8) := do
  if len > maxStringSize then throw .lengthError
  read len

def readStringF16 : ByteArrayM (List UInt8) := do readString (← readFuint16).toNat
def readStringF32 : ByteArrayM (List UInt8) := do readString (← readFuint32).toNat
def readStringF64 : ByteArrayM (List UInt8) := do readString (← readFuint64).toNat
def readStringVint : ByteArrayM (List UInt8) := do readString (← readUint64).toNat

/-! ## Items -/

/-- A value together with the pair of member functions that transfers it. -/
inductive Item where
  | fint8 (v : Int8)
  | fuint8 (v : UInt8)
  | fint16 (v : Int16)
  | fuint16 (v : UInt16)
  | fint32 (v : Int32)
  | fuint32 (v : UInt32)
  | fint64 (v : Int64)
  | fuint64 (v : UInt64)
  | int32 (v : Int32)
  | uint32 (v : UInt32)
  | int64 (v : Int64)
  | uint64 (v : UInt64)
  | float (bits : UInt32)
  | double (bits : UInt64)
  | stringF16 (s : List UInt8)
  | stringF32 (s : List UInt8)
  | stringF64 (s : List UInt8)
  | stringVint (s : List UInt8)
  deriving DecidableEq, Repr

/-- The member functions, without the value. -/
inductive Kind where
  | fint8 | fuint8 | fint16 | fuint16 | fint32 | fuint32 | fint64 | fuint64
  | int32 | uint32 | int64 | uint64 | float | double
  | stringF16 | stringF32 | stringF64 | stringVint
  deriving DecidableEq, Repr

def Item.kind : Item → Kind
  | .fint8 _ => .fint8
  | .fuint8 _ => .fuint8
  | .fint16 _ => .fint16
  | .fuint16 _ => .fuint16
  | .fint32 _ => .fint32
  | .fuint32 _ => .fuint32
  | .fint64 _ => .fint64
  | .fuint64 _ => .fuint64
  | .int32 _ => .int32
  | .uint32 _ => .uint32
  | .int64 _ => .int64
  | .uint64 _ => .uint64
  | .float _ => .float
  | .double _ => .double
  | .stringF16 _ => .stringF16
  | .stringF32 _ => .stringF32
  | .stringF64 _ => .stringF64
  | .stringVint _ => .stringVint

def writeItem : Item → ByteArrayM Unit
  | .fint8 v => writeFint8 v
  | .fuint8 v => writeFuint8 v
  | .fint16 v => writeFint16 v
  | .fuint16 v => writeFuint16 v
  | .fint32 v => writeFint32 v
  | .fuint32 v => writeFuint32 v
  | .fint64 v => writeFint64 v
  | .fuint64 v => writeFuint64 v
  | .int32 v => writeInt32 v
  | .uint32 v => writeUint32 v
  | .int64 v => writeInt64 v
  | .uint64 v => writeUint64 v
  | .float v => writeFloat v
  | .double v => writeDouble v
  | .stringF16 s => writeStringF16 s
  | .stringF32 s => writeStringF32 s
  | .stringF64 s => writeStringF64 s
  | .stringVint s => writeStringVint s

def readItem : Kind → ByteArrayM Item
  | .fint8 => return .fint8 (← readFint8)
  | .fuint8 => return .fuint8 (← readFuint8)
  | .fint16 => return .fint16 (← readFint16)
  | .fuint16 => return .fuint16 (← readFuint16)
  | .fint32 => return .fint32 (← readFint32)
  | .fuint32 => return .fuint32 (← readFuint32)
  | .fint64 => return .fint64 (← readFint64)
  | .fuint64 => return .fuint64 (← readFuint64)
  | .int32 => return .int32 (← readInt32)
  | .uint32 => return .uint32 (← readUint32)
  | .int64 => return .int64 (← readInt64)
  | .uint64 => return .uint64 (← readUint64)
  | .float => return .float (← readFloat)
  | .double => return .double (← readDouble)
  | .stringF16 => return .stringF16 (← readStringF16)
  | .stringF32 => return .stringF32 (← readStringF32)
  | .stringF64 => return .stringF64 (← readStringF64)
  | .stringVint => return .stringVint (← readStringVint)

def writeItems : List Item → ByteArrayM Unit
  | [] => return
  | item :: items => do
    writeItem item
    writeItems items

def readItems : List Kind → ByteArrayM (List Item)
  | [] => return []
  | kind :: kinds => do
    let item ← readItem kind
    let items ← readItems kinds
    return item :: items

end ByteArray

end ServerFrame
