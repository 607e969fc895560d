import ServerFrame.Lib.PrefixBits

/-!
# Subnets of IPv4 and IPv6 addresses

The network, the broadcast address and the mask for a length of the prefix. The host is
little-endian: the bytes of an address are the number in `s_addr` with its bytes swapped. No result
(`none`) is defined behind a shift by the width of `int`, an `int` that overflows, or an access
beside an array.
-/
namespace ServerFrame.Subnet

open PrefixBits

/-- `CreateMask` for a `T` of `width` bits. The 1 that is shifted is an `int`; for 31 places the
difference behind it overflows, which `wraps` says to wrap around. -/
def createMask (wraps : Bool) (width : Nat) (bits : UInt32) : Option (BitVec width) :=
  let places : UInt64 := UInt64.ofNat width - bits.toUInt64
  if places < 32 then
    let shifted : BitVec 32 := 1 <<< places.toNat
    if BitVec.ssubOverflow shifted 1 ∧ wraps = false then none
    else some ((shifted - 1).setWidth width)
  else none

/-- `bswap_32`. -/
def bswap32 (v : BitVec 32) : BitVec 32 :=
  v.extractLsb' 0 8 ++ v.extractLsb' 8 8 ++ v.extractLsb' 16 8 ++ v.extractLsb' 24 8

/-- `ByteswapOnLittleEndian`, on such a host. -/
def byteswapOnLittleEndian (v : BitVec 32) : BitVec 32 := bswap32 v

/-- The `sockaddr_in` of an `IPv4Address`. -/
structure IPv4Address where
  sinFamily : UInt16
  sinPort : UInt16
  sinAddr : BitVec 32
  deriving DecidableEq

/-- `AF_INET` and `AF_INET6`. -/
def afInet : UInt16 := 2
def afInet6 : UInt16 := 10

namespace IPv4Address

/-- `BroadcastAddress`. The result `some none` is `nullptr`. -/
def broadcastAddress (wraps : Bool) (a : IPv4Address) (prefixLen : UInt32) :
    Option (Option IPv4Address) :=
  if prefixLen > 32 then some none
  else do
    let mask ← createMask wraps 32 prefixLen
    return some { a with sinAddr := a.sinAddr ||| byteswapOnLittleEndian mask }

/-- `NetworkAddress`. -/
def networkAddress (wraps : Bool) (a : IPv4Address) (prefixLen : UInt32) :
    Option (Option IPv4Address) :=
  if prefixLen > 32 then some none
  else do
    let mask ← createMask wraps 32 prefixLen
    return some { a with sinAddr := a.sinAddr &&& byteswapOnLittleEndian mask }

/-- `SubnetMask`. -/
def subnetMask (wraps : Bool) (prefixLen : UInt32) : Option IPv4Address := do
  let mask ← createMask wraps 32 prefixLen
  return ⟨afInet, 0, ~~~byteswapOnLittleEndian mask⟩

/-- The address as a number, in the order of the host. -/
def host (a : IPv4Address) : BitVec 32 := byteswapOnLittleEndian a.sinAddr

/-- What the three functions should do for an address and a prefix. -/
structure Subnets (wraps : Bool) (a : IPv4Address) (prefixLen : UInt32) (mask network broadcast :
    IPv4Address) : Prop where
  maskIs : subnetMask wraps prefixLen = some mask
  networkIs : networkAddress wraps a prefixLen = some (some network)
  broadcastIs : broadcastAddress wraps a prefixLen = some (some broadcast)
  leading : Leading mask.host prefixLen.toNat
  network_eq : network.host = a.host &&& mask.host
  broadcast_eq : broadcast.host = network.host ||| ~~~mask.host
  ordered : network.host ≤ a.host ∧ a.host ≤ broadcast.host
  networkTwice : networkAddress wraps network prefixLen = some (some network)
  broadcastTwice : broadcastAddress wraps broadcast prefixLen = some (some broadcast)

example : (subnetMask false 20).map host = some 0xfffff000 := by decide

end IPv4Address

/-! ## The mask -/

/-- The difference overflows for 31 places only. -/
theorem ssubOverflow_shifted (n : Nat) (few : n < 32) :
    BitVec.ssubOverflow (1 <<< n : BitVec 32) 1 = decide (n = 31) := by
  have all : ∀ n : Fin 32, BitVec.ssubOverflow (1 <<< (n : Nat) : BitVec 32) 1 =
      decide ((n : Nat) = 31) := by decide
  exact all ⟨n, few⟩

theorem shifted_sub_one (n : Nat) (few : n < 32) :
    (1 <<< n : BitVec 32) - 1 = BitVec.ofNat 32 (2 ^ n - 1) := by
  have all : ∀ n : Fin 32, (1 <<< (n : Nat) : BitVec 32) - 1 = BitVec.ofNat 32 (2 ^ (n : Nat) - 1) := by
    decide
  exact all ⟨n, few⟩

/-- The mask has the bits behind the prefix, if there are fewer than 32 of them. -/
theorem createMask_eq (wraps : Bool) {width : Nat} {bits : UInt32} (narrow : width ≤ 32)
    (inside : bits.toNat ≤ width) : createMask wraps width bits =
      if width - bits.toNat = 32 ∨ width - bits.toNat = 31 ∧ wraps = false then none
      else some (BitVec.ofNat width (2 ^ (width - bits.toNat) - 1)) := by
  have bound := bits.toNat_lt
  have places : (UInt64.ofNat width - bits.toUInt64).toNat = width - bits.toNat := by
    rw [UInt64.toNat_sub, UInt64.toNat_ofNat', UInt32.toNat_toUInt64]
    omega
  rw [createMask]
  simp only [UInt64.lt_iff_toNat_lt, places]
  by_cases few : width - bits.toNat < 32
  · have small : width - bits.toNat < (32 : UInt64).toNat := few
    have not_full : width - bits.toNat ≠ 32 := by omega
    rw [if_pos small, ssubOverflow_shifted _ few]
    simp only [decide_eq_true_eq, not_full, false_or]
    split
    · rfl
    · rw [shifted_sub_one _ few, BitVec.setWidth_ofNat_of_le narrow]
  · have large : ¬ width - bits.toNat < (32 : UInt64).toNat := few
    have full : width - bits.toNat = 32 := by omega
    rw [if_neg large, if_pos (.inl full)]

/-! ## The order of the bytes -/

/-- A bit keeps its place in its byte, and the bytes are turned around. -/
theorem getLsbD_bswap32 (v : BitVec 32) {i : Nat} (inside : i < 32) :
    (bswap32 v).getLsbD i = v.getLsbD ((3 - i / 8) * 8 + i % 8) := by
  change (v.extractLsb' 0 8 ++ v.extractLsb' 8 8 ++ v.extractLsb' 16 8 ++ v.extractLsb' 24 8 :
    BitVec (8 + 8 + 8 + 8)).getLsbD i = _
  simp only [BitVec.getLsbD_append, BitVec.getLsbD_extractLsb']
  split
  · next first =>
    have byte : (3 - i / 8) * 8 + i % 8 = 24 + i := by omega
    simp [first, byte]
  · split
    · next second =>
      have byte : (3 - i / 8) * 8 + i % 8 = 16 + (i - 8) := by omega
      simp [second, byte]
    · split
      · next third =>
        have byte : (3 - i / 8) * 8 + i % 8 = 8 + (i - 8 - 8) := by omega
        simp [third, byte]
      · next fourth =>
        have byte : (3 - i / 8) * 8 + i % 8 = 0 + (i - 8 - 8 - 8) := by omega
        have last : i - 8 - 8 - 8 < 8 := by omega
        simp [last, byte]

theorem bswap32_bswap32 (v : BitVec 32) : bswap32 (bswap32 v) = v := by
  apply BitVec.eq_of_getLsbD_eq
  intro i inside
  have back : (3 - ((3 - i / 8) * 8 + i % 8) / 8) * 8 + ((3 - i / 8) * 8 + i % 8) % 8 = i := by omega
  rw [getLsbD_bswap32 _ inside, getLsbD_bswap32 _ (by omega), back]

theorem bswap32_and (a b : BitVec 32) : bswap32 (a &&& b) = bswap32 a &&& bswap32 b := by
  apply BitVec.eq_of_getLsbD_eq
  intro i inside
  simp only [getLsbD_bswap32 _ inside, BitVec.getLsbD_and]

theorem bswap32_or (a b : BitVec 32) : bswap32 (a ||| b) = bswap32 a ||| bswap32 b := by
  apply BitVec.eq_of_getLsbD_eq
  intro i inside
  simp only [getLsbD_bswap32 _ inside, BitVec.getLsbD_or]

theorem bswap32_not (v : BitVec 32) : bswap32 (~~~v) = ~~~bswap32 v := by
  apply BitVec.eq_of_getLsbD_eq
  intro i inside
  have mirrored : (3 - i / 8) * 8 + i % 8 < 32 := by omega
  simp only [getLsbD_bswap32 _ inside, BitVec.getLsbD_not, inside, mirrored]

theorem bswap32_eq_zero_iff (v : BitVec 32) : bswap32 v = 0 ↔ v = 0 := by
  constructor
  · intro zero
    rw [← bswap32_bswap32 v, zero]
    rfl
  · rintro rfl
    rfl

/-! ## IPv4 -/

namespace IPv4Address

/-- The three functions for a prefix that has a mask, in the order of the host. -/
theorem of_mask (wraps : Bool) (a : IPv4Address) {prefixLen : UInt32} {h : BitVec 32}
    (mask : createMask wraps 32 prefixLen = some h) (inside : prefixLen ≤ 32) :
    subnetMask wraps prefixLen = some ⟨afInet, 0, bswap32 (~~~h)⟩ ∧
    networkAddress wraps a prefixLen = some (some { a with sinAddr := a.sinAddr &&& bswap32 h }) ∧
    broadcastAddress wraps a prefixLen =
      some (some { a with sinAddr := a.sinAddr ||| bswap32 h }) := by
  have not_more : ¬ prefixLen > 32 := by
    rw [gt_iff_lt, UInt32.not_lt]
    exact inside
  refine ⟨?_, ?_, ?_⟩
  · rw [subnetMask, mask, bswap32_not]
    rfl
  · rw [networkAddress, if_neg not_more, mask]
    rfl
  · rw [broadcastAddress, if_neg not_more, mask]
    rfl

theorem createMask_isSome {wraps : Bool} {prefixLen : UInt32} (inside : prefixLen ≤ 32) :
    (∃ h, createMask wraps 32 prefixLen = some h) ↔
      1 ≤ prefixLen ∧ (prefixLen = 1 → wraps = true) := by
  have small : prefixLen.toNat ≤ 32 := inside
  have one : prefixLen = 1 ↔ prefixLen.toNat = 1 := UInt32.toNat_inj.symm
  have first : 1 ≤ prefixLen ↔ 1 ≤ prefixLen.toNat := UInt32.le_iff_toNat_le
  rw [createMask_eq wraps (by decide) small, one, first]
  constructor
  · rintro ⟨h, some_⟩
    split at some_
    · cases some_
    · next defined =>
      obtain ⟨not_full, not_last⟩ := not_or.mp defined
      refine ⟨by omega, fun only => ?_⟩
      by_contra strict
      exact not_last ⟨by omega, by simpa using strict⟩
  · rintro ⟨positive, only⟩
    rw [if_neg]
    · exact ⟨_, rfl⟩
    · rintro (full | ⟨last, strict⟩)
      · omega
      · have wrapped := only (by omega)
        rw [strict] at wrapped
        cases wrapped

theorem low_of_createMask {wraps : Bool} {prefixLen : UInt32} {h : BitVec 32}
    (mask : createMask wraps 32 prefixLen = some h) (inside : prefixLen ≤ 32) :
    Low h (32 - prefixLen.toNat) := by
  have small : prefixLen.toNat ≤ 32 := inside
  rw [createMask_eq wraps (by decide) small] at mask
  split at mask
  · cases mask
  · cases mask
    exact low_two_pow_sub_one 32 _

theorem leading_of_createMask {wraps : Bool} {prefixLen : UInt32} {h : BitVec 32}
    (mask : createMask wraps 32 prefixLen = some h) (inside : prefixLen ≤ 32) :
    Leading (~~~h) prefixLen.toNat := by
  have few : 32 - (32 - prefixLen.toNat) = prefixLen.toNat := by
    have small : prefixLen.toNat ≤ 32 := inside
    omega
  have leading := (low_of_createMask mask inside).leading_not (Nat.sub_le 32 _)
  rwa [few] at leading

theorem exists_createMask {wraps : Bool} {prefixLen : UInt32} {mask : IPv4Address}
    (maskIs : subnetMask wraps prefixLen = some mask) :
    ∃ h, createMask wraps 32 prefixLen = some h := by
  cases none_ : createMask wraps 32 prefixLen with
  | none =>
    rw [subnetMask, none_] at maskIs
    cases maskIs
  | some h => exact ⟨h, rfl⟩

theorem inside_of_networkAddress {wraps : Bool} {a network : IPv4Address} {prefixLen : UInt32}
    (networkIs : networkAddress wraps a prefixLen = some (some network)) : prefixLen ≤ 32 := by
  by_contra more
  have null : networkAddress wraps a prefixLen = some none := if_pos (UInt32.not_le.mp more)
  rw [networkIs] at null
  cases null

/-- The three functions do what they should exactly for the address 0.0.0.0, for which it makes no
difference which half of the address is kept, and a prefix with a mask. -/
theorem ipv4_subnets_iff (wraps : Bool) (a : IPv4Address) (prefixLen : UInt32) :
    (∃ mask network broadcast, Subnets wraps a prefixLen mask network broadcast) ↔
      a.sinAddr = 0 ∧ 1 ≤ prefixLen ∧ prefixLen ≤ 32 ∧ (prefixLen = 1 → wraps = true) := by
  constructor
  · rintro ⟨mask, network, broadcast, subnets⟩
    have inside := inside_of_networkAddress subnets.networkIs
    obtain ⟨h, some_⟩ := exists_createMask subnets.maskIs
    obtain ⟨maskIs, networkIs, -⟩ := of_mask wraps a some_ inside
    have maskSame := Option.some.inj (subnets.maskIs.symm.trans maskIs)
    have networkSame := Option.some.inj (Option.some.inj (subnets.networkIs.symm.trans networkIs))
    have kept := subnets.network_eq
    -- the code keeps the other half of the address
    rw [maskSame, networkSame] at kept
    simp only [host, byteswapOnLittleEndian, bswap32_and, bswap32_bswap32] at kept
    have zero := (and_eq_and_not_iff _ h).mp kept
    have mask_iff := (createMask_isSome inside).mp ⟨h, some_⟩
    exact ⟨(bswap32_eq_zero_iff _).mp zero, mask_iff.1, inside, mask_iff.2⟩
  · rintro ⟨zero, positive, inside, only⟩
    obtain ⟨h, some_⟩ := (createMask_isSome inside).mpr ⟨positive, only⟩
    have same : ∀ b : IPv4Address, b.sinAddr = 0 → { b with sinAddr := b.sinAddr &&& bswap32 h } = b := by
      rintro ⟨family, port, _⟩ rfl
      simp
    obtain ⟨maskIs, networkIs, broadcastIs⟩ := of_mask wraps a some_ inside
    obtain ⟨-, -, twice⟩ :=
      of_mask wraps { a with sinAddr := a.sinAddr ||| bswap32 h } some_ inside
    rw [same a zero] at networkIs
    rw [BitVec.or_assoc, BitVec.or_self] at twice
    refine ⟨_, _, _, maskIs, networkIs, broadcastIs, ?_, ?_, ?_, ⟨?_, ?_⟩, networkIs, twice⟩
    · simpa only [host, byteswapOnLittleEndian, bswap32_bswap32] using
        leading_of_createMask some_ inside
    · have swapped : bswap32 0#32 = 0#32 := rfl
      simp [host, byteswapOnLittleEndian, zero, swapped]
    · simp only [host, byteswapOnLittleEndian, bswap32_or, bswap32_bswap32, BitVec.not_not]
    · exact BitVec.le_refl _
    · simp only [host, byteswapOnLittleEndian, bswap32_or]
      exact le_or _ _

/-- The network of 10.0.0.1/8 comes out as 0.0.0.1. -/
theorem networkAddress_keeps_host :
    let a : IPv4Address := ⟨afInet, 0, bswap32 0x0a000001⟩
    networkAddress true a 8 = some (some ⟨afInet, 0, bswap32 0x00000001⟩) ∧
      ¬ ∃ mask network broadcast, Subnets true a 8 mask network broadcast := by
  refine ⟨by decide, ?_⟩
  rintro ⟨mask, network, broadcast, subnets⟩
  have maskIs : subnetMask true 8 = some ⟨afInet, 0, bswap32 0xff000000⟩ := by decide
  have networkIs : networkAddress true ⟨afInet, 0, bswap32 0x0a000001⟩ 8 =
      some (some ⟨afInet, 0, bswap32 0x00000001⟩) := by decide
  have kept := subnets.network_eq
  rw [← Option.some.inj (maskIs.symm.trans subnets.maskIs),
    ← Option.some.inj (Option.some.inj (networkIs.symm.trans subnets.networkIs))] at kept
  revert kept
  decide

end IPv4Address

/-! ## IPv6 -/

/-- `s6_addr`. -/
abbrev Bytes : Type := Vector (BitVec 8) 16

/-- An assignment to `s6_addr[i]`. -/
def assignAt (bytes : Bytes) (i : Nat) (f : BitVec 8 → BitVec 8) : Option Bytes :=
  if inside : i < 16 then some (bytes.set i (f bytes[i])) else none

/-- A loop that sets `passes` bytes from `i` on to `b`. -/
def fill (b : BitVec 8) : Nat → Nat → Bytes → Option Bytes
  | 0, _, bytes => some bytes
  | passes + 1, i, bytes => do
    let bytes ← assignAt bytes i fun _ => b
    fill b passes (i + 1) bytes

/-- The `sockaddr_in6` of an `IPv6Address`. -/
structure IPv6Address where
  sin6Family : UInt16
  sin6Port : UInt16
  sin6Flowinfo : UInt32
  sin6Addr : Bytes
  sin6ScopeId : UInt32

namespace IPv6Address

/-- `BroadcastAddress`. -/
def broadcastAddress (wraps : Bool) (a : IPv6Address) (prefixLen : UInt32) : Option IPv6Address := do
  let mask ← createMask wraps 8 (prefixLen % 8)
  let bytes ← assignAt a.sin6Addr (prefixLen / 8).toNat (· ||| mask)
  let first := (prefixLen / 8).toNat + 1
  let bytes ← fill 0xff (16 - first) first bytes
  return { a with sin6Addr := bytes }

/-- `NetworkAddress`. -/
def networkAddress (wraps : Bool) (a : IPv6Address) (prefixLen : UInt32) : Option IPv6Address := do
  let mask ← createMask wraps 8 (prefixLen % 8)
  let bytes ← assignAt a.sin6Addr (prefixLen / 8).toNat (· &&& mask)
  let first := (prefixLen / 8).toNat + 1
  let bytes ← fill 0x00 (16 - first) first bytes
  return { a with sin6Addr := bytes }

/-- `SubnetMask`. -/
def subnetMask (wraps : Bool) (prefixLen : UInt32) : Option IPv6Address := do
  let mask ← createMask wraps 8 (prefixLen % 8)
  let bytes ← assignAt (Vector.replicate 16 0) (prefixLen / 8).toNat fun _ => ~~~mask
  let bytes ← fill 0xff (prefixLen / 8).toNat 0 bytes
  return ⟨afInet6, 0, 0, bytes, 0⟩

/-- What the three functions should do for an address and a prefix. -/
structure Subnets (wraps : Bool) (a : IPv6Address) (prefixLen : UInt32) (mask network broadcast :
    IPv6Address) : Prop where
  maskIs : subnetMask wraps prefixLen = some mask
  networkIs : networkAddress wraps a prefixLen = some network
  broadcastIs : broadcastAddress wraps a prefixLen = some broadcast
  leading : ∀ i j, (inside : i < 16) → j < 8 →
    mask.sin6Addr[i].getMsbD j = decide (8 * i + j < prefixLen.toNat)
  network_eq : ∀ i, (inside : i < 16) → network.sin6Addr[i] = a.sin6Addr[i] &&& mask.sin6Addr[i]
  broadcast_eq : ∀ i, (inside : i < 16) →
    broadcast.sin6Addr[i] = network.sin6Addr[i] ||| ~~~mask.sin6Addr[i]

example : (subnetMask false 20).map (·.sin6Addr.toList.take 4) = some [0xff, 0xff, 0xf0, 0] := by
  decide

end IPv6Address

theorem assignAt_eq (bytes : Bytes) {i : Nat} (inside : i < 16) (f : BitVec 8 → BitVec 8) :
    assignAt bytes i f = some (bytes.set i (f bytes[i])) :=
  dif_pos inside

/-- The loop gets to its end inside of the array. -/
theorem fill_spec (b : BitVec 8) {passes i : Nat} (bytes : Bytes) (inside : i + passes ≤ 16) :
    ∃ filled, fill b passes i bytes = some filled ∧ ∀ j, (at_ : j < 16) →
      filled[j] = if i ≤ j ∧ j < i + passes then b else bytes[j] := by
  induction passes generalizing i bytes with
  | zero => exact ⟨bytes, rfl, fun j _ => by rw [if_neg (by omega)]⟩
  | succ passes ih =>
    have first : i < 16 := by omega
    obtain ⟨filled, ran, at_⟩ := ih (bytes.set i b) (show i + 1 + passes ≤ 16 by omega)
    refine ⟨filled, ?_, fun j inside => ?_⟩
    · rw [fill, assignAt_eq bytes first]
      exact ran
    · rw [at_ j inside, Vector.getElem_set]
      by_cases here : i = j
      · rw [if_neg (by omega), if_pos here, if_pos (by omega)]
      · rw [if_neg here]
        by_cases behind : i + 1 ≤ j ∧ j < i + 1 + passes
        · rw [if_pos behind, if_pos (by omega)]
        · rw [if_neg behind, if_neg (by omega)]

/-- One byte is changed, and those behind it are set. -/
theorem change_spec (f : BitVec 8 → BitVec 8) (b : BitVec 8) (bytes : Bytes) {k : Nat} (inside : k < 16) :
    ∃ changed, (do fill b (16 - (k + 1)) (k + 1) (← assignAt bytes k f)) = some changed ∧
      ∀ j, (at_ : j < 16) → changed[j] = if j < k then bytes[j] else if j = k then f bytes[j] else b := by
  obtain ⟨changed, ran, at_⟩ := fill_spec b (bytes.set k (f bytes[k]))
    (show k + 1 + (16 - (k + 1)) ≤ 16 by omega)
  refine ⟨changed, ?_, fun j below => ?_⟩
  · rw [assignAt_eq bytes inside]
    exact ran
  · rw [at_ j below, Vector.getElem_set]
    rcases Nat.lt_trichotomy j k with before | rfl | behind
    · rw [if_neg (by omega), if_neg (by omega), if_pos before]
    · rw [if_neg (by omega), if_pos rfl, if_neg (by omega), if_pos rfl]
    · rw [if_pos (by omega), if_neg (by omega), if_neg (by omega)]

namespace IPv6Address

section Prefix

variable {prefixLen : UInt32}

/-- The mask for the byte that the prefix ends in. -/
theorem createMask_byte (wraps : Bool) (prefixLen : UInt32) :
    ∃ h, createMask wraps 8 (prefixLen % 8) = some h ∧ Low h (8 - prefixLen.toNat % 8) := by
  have rest : (prefixLen % 8).toNat = prefixLen.toNat % 8 := UInt32.toNat_mod ..
  have small : prefixLen.toNat % 8 < 8 := Nat.mod_lt _ (by decide)
  refine ⟨BitVec.ofNat 8 (2 ^ (8 - prefixLen.toNat % 8) - 1), ?_, low_two_pow_sub_one 8 _⟩
  rw [createMask_eq wraps (by decide) (by omega), rest, if_neg (by omega)]

theorem toNat_div_eight (prefixLen : UInt32) : (prefixLen / 8).toNat = prefixLen.toNat / 8 :=
  UInt32.toNat_div ..

theorem broadcastAddress_spec {wraps : Bool} (a : IPv6Address) {h : BitVec 8}
    (mask : createMask wraps 8 (prefixLen % 8) = some h) (inside : prefixLen.toNat / 8 < 16) :
    ∃ broadcast, broadcastAddress wraps a prefixLen = some broadcast ∧ ∀ i, (at_ : i < 16) →
      broadcast.sin6Addr[i] = if i < prefixLen.toNat / 8 then a.sin6Addr[i]
        else if i = prefixLen.toNat / 8 then a.sin6Addr[i] ||| h else 0xff := by
  obtain ⟨changed, ran, at_⟩ := change_spec (· ||| h) 0xff a.sin6Addr inside
  refine ⟨{ a with sin6Addr := changed }, ?_, at_⟩
  simp only [assignAt_eq _ inside, bind, Option.bind_some] at ran
  simp only [broadcastAddress, mask, toNat_div_eight, assignAt_eq _ inside, bind, Option.bind_some, ran]
  rfl

theorem networkAddress_spec {wraps : Bool} (a : IPv6Address) {h : BitVec 8}
    (mask : createMask wraps 8 (prefixLen % 8) = some h) (inside : prefixLen.toNat / 8 < 16) :
    ∃ network, networkAddress wraps a prefixLen = some network ∧ ∀ i, (at_ : i < 16) →
      network.sin6Addr[i] = if i < prefixLen.toNat / 8 then a.sin6Addr[i]
        else if i = prefixLen.toNat / 8 then a.sin6Addr[i] &&& h else 0x00 := by
  obtain ⟨changed, ran, at_⟩ := change_spec (· &&& h) 0x00 a.sin6Addr inside
  refine ⟨{ a with sin6Addr := changed }, ?_, at_⟩
  simp only [assignAt_eq _ inside, bind, Option.bind_some] at ran
  simp only [networkAddress, mask, toNat_div_eight, assignAt_eq _ inside, bind, Option.bind_some, ran]
  rfl

theorem subnetMask_spec {wraps : Bool} {h : BitVec 8}
    (mask : createMask wraps 8 (prefixLen % 8) = some h) (inside : prefixLen.toNat / 8 < 16) :
    ∃ mask, subnetMask wraps prefixLen = some mask ∧ ∀ i, (at_ : i < 16) →
      mask.sin6Addr[i] = if i < prefixLen.toNat / 8 then 0xff
        else if i = prefixLen.toNat / 8 then ~~~h else 0x00 := by
  obtain ⟨filled, ran, at_⟩ := fill_spec 0xff
    ((Vector.replicate 16 0 : Bytes).set (prefixLen.toNat / 8) (~~~h))
    (show 0 + prefixLen.toNat / 8 ≤ 16 by omega)
  refine ⟨⟨afInet6, 0, 0, filled, 0⟩, ?_, fun i below => ?_⟩
  · simp only [subnetMask, mask, toNat_div_eight, assignAt_eq _ inside, bind, Option.bind_some, ran]
    rfl
  · change filled[i] = _
    rw [at_ i below, Vector.getElem_set, Vector.getElem_replicate]
    rcases Nat.lt_trichotomy i (prefixLen.toNat / 8) with before | here | behind
    · rw [if_pos (by omega), if_pos before]
    · rw [if_neg (by omega), if_pos here.symm, if_neg (by omega), if_pos here]
    · rw [if_neg (by omega), if_neg (by omega), if_neg (by omega), if_neg (by omega)]

theorem subnetMask_outside {wraps : Bool} (outside : 16 ≤ prefixLen.toNat / 8) :
    subnetMask wraps prefixLen = none := by
  obtain ⟨h, mask, -⟩ := createMask_byte wraps prefixLen
  have access : ∀ bytes f, assignAt bytes (prefixLen.toNat / 8) f = none := fun bytes f =>
    dif_neg (Nat.not_lt.mpr outside)
  simp only [subnetMask, mask, toNat_div_eight, access, bind, Option.bind_some, Option.bind_none]

end Prefix

/-- Of a mask as `subnetMask_spec` has it, the bits of the prefix are set and no others. -/
theorem leading_byte {prefixLen : UInt32} {h m : BitVec 8} {i j : Nat}
    (low : Low h (8 - prefixLen.toNat % 8)) (bit : j < 8)
    (at_ : m = if i < prefixLen.toNat / 8 then 0xff else if i = prefixLen.toNat / 8 then ~~~h else 0) :
    m.getMsbD j = decide (8 * i + j < prefixLen.toNat) := by
  have ones : (0xff : BitVec 8) = BitVec.allOnes 8 := rfl
  have few : 8 - (8 - prefixLen.toNat % 8) = prefixLen.toNat % 8 := by omega
  have leading := low.leading_not (Nat.sub_le 8 _)
  rw [few] at leading
  rw [at_]
  rcases Nat.lt_trichotomy i (prefixLen.toNat / 8) with before | here | behind
  · rw [if_pos before, ones, BitVec.getMsbD_allOnes, decide_eq_decide]
    omega
  · rw [if_neg (by omega), if_pos here, leading j bit, decide_eq_decide]
    omega
  · have dark : (0 : BitVec 8).getMsbD j = false := BitVec.getMsbD_zero
    rw [if_neg (by omega), if_neg (by omega), dark, eq_comm, decide_eq_false_iff_not]
    omega

/-- The byte that the prefix ends in is the only one of the network that can be wrong. -/
theorem network_byte_iff {k i : Nat} (b h : BitVec 8) :
    ((if i < k then b else if i = k then b &&& h else 0x00) =
      b &&& if i < k then 0xff else if i = k then ~~~h else 0x00) ↔ (i = k → b = 0) := by
  have ones : (0xff : BitVec 8) = BitVec.allOnes 8 := rfl
  rcases Nat.lt_trichotomy i k with before | here | behind
  · rw [if_pos before, if_pos before, ones, BitVec.and_allOnes]
    exact iff_of_true rfl fun same => absurd same (by omega)
  · rw [if_neg (by omega), if_pos here, if_neg (by omega), if_pos here, and_eq_and_not_iff]
    exact ⟨fun zero _ => zero, fun zero => zero here⟩
  · rw [if_neg (by omega), if_neg (by omega), if_neg (by omega), if_neg (by omega)]
    exact iff_of_true BitVec.and_zero.symm fun same => absurd same (by omega)

theorem broadcast_byte {k i : Nat} {b : BitVec 8} (h : BitVec 8) (zero : i = k → b = 0) :
    (if i < k then b else if i = k then b ||| h else 0xff) =
      (if i < k then b else if i = k then b &&& h else 0x00) |||
        ~~~(if i < k then 0xff else if i = k then ~~~h else 0x00) := by
  rcases Nat.lt_trichotomy i k with before | here | behind
  · rw [if_pos before, if_pos before, if_pos before]
    exact BitVec.or_zero.symm
  · rw [if_neg (by omega), if_pos here, if_neg (by omega), if_pos here, if_neg (by omega),
      if_pos here, zero here, BitVec.not_not]
    simp
  · rw [if_neg (by omega), if_neg (by omega), if_neg (by omega), if_neg (by omega),
      if_neg (by omega), if_neg (by omega)]
    rfl

/-- The three functions do what they should exactly if the prefix ends in a byte of the address,
and this byte is 0: then it makes no difference which part of it is kept. -/
theorem ipv6_subnets_iff (wraps : Bool) (a : IPv6Address) (prefixLen : UInt32) :
    (∃ mask network broadcast, Subnets wraps a prefixLen mask network broadcast) ↔
      ∃ i, ∃ inside : i < 16, i = prefixLen.toNat / 8 ∧ a.sin6Addr[i] = 0 := by
  obtain ⟨h, some_, low⟩ := createMask_byte wraps prefixLen
  constructor
  · rintro ⟨mask, network, broadcast, subnets⟩
    have inside : prefixLen.toNat / 8 < 16 := by
      by_contra outside
      have undefined := subnets.maskIs
      rw [subnetMask_outside (Nat.not_lt.mp outside)] at undefined
      cases undefined
    obtain ⟨mask', maskIs, maskAt⟩ := subnetMask_spec some_ inside
    obtain ⟨network', networkIs, networkAt⟩ := networkAddress_spec a some_ inside
    have maskSame : mask = mask' := Option.some.inj (subnets.maskIs.symm.trans maskIs)
    have networkSame : network = network' :=
      Option.some.inj (subnets.networkIs.symm.trans networkIs)
    subst maskSame networkSame
    have kept := subnets.network_eq _ inside
    rw [networkAt _ inside, maskAt _ inside, network_byte_iff] at kept
    exact ⟨_, inside, rfl, kept rfl⟩
  · rintro ⟨k, inside, rfl, zero⟩
    obtain ⟨mask, maskIs, maskAt⟩ := subnetMask_spec some_ inside
    obtain ⟨network, networkIs, networkAt⟩ := networkAddress_spec a some_ inside
    obtain ⟨broadcast, broadcastIs, broadcastAt⟩ := broadcastAddress_spec a some_ inside
    have zero_ : ∀ i, (at_ : i < 16) → i = prefixLen.toNat / 8 → a.sin6Addr[i] = 0 := by
      rintro _ _ rfl
      exact zero
    refine ⟨mask, network, broadcast, maskIs, networkIs, broadcastIs, fun i j at_ bit => ?_,
      fun i at_ => ?_, fun i at_ => ?_⟩
    · exact leading_byte low bit (maskAt i at_)
    · rw [networkAt i at_, maskAt i at_]
      exact (network_byte_iff _ h).mpr (zero_ i at_)
    · rw [broadcastAt i at_, networkAt i at_, maskAt i at_]
      exact broadcast_byte h (zero_ i at_)

/-- The network of 2001:db8::1/16 comes out as 2001:d00::. -/
theorem networkAddress_keeps_byte :
    let a : IPv6Address :=
      ⟨afInet6, 0, 0, #v[0x20, 0x01, 0x0d, 0xb8, 0, 0, 0, 0, 0, 0, 0, 0, 0, 0, 0, 1], 0⟩
    (networkAddress true a 16).map (·.sin6Addr.toList.take 4) = some [0x20, 0x01, 0x0d, 0] ∧
      ¬ ∃ mask network broadcast, Subnets true a 16 mask network broadcast := by
  intro a
  refine ⟨by decide, ?_⟩
  rintro ⟨mask, network, broadcast, subnets⟩
  have maskAt : (subnetMask true 16).map (·.sin6Addr[2]) = some 0 := by decide
  have networkAt : (networkAddress true a 16).map (·.sin6Addr[2]) = some 0x0d := by decide
  rw [subnets.maskIs, Option.map_some, Option.some.injEq] at maskAt
  rw [subnets.networkIs, Option.map_some, Option.some.injEq] at networkAt
  have kept := subnets.network_eq 2 (by decide)
  rw [maskAt, networkAt] at kept
  revert kept
  decide

end IPv6Address

end ServerFrame.Subnet
