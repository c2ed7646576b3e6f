import MzQuic.Proto.Common

/-!
# Packet headers (`proto/src/packet.rs`)

* `PacketNumber`: truncated packet numbers, with `new`, `expand`, `encode` and `decode`; the model of a
  connection takes `new` and `expand` on `ℕ`, and `newU64` and `expandU64` have the overflow checks;
* `Header`, with `encode` and `decode`.
-/

namespace MzQuic

open Lib

/-- `PacketDecodeError`. -/
inductive PacketDecodeError
  | unsupportedVersion (srcCid dstCid : ConnectionId) (version : ℕ)
  | unexpectedEndOfHeader (e : TryGetError)
  | reservedBitsSet
  | fixedBitUnset
  deriving DecidableEq

def longHeaderForm : UInt8 := 0x80
def fixedBit : UInt8 := 0x40
def spinBit : UInt8 := 0x20
def shortReservedBits : UInt8 := 0x18
def longReservedBits : UInt8 := 0x0c
def keyPhaseBit : UInt8 := 0x04

/-- `LongType`. -/
inductive LongType
  | handshake
  | zeroRtt
  deriving DecidableEq, Repr

/-- `LongHeaderType`. -/
inductive LongHeaderType
  | initial
  | retry
  | standard (ty : LongType)
  deriving DecidableEq, Repr

/-- `LongHeaderType::from(u8)`. -/
def LongHeaderType.ofByte (b : UInt8) : Checked LongHeaderType := do
  Checked.assert (b &&& longHeaderForm ≠ 0)
  match ((b &&& 0x30) >>> 4).toNat with
  | 0x0 => return .initial
  | 0x1 => return .standard .zeroRtt
  | 0x2 => return .standard .handshake
  | 0x3 => return .retry
  | _ => .error .unreachable

/-- `u8::from(LongHeaderType)`. -/
def LongHeaderType.toByte : LongHeaderType → UInt8
  | .initial => longHeaderForm ||| fixedBit
  | .standard .zeroRtt => longHeaderForm ||| fixedBit ||| ((0x1 : UInt8) <<< 4)
  | .standard .handshake => longHeaderForm ||| fixedBit ||| ((0x2 : UInt8) <<< 4)
  | .retry => longHeaderForm ||| fixedBit ||| ((0x3 : UInt8) <<< 4)

theorem LongHeaderType.ofByte_total {first : UInt8} (h : first &&& longHeaderForm ≠ 0) :
    ∃ ty, LongHeaderType.ofByte first = .ok ty := by
  have hlt : ((first &&& 0x30) >>> 4).toNat < 4 := by
    have h1 : (first &&& 0x30).toNat ≤ 0x30 := by
      rw [UInt8.toNat_and]; exact Nat.and_le_right
    have h2 : ((first &&& 0x30) >>> 4).toNat = (first &&& 0x30).toNat / 16 := by
      simp [Nat.shiftRight_eq_div_pow]
    omega
  unfold LongHeaderType.ofByte
  rw [Checked.assert_of h, Checked.ok_bind]
  generalize ((first &&& 0x30) >>> 4).toNat = k at hlt
  interval_cases k <;> exact ⟨_, rfl⟩

/-- `SpaceId`. -/
inductive SpaceId
  | initial
  | handshake
  | data
  deriving DecidableEq, Repr

/-- The discriminant of a space, by which spaces are ordered. -/
def SpaceId.toNat : SpaceId → ℕ
  | .initial => 0
  | .handshake => 1
  | .data => 2

/-- `SpaceId::VARIANTS`. -/
def SpaceId.variants : List SpaceId := [.initial, .handshake, .data]

theorem SpaceId.mem_variants (id : SpaceId) : id ∈ SpaceId.variants := by
  cases id <;> decide

/-! ## Packet numbers -/

/-- `PacketNumber`. -/
inductive PacketNumber
  | u8 (x : ℕ)
  | u16 (x : ℕ)
  | u24 (x : ℕ)
  | u32 (x : ℕ)
  deriving DecidableEq, Repr

namespace PacketNumber

/-- `PacketNumber::new`. -/
def new (n largestAcked : ℕ) : Checked PacketNumber := do
  let d ← Checked.sub n largestAcked
  let range := d * 2
  if range < 1 <<< 8 then return .u8 (n % 2 ^ 8)
  else if range < 1 <<< 16 then return .u16 (n % 2 ^ 16)
  else if range < 1 <<< 24 then return .u24 (n % 2 ^ 32)
  else if range < 1 <<< 32 then return .u32 (n % 2 ^ 32)
  else .error .explicit

/-- `PacketNumber::new` with the arithmetic of `u64`. -/
def newU64 (n largestAcked : ℕ) : Checked PacketNumber := do
  let d ← Checked.sub n largestAcked
  let range ← Checked.mul 64 d 2
  if range < 1 <<< 8 then return .u8 (n % 2 ^ 8)
  else if range < 1 <<< 16 then return .u16 (n % 2 ^ 16)
  else if range < 1 <<< 24 then return .u24 (n % 2 ^ 32)
  else if range < 1 <<< 32 then return .u32 (n % 2 ^ 32)
  else .error .explicit

/-- `PacketNumber::len`. -/
def len : PacketNumber → ℕ
  | u8 _ => 1
  | u16 _ => 2
  | u24 _ => 3
  | u32 _ => 4

/-- The truncated number. -/
def truncated : PacketNumber → ℕ
  | u8 x | u16 x | u24 x | u32 x => x

/-- `PacketNumber::encode`. -/
def encode (pn : PacketNumber) (out : BufMut) : Checked BufMut := out.putUint pn.len pn.truncated

/-- `PacketNumber::decode`. -/
def decode (len : ℕ) : Get PacketDecodeError PacketNumber :=
  match len with
  | 1 => return u8 (← Get.mapError .unexpectedEndOfHeader (Get.tryGetUint 1))
  | 2 => return u16 (← Get.mapError .unexpectedEndOfHeader (Get.tryGetUint 2))
  | 3 => return u24 (← Get.mapError .unexpectedEndOfHeader (Get.tryGetUint 3))
  | 4 => return u32 (← Get.mapError .unexpectedEndOfHeader (Get.tryGetUint 4))
  | _ => Get.panic .unreachable

/-- `PacketNumber::decode_len`. -/
def decodeLen (tag : UInt8) : ℕ := 1 + (tag &&& 0x03).toNat

/-- `PacketNumber::tag`. -/
def tag : PacketNumber → UInt8
  | u8 _ => 0b00
  | u16 _ => 0b01
  | u24 _ => 0b10
  | u32 _ => 0b11

/-- `PacketNumber::expand`. -/
def expand (pn : PacketNumber) (expected : ℕ) : ℕ :=
  let win := 1 <<< (pn.len * 8)
  let hwin := win / 2
  -- `expected & !mask`, where `mask` is `win - 1`
  let candidate := (expected - expected % win) ||| pn.truncated
  if hwin ≤ expected ∧ candidate ≤ expected - hwin then candidate + win
  else if candidate > expected + hwin ∧ candidate > win then candidate - win
  else candidate

/-- `PacketNumber::expand` with the arithmetic of `u64`. -/
def expandU64 (pn : PacketNumber) (expected : ℕ) : Checked ℕ := do
  let win := 1 <<< (pn.len * 8)
  let hwin := win / 2
  let candidate := (expected - expected % win) ||| pn.truncated
  if hwin ≤ expected ∧ candidate ≤ expected - hwin then Checked.add 64 candidate win
  else
    let high ← Checked.add 64 expected hwin
    if candidate > high ∧ candidate > win then Checked.sub candidate win
    else return candidate

end PacketNumber

/-! ## Headers -/

/-- `InitialHeader`. -/
structure InitialHeader where
  dstCid : ConnectionId
  srcCid : ConnectionId
  token : Bytes
  number : PacketNumber
  version : ℕ
  deriving DecidableEq

/-- `Header`. -/
inductive Header
  | initial (h : InitialHeader)
  | long (ty : LongType) (dstCid srcCid : ConnectionId) (number : PacketNumber) (version : ℕ)
  | retry (dstCid srcCid : ConnectionId) (version : ℕ)
  | short (spin keyPhase : Bool) (dstCid : ConnectionId) (number : PacketNumber)
  | versionNegotiate (random : UInt8) (srcCid dstCid : ConnectionId)
  deriving DecidableEq

namespace Header

/-- `Header::number`. -/
def number : Header → Option PacketNumber
  | initial h => some h.number
  | long _ _ _ number _ => some number
  | short _ _ _ number => some number
  | _ => none

/-- `Header::space`. -/
def space : Header → SpaceId
  | short .. => .data
  | long .zeroRtt .. => .data
  | long .handshake .. => .handshake
  | _ => .initial

/-- `Header::is_short`. -/
def isShort : Header → Bool
  | short .. => true
  | _ => false

/-- `Header::encode`. -/
def encode (h : Header) (out : BufMut) : Checked BufMut :=
  match h with
  | initial h => do
    let out ← out.putSlice [LongHeaderType.initial.toByte ||| h.number.tag]
    let out ← out.putUint 4 h.version
    let out ← h.dstCid.encode out
    let out ← h.srcCid.encode out
    let out ← putBytesWithVarintLength h.token out
    let out ← putVarint h.number.len out
    h.number.encode out
  | long ty dstCid srcCid number version => do
    let out ← out.putSlice [(LongHeaderType.standard ty).toByte ||| number.tag]
    let out ← out.putUint 4 version
    let out ← dstCid.encode out
    let out ← srcCid.encode out
    let out ← putVarint number.len out
    number.encode out
  | retry dstCid srcCid version => do
    let out ← out.putSlice [LongHeaderType.retry.toByte]
    let out ← out.putUint 4 version
    let out ← dstCid.encode out
    srcCid.encode out
  | short spin keyPhase dstCid number => do
    let out ← out.putSlice [fixedBit ||| (if keyPhase then keyPhaseBit else 0) |||
      (if spin then spinBit else 0) ||| number.tag]
    let out ← out.putSlice dstCid.bytes
    number.encode out
  | versionNegotiate random srcCid dstCid => do
    let out ← out.putSlice [0x80 ||| random]
    let out ← out.putUint 4 0
    let out ← dstCid.encode out
    srcCid.encode out

/-- `buf.try_get_…()?` in `decode`. -/
def get {α : Type} (x : Get TryGetError α) : Get PacketDecodeError α :=
  Get.mapError .unexpectedEndOfHeader x

/-- The part of `decode` after the connection ids of a long header. -/
def decodeLong (ty : LongHeaderType) (first : UInt8) (version : ℕ) (dstCid srcCid : ConnectionId) :
    Get PacketDecodeError Header :=
  match ty with
  | .initial => do
    let token ← get tryGetBytesWithVarintLength
    let _ ← get tryGetVarint
    let number ← PacketNumber.decode (PacketNumber.decodeLen first)
    return initial ⟨dstCid, srcCid, token, number, version⟩
  | .retry => return retry dstCid srcCid version
  | .standard ty => do
    let _ ← get tryGetVarint
    let number ← PacketNumber.decode (PacketNumber.decodeLen first)
    return long ty dstCid srcCid number version

/-- `Header::decode`. -/
def decode (cidLen : ℕ) (supportedVersions : List ℕ) : Get PacketDecodeError Header := do
  let first ← get Get.tryGetU8
  if first &&& fixedBit = 0 then Get.fail .fixedBitUnset
  else if first &&& longHeaderForm = 0 then
    if first &&& shortReservedBits ≠ 0 then Get.fail .reservedBitsSet
    else do
      let dstCid ← get (ConnectionId.fromBuf cidLen)
      let number ← PacketNumber.decode (PacketNumber.decodeLen first)
      return short (first &&& spinBit ≠ 0) (first &&& keyPhaseBit ≠ 0) dstCid number
  else if first &&& longReservedBits ≠ 0 then Get.fail .reservedBitsSet
  else do
    let ty ← Get.lift (LongHeaderType.ofByte first)
    let version ← get (Get.tryGetUint 4)
    let dstCid ← get ConnectionId.decode
    let srcCid ← get ConnectionId.decode
    if version = 0 then return versionNegotiate (first &&& ~~~longHeaderForm) srcCid dstCid
    else if version ∉ supportedVersions then Get.fail (.unsupportedVersion srcCid dstCid version)
    else decodeLong ty first version dstCid srcCid

end Header

/-- `Packet`. -/
structure Packet where
  header : Header
  payload : Bytes
  deriving DecidableEq

end MzQuic
