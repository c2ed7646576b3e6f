import MzQuic.Connection.Output
import MzQuic.Proto.Encode
import MzQuic.Proto.Header

/-!
# The bytes of a scheduled packet

* `txBytes`: the header that `poll_transmit` writes; `decode_txBytes`: it is read back, and what
  follows it is the payload;
* `startPacket_buf`: a packet begins with it.
-/

namespace MzQuic

open Lib

/-! ## Headers -/

namespace Connection

/-- The first byte of the header of a packet. -/
def firstByte (id : SpaceId) (number : PacketNumber) : UInt8 :=
  match id with
  | .initial => LongHeaderType.initial.toByte ||| number.tag
  | .handshake => (LongHeaderType.standard .handshake).toByte ||| number.tag
  | .data => fixedBit ||| 0 ||| 0 ||| number.tag

/-- `FAKE_CID` with its length. -/
def cidBytes : Bytes := beBytes 1 fakeCid.bytes.length ++ fakeCid.bytes

/-- The header that `poll_transmit` writes. -/
def txBytes (id : SpaceId) (number : PacketNumber) : Bytes :=
  firstByte id number :: match id with
    | .initial => beBytes 4 1 ++ (cidBytes ++ (cidBytes ++ ((varintBytes 0 ++ []) ++
        (varintBytes number.len ++ beBytes number.len number.truncated))))
    | .handshake => beBytes 4 1 ++ (cidBytes ++ (cidBytes ++ (varintBytes number.len ++
        beBytes number.len number.truncated)))
    | .data => fakeCid.bytes ++ beBytes number.len number.truncated

theorem txBytes_eq (id : SpaceId) (number : PacketNumber) : txBytes id number = (txHeader id number).bytes := by
  cases id <;> rfl

theorem txHeader_valid (id : SpaceId) (number : PacketNumber) :
    (txHeader id number).Valid fakeCid.bytes.length supportedVersions := by
  have hversion : Header.Supported supportedVersions 1 := ⟨by decide, by decide, by decide⟩
  cases id with
  | initial => exact ⟨hversion, show ([] : Bytes).length < 2 ^ 62 by decide⟩
  | handshake => exact hversion
  | data => rfl

theorem appends_txHeader (id : SpaceId) (number : PacketNumber) :
    Appends (txHeader id number).encode (txBytes id number) := by
  rw [txBytes_eq]
  exact Header.appends_encode (txHeader_valid id number)

/-- **The header of a packet is read back**, up to the bits that its number is cut to, and the payload
is what follows it. -/
theorem decode_txBytes (id : SpaceId) (number : PacketNumber) (s : Bytes) : ∃ header : Header,
    header.space = id ∧
      Header.decode fakeCid.bytes.length supportedVersions (txBytes id number ++ s) = .ok (.ok header, s) := by
  refine ⟨(txHeader id number).wire, by cases id <;> rfl, ?_⟩
  rw [txBytes_eq]
  exact Header.decode_bytes (txHeader_valid id number) s

/-- A new packet begins with its header. -/
theorem startPacket_buf {c c' : Connection} {id : SpaceId} {n : ℕ} {buf : BufMut}
    (h : c.startPacket id = .ok (n, c', buf)) :
    ∃ number, (txBytes id number).length ≤ initialMtu ∧
      buf = (BufMut.withCapacity initialMtu).append (txBytes id number) := by
  obtain ⟨⟨n', space⟩, -, h⟩ := Checked.bind_eq_ok.mp h
  obtain ⟨number, -, h⟩ := Checked.bind_eq_ok.mp h
  obtain ⟨buf', he, h⟩ := Checked.bind_eq_ok.mp h
  cases h
  exact ⟨number, (appends_txHeader id number).eq_ok he⟩

end Connection

end MzQuic
