import MzQuic.Connection.Common
import MzQuic.Lib.OrdMap
import MzQuic.Proto.Packet

/-!
# Packet number spaces (`core/src/connection/space.rs`)

* `Dedup`: the sliding window over the packet numbers received;
* `PendingAcks`: the packet numbers to acknowledge, at most `maxAckBlocks` ranges of them;
* `SentPacket`, `PacketSpace`: what is known of each packet sent and neither acknowledged nor lost.

An `Instant` is the number of nanoseconds since the origin of the clock, a `Duration` a number of
nanoseconds. Neither they nor the sums of packet sizes are bounded above.
-/

namespace MzQuic

open Lib

/-- `tokio::time::Instant`. -/
abbrev Instant := ℕ

/-- `std::time::Duration`. -/
abbrev Duration := ℕ

/-- `Duration::from_micros`. -/
def Duration.fromMicros (n : ℕ) : Duration := n * 1000

/-- `Duration::from_millis`. -/
def Duration.fromMillis (n : ℕ) : Duration := n * 1000000

/-- `Duration::as_micros`. -/
def Duration.asMicros (d : Duration) : ℕ := d / 1000

/-- `Instant::checked_sub`. -/
def Instant.checkedSub (t : Instant) (d : Duration) : Option Instant :=
  if d ≤ t then some (t - d) else none

/-! ## Duplicates -/

/-- `Dedup`. -/
structure Dedup where
  window : BitVec 128
  next : ℕ
  deriving DecidableEq

/-- `WINDOW_SIZE`. -/
def windowSize : ℕ := 1 + 128

namespace Dedup

/-- `Dedup::new`. -/
def new : Dedup := ⟨0, 0⟩

/-- `Dedup::highest`, which is called only if some packet was received. -/
def highest (d : Dedup) : ℕ := d.next - 1

/-- `u128::checked_shl`, with `None` turned into 0. -/
def checkedShl (x : BitVec 128) (n : ℕ) : BitVec 128 := if n < 128 then x <<< n else 0

/-- `Dedup::insert`: whether the packet might be a duplicate. -/
def insert (d : Dedup) (packet : ℕ) : Bool × Dedup :=
  if d.next ≤ packet then
    -- right of the window
    let diff := packet - d.next
    (false, ⟨checkedShl ((d.window <<< 1) ||| 1) (min diff (2 ^ 32 - 1)), packet + 1⟩)
  else if d.highest - packet < windowSize then
    if 1 ≤ d.highest - packet then
      let mask : BitVec 128 := 1 <<< (d.highest - packet - 1)
      (d.window &&& mask ≠ 0, { d with window := d.window ||| mask })
    else (true, d)
  else (true, d)

/-- Whether `smallest_missing_in_interval` takes a packet as received. -/
def isReceived (d : Dedup) (pn : ℕ) : Bool :=
  if d.next ≤ pn then false
  else if d.highest = pn then true
  else
    let bit := d.highest - pn - 1
    if windowSize - 1 ≤ bit then true else d.window &&& (1 <<< bit) ≠ 0

/-- `Dedup::smallest_missing_in_interval`. -/
def smallestMissingInInterval (d : Dedup) (lowerBound upperBound : ℕ) : Option ℕ :=
  (List.range' lowerBound (upperBound - lowerBound)).find? fun pn => !d.isReceived pn

/-- `Dedup::missing_in_interval`. -/
def missingInInterval (d : Dedup) (lowerBound upperBound : ℕ) : Bool :=
  (d.smallestMissingInInterval lowerBound upperBound).isSome

/-- `Dedup::highest` with the arithmetic of `u64`. -/
def highestU64 (d : Dedup) : Checked ℕ := Checked.sub d.next 1

/-- `Dedup::insert` with the arithmetic of `u64`. -/
def insertU64 (d : Dedup) (packet : ℕ) : Checked (Bool × Dedup) :=
  if d.next ≤ packet then do
    let next ← Checked.add 64 packet 1
    let diff := packet - d.next
    return (false, ⟨checkedShl ((d.window <<< 1) ||| 1) (min diff (2 ^ 32 - 1)), next⟩)
  else do
    let highest ← d.highestU64
    let back ← Checked.sub highest packet
    if back < windowSize then
      if 1 ≤ back then
        let mask : BitVec 128 := 1 <<< (back - 1)
        return (d.window &&& mask ≠ 0, { d with window := d.window ||| mask })
      else return (true, d)
    else return (true, d)

/-- `isReceived` with the arithmetic of `u64`. -/
def isReceivedU64 (d : Dedup) (pn : ℕ) : Checked Bool :=
  if d.next ≤ pn then .ok false
  else do
    let highest ← d.highestU64
    if highest = pn then return true
    else
      let back ← Checked.sub highest pn
      let bit ← Checked.sub back 1
      return if windowSize - 1 ≤ bit then true else d.window &&& (1 <<< bit) ≠ 0

/-- The `for` of `smallest_missing_in_interval`. -/
def missingLoop (d : Dedup) : List ℕ → Checked (Option ℕ)
  | [] => .ok none
  | pn :: rest => do
    if ← d.isReceivedU64 pn then d.missingLoop rest else return some pn

/-- `Dedup::smallest_missing_in_interval` with the arithmetic of `u64`. -/
def smallestMissingInIntervalU64 (d : Dedup) (lowerBound upperBound : ℕ) : Checked (Option ℕ) :=
  d.missingLoop (List.range' lowerBound (upperBound - lowerBound))

end Dedup

/-! ## Packets to acknowledge -/

/-- `MAX_ACK_BLOCKS`. -/
def maxAckBlocks : ℕ := 64

/-- `PendingAcks`. -/
structure PendingAcks where
  immediateAckRequired : Bool := false
  ackElicitingSinceLastAckSent : ℕ := 0
  nonAckElicitingSinceLastAckSent : ℕ := 0
  ackElicitingThreshold : ℕ := 1
  reorderingThreshold : ℕ := 1
  earliestAckElicitingSinceLastAckSent : Option Instant := none
  ranges : ArrayRangeSet := ArrayRangeSet.new
  largestPacket : Option (ℕ × Instant) := none
  largestAckElicitingPacket : Option ℕ := none
  largestAcked : Option ℕ := none

namespace PendingAcks

/-- `PendingAcks::new`. -/
def new : PendingAcks := {}

/-- `PendingAcks::set_immediate_ack_required`. -/
def setImmediateAckRequired (a : PendingAcks) : PendingAcks := { a with immediateAckRequired := true }

/-- `PendingAcks::on_ack_delay_timeout`. -/
def onAckDelayTimeout (a : PendingAcks) : PendingAcks :=
  { a with immediateAckRequired := a.ackElicitingSinceLastAckSent > 0 }

/-- `PendingAcks::can_send`. -/
def canSend (a : PendingAcks) : Bool := a.immediateAckRequired && !a.ranges.isEmpty

/-- `PendingAcks::ack_delay`; the subtraction of instants saturates. -/
def ackDelay (a : PendingAcks) (now : Instant) : Duration :=
  match a.largestPacket with
  | some (_, received) => now - received
  | none => 0

/-- `PendingAcks::insert_one`. -/
def insertOne (a : PendingAcks) (packet : ℕ) (now : Instant) : PendingAcks :=
  let ranges := (a.ranges.insertOne packet).2
  { a with
    largestPacket := if a.largestPacket.all (·.1 < packet) then some (packet, now) else a.largestPacket
    ranges := if ranges.len > maxAckBlocks then ranges.popMin.2 else ranges }

/-- `PendingAcks::subtract_below`. -/
def subtractBelow (a : PendingAcks) (max : ℕ) : PendingAcks :=
  { a with ranges := (a.ranges.remove ⟨0, max + 1⟩).2 }

/-- `PendingAcks::is_out_of_order`. -/
def isOutOfOrder (a : PendingAcks) (packetNumber prevLargestAckEliciting : ℕ) (dedup : Dedup) : Bool :=
  if packetNumber < prevLargestAckEliciting then true
  else
    let lower := match a.largestAcked with
      | some n => n + 1
      | none => 0
    match a.reorderingThreshold with
    | 0 => false
    | 1 => dedup.missingInInterval lower packetNumber
    | threshold =>
      match dedup.smallestMissingInInterval lower packetNumber with
      | some missing => packetNumber - missing ≥ threshold
      | none => false

/-- The part of `packet_received` before an immediate ACK is considered. -/
def record (a : PendingAcks) (now : Instant) (packetNumber : ℕ) (ackEliciting : Bool) : PendingAcks :=
  let a := a.insertOne packetNumber now
  if ackEliciting then
    { a with
      ackElicitingSinceLastAckSent := a.ackElicitingSinceLastAckSent + 1
      largestAckElicitingPacket :=
        if a.largestAckElicitingPacket.all (· < packetNumber) then some packetNumber
        else a.largestAckElicitingPacket
      earliestAckElicitingSinceLastAckSent :=
        if a.earliestAckElicitingSinceLastAckSent.isNone then some now
        else a.earliestAckElicitingSinceLastAckSent }
  else { a with nonAckElicitingSinceLastAckSent := a.nonAckElicitingSinceLastAckSent + 1 }

/-- `PendingAcks::packet_received`: whether a delayed ACK timeout should be armed. -/
def packetReceived (a : PendingAcks) (now : Instant) (packetNumber : ℕ) (ackEliciting : Bool)
    (dedup : Dedup) : Bool × PendingAcks :=
  let prevLargestAckEliciting := a.largestAckElicitingPacket.getD 0
  let a := a.record now packetNumber ackEliciting
  if a.ackElicitingSinceLastAckSent > a.ackElicitingThreshold ||
      (ackEliciting && a.isOutOfOrder packetNumber prevLargestAckEliciting dedup) then
    (false, { a with immediateAckRequired := true })
  else (ackEliciting && !a.immediateAckRequired, a)

/-- `PendingAcks::acks_sent`. -/
def acksSent (a : PendingAcks) : PendingAcks :=
  { a with
    immediateAckRequired := false
    ackElicitingSinceLastAckSent := 0
    nonAckElicitingSinceLastAckSent := 0
    earliestAckElicitingSinceLastAckSent := none
    largestAcked := a.largestAckElicitingPacket }

/-- `LAZY_ACK_THRESHOLD`. -/
def lazyAckThreshold : ℕ := 10

/-- `PendingAcks::maybe_ack_non_eliciting`. -/
def maybeAckNonEliciting (a : PendingAcks) : PendingAcks :=
  if a.nonAckElicitingSinceLastAckSent > lazyAckThreshold then { a with immediateAckRequired := true } else a

end PendingAcks

/-! ## Spaces -/

/-- `SentPacket`. -/
structure SentPacket where
  timeSent : Instant
  size : ℕ
  ackEliciting : Bool
  largestAcked : Option ℕ
  retransmits : ThinRetransmits
  streamFrames : List StreamMeta
  number : ℕ
  spaceId : SpaceId
  deriving DecidableEq

/-- `SendableFrames`. -/
structure SendableFrames where
  acks : Bool
  other : Bool
  deriving DecidableEq

/-- `SendableFrames::is_empty`. -/
def SendableFrames.isEmpty (f : SendableFrames) : Bool := !f.acks && !f.other

/-- `PacketSpace`. -/
structure PacketSpace where
  hi : Bool := false
  dedup : Dedup := Dedup.new
  rxPacket : ℕ := 0
  pending : Retransmits := {}
  pendingAcks : PendingAcks := PendingAcks.new
  nextPacketNumber : ℕ := 0
  largestAckedPacket : Option ℕ := none
  largestAckedPacketSent : Instant
  largestAckElicitingSent : ℕ := 0
  unackedNonAckElicitingTail : ℕ := 0
  sentPackets : OrdMap SentPacket := ∅
  lossTime : Option Instant := none
  pingPending : Bool := false
  immediateAckPending : Bool := false
  inFlight : ℕ := 0

namespace PacketSpace

/-- `PacketSpace::new`. -/
def new (now : Instant) : PacketSpace := { largestAckedPacketSent := now }

/-- `PacketSpace::get_tx_number`. -/
def getTxNumber (s : PacketSpace) : Checked (ℕ × PacketSpace) := do
  Checked.assert (s.nextPacketNumber < 2 ^ 62)
  return (s.nextPacketNumber, { s with nextPacketNumber := s.nextPacketNumber + 1 })

/-- `PacketSpace::can_send`. -/
def canSend (s : PacketSpace) : SendableFrames where
  acks := s.pendingAcks.canSend
  other := !s.pending.isEmpty || s.pingPending || s.immediateAckPending

/-- `PacketSpace::take`. -/
def take (s : PacketSpace) (number : ℕ) : Checked (Option SentPacket × PacketSpace) :=
  match s.sentPackets.find? number with
  | none => .ok (none, s)
  | some packet => do
    let inFlight ← Checked.sub s.inFlight packet.size
    return (some packet, { s with sentPackets := s.sentPackets.erase number, inFlight := inFlight })

/-- `PacketSpace::sent`: how much to take off the path's count. -/
def sent (s : PacketSpace) (packet : SentPacket) : ℕ × PacketSpace :=
  let s := if packet.ackEliciting then
      { s with largestAckElicitingSent := packet.number, unackedNonAckElicitingTail := 0 }
    else if packet.number > s.largestAckElicitingSent then
      { s with unackedNonAckElicitingTail := s.unackedNonAckElicitingTail + 1 }
    else s
  (0, { s with
    inFlight := s.inFlight + packet.size
    sentPackets := s.sentPackets.insert packet.number packet })

/-- What the acknowledgement of a packet says about the ACKs it carried. -/
def ackedBy (s : PacketSpace) (packet : SentPacket) : PacketSpace :=
  match packet.largestAcked with
  | some n => { s with pendingAcks := s.pendingAcks.subtractBelow (n + 1) }
  | none => s

/-- The control data of a lost packet is to be sent again. -/
def requeue (s : PacketSpace) (packet : SentPacket) : PacketSpace :=
  match packet.retransmits with
  | some retransmits => { s with pending := s.pending.bitorAssign retransmits }
  | none => s

end PacketSpace

end MzQuic
