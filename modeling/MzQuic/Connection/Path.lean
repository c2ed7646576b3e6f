import Mathlib.Data.List.MinMax
import MzQuic.Connection.Space

/-!
# Network paths and timers (`core/src/connection/path.rs`, `timer.rs`)

* `RttEstimator`, `InFlight`, `NewReno`;
* `NetworkPath`: the queue of scheduled packets with `sendOne`, and `removeInFlight`;
* `TimerTable`, with `poll`, which takes the earliest timer that is due.
-/

namespace MzQuic

open Lib

/-- `INITIAL_MTU`. -/
def initialMtu : ℕ := 1472

/-- `MIN_RTT`. -/
def minRtt : Duration := Duration.fromMillis 333

/-! ## Round-trip times -/

/-- `RttEstimator`. -/
structure RttEstimator where
  latest : Duration
  smoothed : Option Duration
  var : Duration
  min : Duration
  deriving DecidableEq

namespace RttEstimator

/-- `RttEstimator::new`. -/
def new (initialRtt : Duration) : RttEstimator := ⟨initialRtt, none, initialRtt / 2, initialRtt⟩

/-- `RttEstimator::get`. -/
def get (r : RttEstimator) : Duration := r.smoothed.getD r.latest

/-- `RttEstimator::conservative`. -/
def conservative (r : RttEstimator) : Duration := Max.max r.get r.latest

/-- `RttEstimator::update`. -/
def update (r : RttEstimator) (ackDelay rtt : Duration) : RttEstimator :=
  let min := Min.min r.min rtt
  let adjustedRtt := if rtt > min + ackDelay then rtt - ackDelay else rtt
  match r.smoothed with
  | none => ⟨rtt, some adjustedRtt, adjustedRtt / 2, min⟩
  | some smoothed =>
    let diff := if smoothed > adjustedRtt then smoothed - adjustedRtt else adjustedRtt - smoothed
    ⟨rtt, some ((smoothed * 7 + adjustedRtt) / 8), (r.var * 3 + diff) / 4, min⟩

end RttEstimator

/-! ## Congestion control -/

/-- `InFlight`. -/
structure InFlight where
  bytes : ℕ := 0
  ackEliciting : ℕ := 0
  deriving DecidableEq

/-- `InFlight::insert`. -/
def InFlight.insert (f : InFlight) (packet : SentPacket) : InFlight :=
  ⟨f.bytes + packet.size, f.ackEliciting + packet.ackEliciting.toNat⟩

/-- `InFlight::remove`. -/
def InFlight.remove (f : InFlight) (packet : SentPacket) : Checked InFlight := do
  let bytes ← Checked.sub f.bytes packet.size
  let ackEliciting ← Checked.sub f.ackEliciting packet.ackEliciting.toNat
  return ⟨bytes, ackEliciting⟩

/-- `NewReno`. -/
structure NewReno where
  window : ℕ
  ssthresh : ℕ
  recoveryStartTime : Instant
  bytesAcked : ℕ
  deriving DecidableEq

namespace NewReno

/-- `NewReno::new`. -/
def new (now : Instant) : NewReno := ⟨10 * initialMtu, 2 ^ 64 - 1, now, 0⟩

/-- `NewReno::on_ack`. -/
def onAck (r : NewReno) (sent : Instant) (bytes : ℕ) (appLimited : Bool) : NewReno :=
  if appLimited then r
  else if sent ≤ r.recoveryStartTime then r
  else if r.window < r.ssthresh then { r with window := r.window + bytes }
  else
    let bytesAcked := r.bytesAcked + bytes
    if bytesAcked ≥ r.window then
      { r with bytesAcked := bytesAcked - r.window, window := r.window + initialMtu }
    else { r with bytesAcked := bytesAcked }

/-- `NewReno::on_congestion_event`. -/
def onCongestionEvent (r : NewReno) (now sent : Instant) : NewReno :=
  if sent ≤ r.recoveryStartTime then r
  else
    let ssthresh := max (r.window / 2) (2 * initialMtu)
    ⟨ssthresh, ssthresh, now, 0⟩

end NewReno

/-! ## Paths -/

/-- `ScheduledPacket`. -/
structure ScheduledPacket where
  packet : Bytes
  metaInfo : SentPacket
  deriving DecidableEq

/-- `NetworkPath`, without its socket and address. -/
structure NetworkPath where
  sendingQueue : List ScheduledPacket := []
  rtt : RttEstimator := RttEstimator.new minRtt
  congestion : NewReno
  inFlight : InFlight := {}
  firstPacket : Option ℕ := none

namespace NetworkPath

/-- `NetworkPath::new`. -/
def new (now : Instant) : NetworkPath := { congestion := NewReno.new now }

/-- `NetworkPath::remove_in_flight`. -/
def removeInFlight (p : NetworkPath) (pn : ℕ) (packet : SentPacket) : Checked (Bool × NetworkPath) :=
  if p.firstPacket.all (· > pn) then .ok (false, p)
  else do
    let inFlight ← p.inFlight.remove packet
    return (true, { p with inFlight := inFlight })

/-- What the congestion controller is told of an acknowledged packet. -/
def acked (p : NetworkPath) (removedFromPath : Bool) (packet : SentPacket) (appLimited : Bool) :
    NetworkPath :=
  if removedFromPath && packet.ackEliciting then
    { p with congestion := p.congestion.onAck packet.timeSent packet.size appLimited }
  else p

/-- What the congestion controller is told of a lost packet. -/
def lost (p : NetworkPath) (removedFromPath : Bool) (packet : SentPacket) (now : Instant) :
    NetworkPath :=
  if removedFromPath && packet.ackEliciting then
    { p with congestion := p.congestion.onCongestionEvent now packet.timeSent }
  else p

/-- The part of `send_one` after the datagram of `scheduled` was sent at `sendTime`. -/
def record (p : NetworkPath) (spaces : SpaceId → PacketSpace) (sendTime : Instant)
    (scheduled : ScheduledPacket) : NetworkPath × (SpaceId → PacketSpace) :=
  let metaInfo := { scheduled.metaInfo with timeSent := sendTime }
  let inFlight := p.inFlight.insert metaInfo
  let (n, space) := (spaces metaInfo.spaceId).sent metaInfo
  ({ p with
    inFlight := { inFlight with bytes := inFlight.bytes - n }
    firstPacket := if p.firstPacket.isNone then some metaInfo.number else p.firstPacket },
   Function.update spaces metaInfo.spaceId space)

/-- `NetworkPath::send_one`, with the time at which the datagram was sent: whether the packet was
ACK-eliciting. A socket that fails ends the connection's task. -/
def sendOne (p : NetworkPath) (spaces : SpaceId → PacketSpace) (sendTime : Instant) :
    Option (Bool × NetworkPath × (SpaceId → PacketSpace)) :=
  match p.sendingQueue with
  | [] => none
  | scheduled :: queue =>
    some (scheduled.metaInfo.ackEliciting,
      { p with sendingQueue := queue }.record spaces sendTime scheduled)

end NetworkPath

/-! ## Timers -/

/-- `Timer`. -/
inductive Timer
  | lossDetection
  | idle
  | close
  | keyDiscard
  | pathValidation
  | keepAlive
  | pacing
  | pushNewCid
  | maxAckDelay
  deriving DecidableEq

/-- `Timer::VARIANTS`. -/
def Timer.variants : List Timer :=
  [.lossDetection, .idle, .close, .keyDiscard, .pathValidation, .keepAlive, .pacing, .pushNewCid,
    .maxAckDelay]

/-- `TimerTable`, without its waker. -/
structure TimerTable where
  data : Timer → Option Instant

namespace TimerTable

/-- `TimerTable::default`. -/
def default : TimerTable := ⟨fun _ => none⟩

/-- `TimerTable::set`. -/
def set (t : TimerTable) (timer : Timer) (time : Instant) : TimerTable :=
  ⟨Function.update t.data timer (some time)⟩

/-- `TimerTable::stop`. -/
def stop (t : TimerTable) (timer : Timer) : TimerTable := ⟨Function.update t.data timer none⟩

/-- `Future::poll`: the earliest timer, if it is due. -/
def poll (t : TimerTable) (now : Instant) : Option (Timer × TimerTable) :=
  let armed := Timer.variants.filterMap fun timer => (t.data timer).map fun time => (timer, time)
  match armed.argmin Prod.snd with
  | none => none
  | some (timer, earliest) => if now ≥ earliest then some (timer, t.stop timer) else none

end TimerTable

end MzQuic
