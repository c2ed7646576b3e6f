import MzQuic.Connection.Path
import MzQuic.Lib.Run
import MzQuic.Stream.Run

/-!
# A connection (`core/src/connection/mod.rs`)

* `State`, `Connection`, `SentFrames`;
* loss detection: `setLossDetectionTimer`, `detectLostPackets`, `onLossDetectionTimeout`;
* acknowledgements: `onAckReceived`;
* input: `handleFirstPacket`, `handleData`, which process the frames of a packet in order;
* output: `pollTransmit`, which composes at most one packet for each space, and `sendOne`;
* `ConnectionOp`, `connectionStep`: the steps of `run_connection`, with what the application may do
  to the connection it is given.

Events go to the channel that the connection shares with its streams.
-/

namespace MzQuic

open Lib

/-- `FAKE_CID`. -/
def fakeCid : ConnectionId where
  bytes := [0x30, 0x31, 0x32, 0x33, 0x34, 0x35, 0x36, 0x37, 0x38, 0x39,
    0x61, 0x62, 0x63, 0x64, 0x65, 0x66, 0x67, 0x68, 0x69, 0x6a]
  len_le := by decide

/-- `ACK_DELAY_EXP`. -/
def ackDelayExp : ℕ := 3

/-- `TIMER_GRANULARITY`. -/
def timerGranularity : Duration := Duration.fromMillis 1

/-- `ConnectionClose::from(TransportError)`. -/
def ConnectionClose.ofError (e : TransportError) : ConnectionClose :=
  .transport ⟨e.code, e.frame, e.reason.toUTF8.toList⟩

/-- `State`. -/
inductive State
  | handshake
  | established
  | closed (reason : ConnectionClose)
  | draining
  | drained
  deriving DecidableEq

namespace State

/-- `State::is_handshake`. -/
def isHandshake (s : State) : Bool := s = .handshake

/-- `State::is_closed`. -/
def isClosed : State → Bool
  | closed _ | draining | drained => true
  | _ => false

/-- `State::is_drained`. -/
def isDrained (s : State) : Bool := s = .drained

end State

/-- `SentFrames`. -/
structure SentFrames where
  retransmits : ThinRetransmits := none
  largestAcked : Option ℕ := none
  streamFrames : List StreamMeta := []

/-- `InitialPacket`. -/
structure InitialPacket where
  header : InitialHeader
  payload : Bytes

/-- `Packet::from(InitialPacket)`. -/
def InitialPacket.toPacket (p : InitialPacket) : Packet := ⟨.initial p.header, p.payload⟩

/-- `Connection`. -/
structure Connection where
  side : Side
  state : State
  path : NetworkPath
  spaces : SpaceId → PacketSpace
  highestSpace : SpaceId
  timers : TimerTable
  streams : StreamsState
  pendingClose : Bool
  appLimited : Bool

namespace Connection

/-- `&mut self.spaces[id]`. -/
def modifySpace (c : Connection) (id : SpaceId) (f : PacketSpace → PacketSpace) : Connection :=
  { c with spaces := Function.update c.spaces id (f (c.spaces id)) }

/-- `Connection::new`. -/
def new (now : Instant) (side : Side) : Connection :=
  let c : Connection := {
    side := side
    state := .handshake
    path := NetworkPath.new now
    spaces := fun _ => PacketSpace.new now
    highestSpace := .initial
    timers := TimerTable.default
    streams := StreamsState.new side
    pendingClose := false
    appLimited := false }
  if side = .client then
    c.modifySpace .initial fun s => { s with pending := { s.pending with hello := true } }
  else c

/-- `self.events_tx.send(e)`. -/
def sendEvent (c : Connection) (e : Event) : Connection :=
  { c with streams := { c.streams with events := c.streams.events ++ [e] } }

/-- `Connection::error`. -/
def error (c : Connection) (e : ConnectionError) : Connection := c.sendEvent (.connectionLost e)

/-! ## Loss detection -/

/-- `Connection::loss_time_and_space`. -/
def lossTimeAndSpace (c : Connection) : Option (Instant × SpaceId) :=
  (SpaceId.variants.filterMap fun id => (c.spaces id).lossTime.map fun t => (t, id)).argmin Prod.fst

/-- When the oldest packet of each space was sent. -/
def earliestSent (c : Connection) : Option Instant :=
  (SpaceId.variants.filterMap fun id =>
    (c.spaces id).sentPackets.entries.head?.map fun p => p.2.timeSent).min?

/-- `Connection::set_loss_detection_timer`. -/
def setLossDetectionTimer (c : Connection) : Connection :=
  if c.state.isClosed then c
  else
    match c.lossTimeAndSpace with
    | some (lossTime, _) => { c with timers := c.timers.set .lossDetection lossTime }
    | none =>
      let hasInFlight := SpaceId.variants.any fun id => (c.spaces id).inFlight > 0
      let pto := c.path.rtt.conservative * 3 + timerGranularity
      match hasInFlight, c.earliestSent with
      | true, some sent => { c with timers := c.timers.set .lossDetection (sent + pto) }
      | _, _ => { c with timers := c.timers.stop .lossDetection }

/-- `Connection::discard_space`. -/
def discardSpace (c : Connection) (id : SpaceId) : Checked Connection := do
  Checked.assert (id ≠ .data)
  let sentPackets := (c.spaces id).sentPackets
  let c := c.modifySpace id fun s => { s with lossTime := none, inFlight := 0, sentPackets := ∅ }
  let path ← run (fun path p => do return (← path.removeInFlight p.1 p.2).2) c.path
    sentPackets.entries
  return { c with path := path }.setLossDetectionTimer

/-- What `detect_lost_packets` does to one lost packet. -/
def loseOne (now : Instant) (id : SpaceId) (c : Connection) (lost : ℕ × SentPacket) :
    Checked Connection := do
  let (pn, packet) := lost
  let (removedFromPath, path) ← c.path.removeInFlight pn packet
  let streams ← run StreamsState.retransmit c.streams packet.streamFrames
  let (_, space) ← ((c.spaces id).requeue packet).take pn
  return { c.modifySpace id fun _ => space with
    path := path.lost removedFromPath packet now
    streams := streams }

/-- `Connection::detect_lost_packets`. -/
def detectLostPackets (c : Connection) (now : Instant) (id : SpaceId) : Checked Connection :=
  match (c.spaces id).largestAckedPacket with
  | none => .ok (c.modifySpace id fun s => { s with lossTime := none })
  | some largestAcked => do
    let lossDelay := max (c.path.rtt.conservative * 9 / 8) timerGranularity
    let lostSendBefore := (Instant.checkedSub now lossDelay).getD now
    -- the loop breaks at the first packet above the largest acknowledged one
    let packets := (c.spaces id).sentPackets.entries.takeWhile fun p => p.1 ≤ largestAcked
    let lost := packets.filter fun p => p.2.timeSent ≤ lostSendBefore
    let left := packets.filter fun p => lostSendBefore < p.2.timeSent
    let nextLossTime := (left.map fun p => p.2.timeSent + lossDelay).min?
    let c := c.modifySpace id fun s => { s with lossTime := nextLossTime }
    if lost.isEmpty then return c
    else
      let c ← run (loseOne now id) c lost
      return c.setLossDetectionTimer

/-- `Connection::on_loss_detection_timeout`. -/
def onLossDetectionTimeout (c : Connection) (now : Instant) : Checked Connection := do
  let c ← (match c.lossTimeAndSpace with
    | some (_, id) => c.detectLostPackets now id
    | none => run (fun c id => if (c.spaces id).inFlight > 0 then c.detectLostPackets now id else .ok c)
        c SpaceId.variants)
  return c.setLossDetectionTimer

/-! ## Acknowledgements -/

/-- The variables of the loop of `on_ack_received`. -/
structure AckLoop where
  c : Connection
  largestNewlyAcked : Option SentPacket := none
  newlyAckedAny : Bool := false

/-- The body of the loop of `on_ack_received`. -/
def ackOne (id : SpaceId) (l : AckLoop) (pn : ℕ) : Checked AckLoop := do
  match ← (l.c.spaces id).take pn with
  | (none, _) => return l
  | (some packet, space) =>
    let streams ← run StreamsState.receivedAckOf l.c.streams packet.streamFrames
    let (removedFromPath, path) ← l.c.path.removeInFlight packet.number packet
    return {
      c := { l.c.modifySpace id fun _ => space.ackedBy packet with
        path := path.acked removedFromPath packet l.c.appLimited
        streams := streams }
      largestNewlyAcked := if l.largestNewlyAcked.all (·.number < packet.number) then some packet
        else l.largestNewlyAcked
      newlyAckedAny := true }

/-- The numbers of an inclusive range, ascending. -/
def rangeInclusive (r : ℕ × ℕ) : List ℕ := List.range' r.1 (r.2 + 1 - r.1)

/-- The part of `on_ack_received` after the loop, if the frame acknowledges anything new. -/
def ackNews (now : Instant) (id : SpaceId) (ack : Ack) (l : AckLoop) : Checked Connection := do
  let c := l.c.modifySpace id fun s => { s with
    largestAckedPacket := some (match s.largestAckedPacket with
      | some prev => max prev ack.largest
      | none => ack.largest)
    largestAckedPacketSent := now }
  let c := match l.largestNewlyAcked with
    | some packet =>
      let ackDelay := Duration.fromMicros (ack.delay <<< ackDelayExp % 2 ^ 64)
      { c with path := { c.path with rtt := c.path.rtt.update ackDelay (now - packet.timeSent) } }
    | none => c
  let c ← c.detectLostPackets now id
  return c.setLossDetectionTimer

/-- `Connection::on_ack_received`. -/
def onAckReceived (c : Connection) (now : Instant) (id : SpaceId) (ack : Ack) :
    Checked (Except TransportError Unit × Connection) :=
  if ack.largest ≥ (c.spaces id).nextPacketNumber then
    .ok (.error (TransportError.protocolViolation "ACK for unsent packet"), c)
  else if (c.spaces id).largestAckedPacket.any (ack.largest < ·) then
    .ok (.error (TransportError.protocolViolation "ACK regressed largest acknowledged packet"), c)
  else do
    let ranges ← ack.iter
    let l ← run (ackOne id) { c := c } (ranges.flatMap rangeInclusive)
    if !l.newlyAckedAny then return (.ok (), l.c)
    else
      let c ← ackNews now id ack l
      return (.ok (), c)

/-! ## Input -/

/-- `Connection::close_common`. -/
def closeCommon (c : Connection) : Connection :=
  { c with timers := Timer.variants.foldl TimerTable.stop c.timers }

/-- `Connection::set_close_timer`, with `CLOSE_TIMEOUT`. -/
def setCloseTimer (c : Connection) (now : Instant) : Connection :=
  { c with timers := c.timers.set .close (now + Duration.fromMillis 3000) }

/-- `Connection::kill`. -/
def kill (c : Connection) (reason : ConnectionError) : Connection :=
  { c.closeCommon.error reason with state := .drained }

/-- `Connection::on_packet_authenticated`. -/
def onPacketAuthenticated (c : Connection) (now : Instant) (id : SpaceId) (number : Option ℕ) :
    Checked Connection :=
  match number with
  | none => .ok c
  | some number => do
    let c ← (if c.side = .server ∧ (c.spaces .initial).hi = true ∧ id = .handshake then
      c.discardSpace .initial else .ok c)
    let (armTimer, pendingAcks) :=
      (c.spaces id).pendingAcks.packetReceived now number true (c.spaces id).dedup
    let c := c.modifySpace id fun s => { s with
      pendingAcks := pendingAcks
      rxPacket := if number ≥ s.rxPacket then number else s.rxPacket }
    if id = .data then
      return if armTimer then
        { c with timers := c.timers.set .maxAckDelay (now + Duration.fromMillis 25) } else c
    else
      return c.modifySpace id fun s => { s with pendingAcks := s.pendingAcks.setImmediateAckRequired }

/-- The `Crypto` case of `process_early_payload`. -/
def onCrypto (c : Connection) (id : SpaceId) : Connection :=
  let c := c.modifySpace id fun s => { s with
    hi := true
    pending := if !s.hi then { s.pending with hello := true } else s.pending }
  let c := if id.toNat > c.highestSpace.toNat then { c with highestSpace := id } else c
  if c.state.isHandshake && (id = .initial || id = .handshake) then
    { c with state := .established }.sendEvent .connected
  else c

/-- How the loop over the frames of a packet goes on after one of them: `true` to continue, `false`
to leave the packet with `Ok`. -/
abbrev Handled := Checked (Except TransportError Bool × Connection)

/-- Continue if the frame was accepted. -/
def goOn (r : Except TransportError Unit × Connection) : Except TransportError Bool × Connection :=
  (r.1.map fun _ => true, r.2)

/-- One frame in `process_early_payload`. -/
def handleEarlyFrame (now : Instant) (id : SpaceId) (c : Connection) : Frame → Handled
  | .padding | .ping => .ok (.ok true, c)
  | .ack ack => goOn <$> c.onAckReceived now id ack
  | .crypto _ _ => .ok (.ok true, c.onCrypto id)
  | .close close => .ok (.ok false, c.kill (ConnectionError.ofClose close))
  | _ => .ok (.error (TransportError.protocolViolation "illegal frame in Initial/Handshake packet"), c)

/-- One frame in `process_payload`. -/
def handleFrame (now : Instant) (id : SpaceId) (payloadLen : ℕ) (c : Connection) : Frame → Handled
  | .immediateAck => .ok (.ok true,
      c.modifySpace id fun s => { s with pendingAcks := s.pendingAcks.setImmediateAckRequired })
  | .ack ack => goOn <$> c.onAckReceived now id ack
  | .stream stream => do
    let (r, streams) ← c.streams.received stream payloadLen
    return goOn (r, { c with streams := streams })
  | .resetStream reset =>
    let (r, streams) := c.streams.receivedReset reset
    .ok (goOn (r, { c with streams := streams }))
  | .stopSending stop =>
    let (r, streams) := c.streams.receivedStopSending stop
    .ok (goOn (r, { c with streams := streams }))
  | .close close => .ok (.ok false, c.kill (ConnectionError.ofClose close))
  | _ => .ok (.ok true, c)

/-- The `while` over the frames of a packet. -/
def frameLoop (handle : Connection → Frame → Handled) :
    ℕ → FrameParser → Connection → Checked (Except TransportError Unit × Connection)
  | 0, _, c => .ok (.ok (), c)
  | n + 1, parser, c => do
    match ← parser.next with
    | (none, _) => return (.ok (), c)
    | (some (.error e), _) => return (.error e, c)
    | (some (.ok frame), parser) =>
      match ← handle c frame with
      | (.error e, c) => return (.error e, c)
      | (.ok false, c) => return (.ok (), c)
      | (.ok true, c) => frameLoop handle n parser c

/-- The loop over the frames of a payload; each takes at least one byte. -/
def processFrames (c : Connection) (payload : Bytes) (handle : Connection → Frame → Handled) :
    Checked (Except TransportError Unit × Connection) :=
  match FrameParser.new payload with
  | .error e => .ok (.error e, c)
  | .ok parser => frameLoop handle (payload.length + 1) parser c

/-- `Connection::process_early_payload`. -/
def processEarlyPayload (c : Connection) (now : Instant) (packet : Packet) :
    Checked (Except TransportError Unit × Connection) :=
  c.processFrames packet.payload (handleEarlyFrame now packet.header.space)

/-- `Connection::process_payload`. -/
def processPayload (c : Connection) (now : Instant) (packet : Packet) :
    Checked (Except TransportError Unit × Connection) :=
  c.processFrames packet.payload (handleFrame now packet.header.space packet.payload.length)

/-- `Connection::process_packet`. -/
def processPacket (c : Connection) (now : Instant) (number : Option ℕ) (packet : Packet) :
    Checked (Except ConnectionError Unit × Connection) := do
  match packet.header.space, number with
  | .initial, _ | .handshake, _ =>
    let (r, c) ← c.processEarlyPayload now packet
    return (r.mapError .transportError, c)
  | .data, none =>
    return (.error (.transportError ⟨.protocolViolation, none, "missing packet number"⟩), c)
  | .data, some _ =>
    let (r, c) ← c.processPayload now packet
    return (r.mapError .transportError, c)

/-- `Connection::handle_first_packet`. -/
def handleFirstPacket (c : Connection) (now : Instant) (packet : InitialPacket) :
    Checked (Except ConnectionError Unit × Connection) := do
  let number := packet.header.number.expand 0
  let c ← c.onPacketAuthenticated now .initial (some number)
  c.processPacket now (some number) packet.toPacket

/-- The state after an error. -/
def errorState : ConnectionError → State
  | .applicationClosed reason => .closed (.application reason)
  | .transportClosed reason => .closed (.transport reason)
  | .reset => .drained
  | .transportError err => .closed (ConnectionClose.ofError err)
  | .versionMismatch => .draining

/-- The part of `handle_data` after the packet was processed with result `res`. -/
def afterPacket (now : Instant) (wasClosed wasDrained : Bool)
    (res : Except ConnectionError Unit × Connection) : Connection :=
  let c := match res.1 with
    | .error e => { res.2.error e with state := errorState e }
    | .ok () => res.2
  let c := if !wasClosed && c.state.isClosed then
      let c := c.closeCommon
      if !c.state.isDrained then c.setCloseTimer now else c
    else c
  if !wasDrained && c.state.isDrained then { c with timers := c.timers.stop .close } else c

/-- The part of `handle_data` after the header was decoded. -/
def handlePacket (c : Connection) (now : Instant) (packet : Packet) : Checked Connection :=
  let id := packet.header.space
  let number := packet.header.number.map fun n => n.expand ((c.spaces id).rxPacket + 1)
  let (isDuplicate, dedup) := match number with
    | some n => (c.spaces id).dedup.insert n
    | none => (false, (c.spaces id).dedup)
  let c' := c.modifySpace id fun s => { s with dedup := dedup }
  if isDuplicate then .ok c'
  else if c.state.isHandshake && packet.header.isShort then .ok c'
  else do
    let c'' ← (if !c.state.isClosed then c'.onPacketAuthenticated now id number else .ok c')
    let res ← c''.processPacket now number packet
    return afterPacket now c.state.isClosed c.state.isDrained res

/-- `Connection::handle_data`. -/
def handleData (c : Connection) (now : Instant) (data : Bytes) : Checked Connection := do
  match ← Header.decode fakeCid.bytes.length supportedVersions data with
  | (.error _, _) => return c
  | (.ok header, payload) => c.handlePacket now ⟨header, payload⟩

/-- `Connection::close`. -/
def close (c : Connection) (now : Instant) (errorCode : ℕ) (reason : Bytes) : Connection :=
  if c.state.isClosed then c
  else { c.closeCommon.setCloseTimer now with
    pendingClose := true
    state := .closed (.application ⟨errorCode, reason⟩) }

end Connection

end MzQuic
