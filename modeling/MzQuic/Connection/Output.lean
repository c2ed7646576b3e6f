import MzQuic.Connection.Model

/-!
# What a connection sends, and its steps (`core/src/connection/mod.rs`)

* `populateAcks`, `populatePacket`: the frames of one packet;
* `transmitSpace`: one round of the `for` of `poll_transmit`; `pollTransmit`;
* `handleTimeout`, and the calls of the application;
* `ConnectionOp`, `connectionStep`: the steps of `run_connection`.
-/

namespace MzQuic

open Lib

namespace Connection

/-- `Connection::space_can_send`. -/
def spaceCanSend (c : Connection) (id : SpaceId) : SendableFrames :=
  let canSend := (c.spaces id).canSend
  if id = .data then { canSend with other := canSend.other || c.streams.canSendStreamData }
  else canSend

/-- `Connection::populate_acks`, which leaves the space as it is: the largest number acknowledged. -/
def populateAcks (now : Instant) (space : PacketSpace) (buf : BufMut) :
    Checked (Option ℕ × BufMut) := do
  Checked.assert (!space.pendingAcks.ranges.isEmpty)
  let delayMicros := (space.pendingAcks.ackDelay now).asMicros % 2 ^ 64
  let delay := delayMicros >>> ackDelayExp
  let buf ← Ack.encode delay space.pendingAcks.ranges none buf
  return (space.pendingAcks.ranges.max, buf)

/-- `populate_acks`, if there is anything to acknowledge. -/
def populateAnyAcks (now : Instant) (space : PacketSpace) (buf : BufMut) :
    Checked (Option ℕ × BufMut) :=
  if !space.pendingAcks.ranges.isEmpty then populateAcks now space buf else .ok (none, buf)

/-- The second part of `populate_packet`: hello and PING. -/
def populateHello (id : SpaceId) (sent : SentFrames) (space : PacketSpace) (buf : BufMut) :
    Checked (SentFrames × PacketSpace × BufMut) := do
  let (sent, space, buf) ← (if space.pending.hello then do
      let buf ← buf.putUint 1 0x06
      let buf ← buf.putUint 1 0x00
      let buf ← buf.putUint 1 0x01
      let buf ← buf.putUint 1 0x00
      return ({ sent with retransmits := some { sent.retransmits.getOrCreate with hello := true } },
        { space with pending := { space.pending with hello := false }, hi := true }, buf)
    else return (sent, space, buf))
  if id = .data && space.pingPending then
    let buf ← buf.putUint 1 0x01
    return (sent, { space with pingPending := false }, buf)
  else return (sent, space, buf)

/-- `populate_packet` up to its control frames. -/
def populateControl (c : Connection) (now : Instant) (id : SpaceId) (buf : BufMut) :
    Checked (SentFrames × PacketSpace × BufMut) := do
  let (largestAcked, buf) ← populateAnyAcks now (c.spaces id) buf
  let (sent, space, buf) ← populateHello id { largestAcked := largestAcked } (c.spaces id) buf
  if id = .data then
    let (buf, pending, retransmits) ←
      c.streams.writeControlFrames buf space.pending sent.retransmits
    return ({ sent with retransmits := retransmits }, { space with pending := pending }, buf)
  else return (sent, space, buf)

/-- `Connection::populate_packet`. -/
def populatePacket (c : Connection) (now : Instant) (id : SpaceId) (buf : BufMut) :
    Checked (SentFrames × Connection × BufMut) := do
  let (sent, space, buf) ← c.populateControl now id buf
  let c := c.modifySpace id fun _ => space
  if id = .data then
    let (streamFrames, streams, buf) ← c.streams.writeStreamFrames buf true
    return ({ sent with streamFrames := streamFrames }, { c with streams := streams }, buf)
  else return (sent, c, buf)

/-- The header that `poll_transmit` gives a packet. -/
def txHeader (id : SpaceId) (number : PacketNumber) : Header :=
  match id with
  | .initial => .initial ⟨fakeCid, fakeCid, [], number, 1⟩
  | .handshake => .long .handshake fakeCid fakeCid number 1
  | .data => .short false false fakeCid number

/-- What `poll_transmit` puts in a packet that closes the connection: nothing but ACKs. -/
def populateClose (c : Connection) (now : Instant) (id : SpaceId) (buf : BufMut) :
    Checked (SentFrames × Connection × BufMut) := do
  let (_, buf) ← populateAnyAcks now (c.spaces id) buf
  return ({}, { c with pendingClose := false }, buf)

/-- The buffer of a packet with its header, its number, and the connection that has used it. -/
def startPacket (c : Connection) (id : SpaceId) : Checked (ℕ × Connection × BufMut) := do
  let (exactNumber, space) ← (c.spaces id).getTxNumber
  let number ← PacketNumber.new exactNumber ((c.spaces id).largestAckedPacket.getD 0)
  let buf ← (txHeader id number).encode (BufMut.withCapacity initialMtu)
  return (exactNumber, c.modifySpace id fun _ => space, buf)

/-- The part of `poll_transmit` that notes that ACKs were sent. -/
def noteAcks (c : Connection) (id : SpaceId) (sent : SentFrames) : Connection :=
  if sent.largestAcked.isSome then
    { c.modifySpace id fun s => { s with pendingAcks := s.pendingAcks.acksSent } with
      timers := c.timers.stop .maxAckDelay }
  else c

/-- What `poll_transmit` notes of a packet. -/
def metaInfo (now : Instant) (id : SpaceId) (ackEliciting : Bool) (number : ℕ) (sent : SentFrames)
    (buf : BufMut) : SentPacket where
  timeSent := now
  size := if ackEliciting then buf.written.length else 0
  ackEliciting := ackEliciting
  largestAcked := sent.largestAcked
  retransmits := sent.retransmits
  streamFrames := sent.streamFrames
  number := number
  spaceId := id

/-- The part of `poll_transmit` that puts a finished packet in the queue. -/
def schedule (c : Connection) (packet : ScheduledPacket) : Connection :=
  { c with path := { c.path with sendingQueue := c.path.sendingQueue ++ [packet] } }

/-- Compose the packet of a space and schedule it. -/
def composePacket (now : Instant) (close : Bool) (c : Connection) (id : SpaceId) (ackEliciting : Bool) :
    Checked Connection := do
  let (number, c, buf) ← c.startPacket id
  let (sent, c, buf) ← (if close then c.populateClose now id buf else c.populatePacket now id buf)
  return (c.noteAcks id sent).schedule ⟨buf.written, metaInfo now id ackEliciting number sent buf⟩

/-- One round of the `for` of `poll_transmit`: whether a packet was scheduled. -/
def transmitSpace (now : Instant) (close congestionBlocked : Bool) (s : Connection × Bool)
    (id : SpaceId) : Checked (Connection × Bool) := do
  let (c, sentAny) := s
  let canSend := c.spaceCanSend id
  if canSend.isEmpty && !(close && id = c.highestSpace) then return (c, sentAny)
  else
    let c ← (if c.side = .client ∧ id = .handshake ∧ (c.spaces .initial).hi = true then
      c.discardSpace .initial else .ok c)
    let ackEliciting := canSend.other || (id = .data && c.streams.canSendStreamData)
    if ackEliciting && congestionBlocked then return ({ c with appLimited := false }, sentAny)
    else
      let c ← composePacket now close c id ackEliciting
      return (c, true)

/-- What `poll_transmit` does once it knows whether to close the connection. -/
def pollSpaces (c : Connection) (now : Instant) (close : Bool) : Checked (Bool × Connection) := do
  let congestionBlocked := c.path.inFlight.bytes ≥ c.path.congestion.window
  let (c, sentAny) ← run (transmitSpace now close congestionBlocked) (c, false) SpaceId.variants
  if !sentAny then return (false, c)
  else
    let moreToSend := SpaceId.variants.any fun id => !(c.spaceCanSend id).isEmpty
    return (moreToSend, { c with
      appLimited := !moreToSend && c.path.inFlight.bytes < c.path.congestion.window })

/-- `Connection::poll_transmit`: whether it should be called again. -/
def pollTransmit (c : Connection) (now : Instant) : Checked (Bool × Connection) :=
  match c.state with
  | .drained => .ok (false, c)
  | .draining | .closed _ => if !c.pendingClose then .ok (false, c) else c.pollSpaces now true
  | _ => c.pollSpaces now false

/-- `send_one`, and what `run_connection` does after it. -/
def sendOne (c : Connection) (sendTime : Instant) : Connection :=
  match c.path.sendOne c.spaces sendTime with
  | none => c
  | some (ackEliciting, path, spaces) =>
    let c := { c with path := path, spaces := spaces }
    if ackEliciting then c.setLossDetectionTimer else c

/-- `Connection::handle_timeout`. -/
def handleTimeout (c : Connection) (timer : Timer) (now : Instant) : Checked Connection :=
  match timer with
  | .lossDetection => c.onLossDetectionTimeout now
  | .close => .ok { c with state := .drained }
  | .maxAckDelay => .ok
      (c.modifySpace .data fun s => { s with pendingAcks := s.pendingAcks.onAckDelayTimeout })
  | _ => .ok c

/-- The timer branch of `run_connection`. The source reads the clock for the poll of the timers and again for
`handle_timeout`; here both have the instant of the first reading. -/
def pollTimers (c : Connection) (now : Instant) : Checked Connection :=
  match c.timers.poll now with
  | none => .ok c
  | some (timer, timers) => { c with timers := timers }.handleTimeout timer now

/-! ## The application -/

/-- The assertion of `Connection::send_stream`. -/
def sendStream (c : Connection) (id : StreamId) : Checked Unit :=
  Checked.assert (id.dir = .bi ∨ id.initiator = c.side)

/-- The assertion of `Connection::recv_stream`. -/
def recvStream (c : Connection) (id : StreamId) : Checked Unit :=
  Checked.assert (id.dir = .bi ∨ id.initiator ≠ c.side)

/-- `Connection::open_stream`. -/
def openStream (c : Connection) (dir : Dir) : Checked (StreamId × Connection) :=
  if c.state.isClosed then .error .explicit
  else .ok ((c.streams.open dir).1, { c with streams := (c.streams.open dir).2 })

/-- The data space with other data to send. -/
def setPending (c : Connection) (pending : Retransmits) : Connection :=
  c.modifySpace .data fun s => { s with pending := pending }

end Connection

/-! ## Steps -/

/-- The steps of `run_connection`, and the calls of the application. -/
inductive ConnectionOp
  | pollTransmit (now : Instant)
  | sendOne (sendTime : Instant)
  | pollTimers (now : Instant)
  | handleData (now : Instant) (data : Bytes)
  | handleFirstPacket (now : Instant) (packet : InitialPacket)
  | close (now : Instant) (errorCode : ℕ) (reason : Bytes)
  | openStream (dir : Dir)
  | write (id : StreamId) (data : Bytes)
  | finish (id : StreamId)
  | reset (id : StreamId) (errorCode : ℕ)
  | setPriority (id : StreamId) (priority : ℤ)
  | read (id : StreamId) (lengths : List ℕ)
  | stop (id : StreamId) (errorCode : ℕ)
  | takeReset (id : StreamId)

/-- One step. -/
def connectionStep (c : Connection) : ConnectionOp → Checked Connection
  | .pollTransmit now => do
    let (_, c) ← c.pollTransmit now
    return c
  | .sendOne sendTime => .ok (c.sendOne sendTime)
  | .pollTimers now => c.pollTimers now
  | .handleData now data => c.handleData now data
  | .handleFirstPacket now packet => do
    let (_, c) ← c.handleFirstPacket now packet
    return c
  | .close now errorCode reason => .ok (c.close now errorCode reason)
  | .openStream dir => do
    let (_, c) ← c.openStream dir
    return c
  | .write id data => do
    c.sendStream id
    return { c with streams := (c.streams.write c.state.isClosed id data).2 }
  | .finish id => do
    c.sendStream id
    return { c with streams := (c.streams.finish id).2 }
  | .reset id errorCode => do
    c.sendStream id
    let (_, streams, pending) := c.streams.reset (c.spaces .data).pending id errorCode
    return { c with streams := streams }.setPending pending
  | .setPriority id priority => do
    c.sendStream id
    return { c with streams := (c.streams.setPriority id priority).2 }
  | .read id lengths => do
    c.recvStream id
    let streams ← c.streams.readChunks id lengths
    return { c with streams := streams }
  | .stop id errorCode => do
    c.recvStream id
    let (_, streams, pending) ← c.streams.stop (c.spaces .data).pending id errorCode
    return { c with streams := streams }.setPending pending
  | .takeReset id => do
    c.recvStream id
    return { c with streams := (c.streams.takeReset id).2 }

/-- An Initial packet of the peer, with a number of one byte. -/
def initialDatagram (number : UInt8) (payload : Bytes) : Bytes :=
  [192, 0, 0, 0, 1, 20] ++ fakeCid.bytes ++ [20] ++ fakeCid.bytes ++ [0, 1, number] ++ payload

/-- A packet of the peer with a short header, and a number of one byte. -/
def shortDatagram (number : UInt8) (payload : Bytes) : Bytes := [64] ++ fakeCid.bytes ++ [number] ++ payload

end MzQuic
