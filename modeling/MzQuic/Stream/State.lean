import MzQuic.Connection.Common
import MzQuic.Stream.Recv
import MzQuic.Stream.Send

/-!
# All streams of a connection (`core/src/connection/stream/state.rs`)

* `PendingStreamsQueue`: the streams with data to send, by priority and recency;
* `StreamsState`: the tables of send and receive halves, the queue and the event channel;
* what the connection calls: `received`, `receivedReset`, `receivedStopSending`,
  `writeControlFrames`, `writeStreamFrames`, `receivedAckOf`, `retransmit`;
* what the application calls: `open`, `write`, `finish`, `reset`, `setPriority`, `read`, `stop`,
  `takeReset`.

A hash map is a function to `Option`. A binary heap is the list of its entries, and `popMax` takes
a greatest one.
-/

namespace MzQuic

open Lib

/-! ## The queue -/

/-- `PendingStream`. The recency counter starts at `u64::MAX` and only ever goes down by one; it is
taken to be unbounded below. -/
structure PendingStream where
  priority : ℤ
  recency : ℤ
  id : StreamId
  deriving DecidableEq

/-- The derived order: by priority, then recency, then id. -/
def PendingStream.lt (a b : PendingStream) : Bool :=
  a.priority < b.priority || (a.priority = b.priority &&
    (a.recency < b.recency || (a.recency = b.recency && a.id.val < b.id.val)))

/-- Take a greatest entry out of a heap. -/
def popMax : List PendingStream → Option (PendingStream × List PendingStream)
  | [] => none
  | x :: xs =>
    match popMax xs with
    | none => some (x, [])
    | some (m, rest) => if x.lt m then some (m, x :: rest) else some (x, xs)

/-- `PendingStreamsQueue`. -/
structure PendingStreamsQueue where
  streams : List PendingStream := []
  next : Option PendingStream := none
  recency : ℤ := 2 ^ 64 - 1
  deriving DecidableEq

namespace PendingStreamsQueue

/-- `PendingStreamsQueue::new`. -/
def new : PendingStreamsQueue := {}

/-- `PendingStreamsQueue::reinsert_pending`. -/
def reinsertPending (q : PendingStreamsQueue) (id : StreamId) (priority : ℤ) :
    Checked PendingStreamsQueue := do
  Checked.assert (q.next.isNone)
  return { q with next := some ⟨priority, q.recency, id⟩ }

/-- `PendingStreamsQueue::push_pending`. -/
def pushPending (q : PendingStreamsQueue) (id : StreamId) (priority : ℤ) : PendingStreamsQueue :=
  { q with recency := q.recency - 1, streams := ⟨priority, q.recency - 1, id⟩ :: q.streams }

/-- `PendingStreamsQueue::pop`. -/
def pop (q : PendingStreamsQueue) : Option (PendingStream × PendingStreamsQueue) :=
  match q.next with
  | some x => some (x, { q with next := none })
  | none => (popMax q.streams).map fun p => (p.1, { q with streams := p.2 })

/-- The entries, as `iter` gives them. -/
def entries (q : PendingStreamsQueue) : List PendingStream := q.next.toList ++ q.streams

end PendingStreamsQueue

/-! ## The tables -/

/-- `StreamsState`. -/
structure StreamsState where
  side : Side
  send : StreamId → Option Send
  recv : StreamId → Option Recv
  next : Dir → ℕ
  pending : PendingStreamsQueue
  events : List Event

namespace StreamsState

/-- `StreamsState::new`. -/
def new (side : Side) : StreamsState where
  side := side
  send := fun _ => none
  recv := fun _ => none
  next := fun _ => 0
  pending := PendingStreamsQueue.new
  events := []

/-- Set or remove a send half. -/
def setSend (s : StreamsState) (id : StreamId) (x : Option Send) : StreamsState :=
  { s with send := Function.update s.send id x }

/-- Set or remove a receive half. -/
def setRecv (s : StreamsState) (id : StreamId) (x : Option Recv) : StreamsState :=
  { s with recv := Function.update s.recv id x }

/-- `StreamsState::send_event`. -/
def sendEvent (s : StreamsState) (e : StreamEvent) : StreamsState :=
  { s with events := s.events ++ [.stream e] }

/-- `self.pending.push_pending(id, priority)`. -/
def pushPending (s : StreamsState) (id : StreamId) (priority : ℤ) : StreamsState :=
  { s with pending := s.pending.pushPending id priority }

/-- `StreamsState::open`. -/
def «open» (s : StreamsState) (dir : Dir) : StreamId × StreamsState :=
  let index := s.next dir
  let id := StreamId.new s.side dir index
  let s := { s with next := Function.update s.next dir (index + 1) }
  let s := s.setSend id (some Send.default)
  (id, if dir = .bi then s.setRecv id (some Recv.default) else s)

/-- `StreamsState::validate_receive_id`. -/
def validateReceiveId (s : StreamsState) (id : StreamId) : Except TransportError Unit :=
  if s.side = id.initiator then
    match id.dir with
    | .uni => .error (TransportError.streamStateError "illegal operation on send-only stream")
    | .bi =>
      if id.index ≥ s.next .bi then
        .error (TransportError.streamStateError "operation on unopened stream")
      else .ok ()
  else .ok ()

/-- The entry that `received` works on: an existing one, or a new one for a frame at the beginning of
a stream of the peer; `none` if the frame is dropped. -/
def recvEntry (s : StreamsState) (frame : Stream) : Option Recv :=
  match s.recv frame.id with
  | some rs => some rs
  | none =>
    if frame.id.initiator = s.side then none
    else if frame.offset > 0 ∨ frame.fin then none
    else some Recv.default

/-- `StreamsState::received`. -/
def received (s : StreamsState) (frame : Stream) (payloadLen : ℕ) :
    Checked (Except TransportError Unit × StreamsState) :=
  match s.validateReceiveId frame.id with
  | .error e => .ok (.error e, s)
  | .ok () =>
    match s.recvEntry frame with
    | none => .ok (.ok (), s)
    | some rs =>
      -- a new entry stays in the table whatever happens next
      let s := s.setRecv frame.id (some rs)
      if !rs.isReceiving then .ok (.ok (), s)
      else do
        match ← rs.ingest frame payloadLen with
        | (.error e, rs) => return (.error e, s.setRecv frame.id (some rs))
        | (.ok (newBytes, closed), rs') =>
          let s := s.setRecv frame.id (some rs')
          if !rs'.stopped then
            return (.ok (), if newBytes > 0 || (frame.fin && rs.finalOffsetUnknown) then
              s.sendEvent (.readable frame.id) else s)
          else return (.ok (), if closed then s.setRecv frame.id none else s)

/-- `StreamsState::received_reset`. -/
def receivedReset (s : StreamsState) (frame : ResetStream) :
    Except TransportError Unit × StreamsState :=
  match s.validateReceiveId frame.id with
  | .error e => (.error e, s)
  | .ok () =>
    let rs := (s.recv frame.id).getD Recv.default
    match rs.reset frame.errorCode frame.finalOffset with
    | (.error e, rs) => (.error e, s.setRecv frame.id (some rs))
    | (.ok false, rs) => (.ok (), s.setRecv frame.id (some rs))
    | (.ok true, rs) =>
      if rs.stopped then (.ok (), s.setRecv frame.id none)
      else (.ok (), (s.setRecv frame.id (some rs)).sendEvent (.readable frame.id))

/-- `StreamsState::received_stop_sending`. -/
def receivedStopSending (s : StreamsState) (frame : StopSending) :
    Except TransportError Unit × StreamsState :=
  if frame.id.initiator ≠ s.side ∧ frame.id.dir = .uni then
    (.error (TransportError.streamStateError "STOP_SENDING on recv-only stream"), s)
  else if frame.id.initiator = s.side ∧ frame.id.index ≥ s.next frame.id.dir then
    (.error (TransportError.streamStateError "STOP_SENDING on unopened stream"), s)
  else
    match s.send frame.id with
    | none => (.ok (), s.sendEvent (.stopped frame.id frame.errorCode))
    | some ss =>
      match ss.tryStop frame.errorCode with
      | (true, ss) =>
        (.ok (), (s.setSend frame.id (some ss)).sendEvent (.stopped frame.id frame.errorCode))
      | (false, ss) => (.ok (), s.setSend frame.id (some ss))

/-- `StreamsState::reset_acked`. -/
def resetAcked (s : StreamsState) (id : StreamId) : StreamsState :=
  match s.send id with
  | none => s
  | some e => if e.state = .resetSent then s.setSend id none else s

/-- `StreamsState::can_send_stream_data`. -/
def canSendStreamData (s : StreamsState) : Bool :=
  s.pending.entries.any fun x => (s.send x.id).any fun y => !y.isReset

/-! ## Control frames -/

/-- The RESET_STREAM `while` of `write_control_frames`, on the queue in the order of popping. -/
def resetLoop (s : StreamsState) : List (StreamId × ℕ) → ThinRetransmits → BufMut →
    Checked (List (StreamId × ℕ) × ThinRetransmits × BufMut)
  | [], sent, buf => .ok ([], sent, buf)
  | (id, errorCode) :: queue, sent, buf =>
    if ResetStream.sizeBound < buf.remainingMut then
      match s.send id with
      | none => resetLoop s queue sent buf
      | some stream => do
        let r := sent.getOrCreate
        let buf ← ResetStream.encode ⟨id, errorCode, stream.offset⟩ buf
        resetLoop s queue (some { r with resetStream := r.resetStream ++ [(id, errorCode)] }) buf
    else .ok ((id, errorCode) :: queue, sent, buf)

/-- The STOP_SENDING `while` of `write_control_frames`, on the queue in the order of popping. -/
def stopLoop : List StopSending → ThinRetransmits → BufMut →
    Checked (List StopSending × ThinRetransmits × BufMut)
  | [], sent, buf => .ok ([], sent, buf)
  | frame :: queue, sent, buf =>
    if StopSending.sizeBound < buf.remainingMut then do
      let r := sent.getOrCreate
      let buf ← frame.encode buf
      stopLoop queue (some { r with stopSending := r.stopSending ++ [frame] }) buf
    else .ok (frame :: queue, sent, buf)

/-- `StreamsState::write_control_frames`. -/
def writeControlFrames (s : StreamsState) (buf : BufMut) (pending : Retransmits)
    (sent : ThinRetransmits) : Checked (BufMut × Retransmits × ThinRetransmits) := do
  let (resets, sent, buf) ← s.resetLoop pending.resetStream.reverse sent buf
  let (stops, sent, buf) ← stopLoop pending.stopSending.reverse sent buf
  return (buf, { pending with resetStream := resets.reverse, stopSending := stops.reverse }, sent)

/-! ## Stream frames -/

/-- What one round of the loop of `write_stream_frames` does. -/
inductive Turn
  | stop
  | skip
  | sent (m : StreamMeta)
  deriving DecidableEq

/-- The part of a round in which a stream that has something to send is polled and encoded; `s` is
the state after its entry has been popped. -/
def sendTurn (fair : Bool) (s : StreamsState) (buf : BufMut) (id : StreamId) (stream : Send) :
    Checked (Turn × StreamsState × BufMut) := do
  let ((range, encodeLength), pending) ← stream.pending.pollTransmit buf.remainingMut
  let fin := stream.finPending && range.end = pending.offset
  let stream := { stream with pending := pending, finPending := stream.finPending && !fin }
  if range.isEmpty && !fin then
    return (.stop, (s.setSend id (some stream)).pushPending id stream.priority, buf)
  else
    let m : StreamMeta := ⟨id, range, fin⟩
    let buf ← m.encode encodeLength buf
    let buf ← (if range.isEmpty then pure buf else do
      let data ← stream.pending.get range
      buf.putSlice data)
    let s := s.setSend id (some stream)
    if !stream.isPending then return (.sent m, s, buf)
    else if fair then return (.sent m, s.pushPending id stream.priority, buf)
    else
      let q ← s.pending.reinsertPending id stream.priority
      return (.sent m, { s with pending := q }, buf)

/-- One round of the loop of `write_stream_frames`. -/
def streamTurn (fair : Bool) (s : StreamsState) (buf : BufMut) :
    Checked (Turn × StreamsState × BufMut) :=
  if buf.remainingMut < Stream.sizeBound then .ok (.stop, s, buf)
  else
    match s.pending.pop with
    | none => .ok (.stop, s, buf)
    | some (x, q) =>
      let s := { s with pending := q }
      match s.send x.id with
      | none => .ok (.skip, s, buf)
      | some stream =>
        if stream.isReset then .ok (.skip, s, buf)
        else if !stream.isPending then .ok (.skip, s, buf)
        else sendTurn fair s buf x.id stream

/-- The loop of `write_stream_frames`, for at most the given number of rounds. -/
def writeLoop (fair : Bool) :
    ℕ → StreamsState → BufMut → Checked (List StreamMeta × StreamsState × BufMut)
  | 0, s, buf => .ok ([], s, buf)
  | n + 1, s, buf => do
    match ← streamTurn fair s buf with
    | (.stop, s, buf) => return ([], s, buf)
    | (.skip, s, buf) => writeLoop fair n s buf
    | (.sent m, s, buf) =>
      let (metas, s, buf) ← writeLoop fair n s buf
      return (m :: metas, s, buf)

/-- Each round but the last takes an entry off the queue or writes a frame, so this many rounds are
enough. -/
def writeFuel (s : StreamsState) (buf : BufMut) : ℕ :=
  buf.remainingMut + s.pending.entries.length + 1

/-- `StreamsState::write_stream_frames`. -/
def writeStreamFrames (s : StreamsState) (buf : BufMut) (fair : Bool) :
    Checked (List StreamMeta × StreamsState × BufMut) :=
  writeLoop fair (s.writeFuel buf) s buf

/-! ## Acknowledgement and loss -/

/-- `StreamsState::received_ack_of`. -/
def receivedAckOf (s : StreamsState) (frame : StreamMeta) : Checked StreamsState :=
  match s.send frame.id with
  | none => .ok s
  | some stream =>
    if stream.isReset then .ok s
    else do
      match ← stream.ack frame with
      | (false, stream) => return s.setSend frame.id (some stream)
      | (true, _) => return (s.setSend frame.id none).sendEvent (.finished frame.id)

/-- `StreamsState::retransmit`. -/
def retransmit (s : StreamsState) (frame : StreamMeta) : Checked StreamsState :=
  match s.send frame.id with
  | none => .ok s
  | some stream =>
    if stream.isReset then .ok s
    else do
      let pending ← stream.pending.retransmit frame.offsets
      let s := s.setSend frame.id (some { stream with pending := pending })
      return if !stream.isPending then s.pushPending frame.id stream.priority else s

/-! ## The application -/

/-- `SendStream::write`, where `closed` says whether the connection is closed. -/
def write (s : StreamsState) (closed : Bool) (id : StreamId) (data : Bytes) :
    Except WriteError Unit × StreamsState :=
  if closed then (.error .blocked, s)
  else
    let stream := (s.send id).getD Send.default
    match stream.write data with
    | .error e => (.error e, s.setSend id (some stream))
    | .ok stream' =>
      let s := s.setSend id (some stream')
      (.ok (), if !stream.isPending then s.pushPending id stream'.priority else s)

/-- `SendStream::finish`. -/
def finish (s : StreamsState) (id : StreamId) : Except FinishError Unit × StreamsState :=
  match s.send id with
  | none => (.error .closedStream, s)
  | some stream =>
    match stream.finish with
    | .error e => (.error e, s)
    | .ok stream' =>
      let s := s.setSend id (some stream')
      (.ok (), if !stream.isPending then s.pushPending id stream'.priority else s)

/-- `SendStream::reset`, which also queues a RESET_STREAM frame. -/
def reset (s : StreamsState) (pending : Retransmits) (id : StreamId) (errorCode : ℕ) :
    Except ClosedStream Unit × StreamsState × Retransmits :=
  match s.send id with
  | none => (.error ⟨⟩, s, pending)
  | some stream =>
    if stream.state = .resetSent then (.error ⟨⟩, s, pending)
    else (.ok (), s.setSend id (some stream.reset),
      { pending with resetStream := pending.resetStream ++ [(id, errorCode)] })

/-- `SendStream::set_priority`. -/
def setPriority (s : StreamsState) (id : StreamId) (priority : ℤ) :
    Except ClosedStream Unit × StreamsState :=
  match s.send id with
  | none => (.error ⟨⟩, s)
  | some stream => (.ok (), s.setSend id (some { stream with priority := priority }))

/-- `RecvStream::read`, that is `Chunks::new`: the entry is taken out of the table. -/
def read (s : StreamsState) (id : StreamId) (ordered : Bool) :
    Checked (Except ReadableError Chunks × StreamsState) :=
  match s.recv id with
  | none => .ok (.error .closedStream, s)
  | some recv =>
    if recv.stopped then .ok (.error .closedStream, s)
    else
      let s := s.setRecv id none
      match ordered, recv.assembler.state with
      | true, .unordered _ => .ok (.error .illegalOrderedRead, s)
      | false, .ordered => .error .unimplemented
      | _, _ => .ok (.ok ⟨id, ordered, .readable recv, 0⟩, s)

/-- `Drop for Chunks`: a stream that is neither finished nor reset goes back to the table. -/
def dropChunks (s : StreamsState) (c : Chunks) : StreamsState :=
  match c.state with
  | .readable rs => s.setRecv c.id (some rs)
  | _ => s

/-- `RecvStream::stop`, which may also queue a STOP_SENDING frame. -/
def stop (s : StreamsState) (pending : Retransmits) (id : StreamId) (errorCode : ℕ) :
    Checked (Except ClosedStream Unit × StreamsState × Retransmits) :=
  match s.recv id with
  | none => .ok (.error ⟨⟩, s, pending)
  | some stream => do
    match ← stream.stop with
    | (.error e, _) => return (.error e, s, pending)
    | (.ok (_, stopSending), stream) =>
      let pending := if stopSending then
          { pending with stopSending := pending.stopSending ++ [⟨id, errorCode⟩] }
        else pending
      return (.ok (), s.setRecv id (if stream.finalOffsetUnknown then some stream else none), pending)

/-- `RecvStream::received_reset`. -/
def takeReset (s : StreamsState) (id : StreamId) : Except ClosedStream (Option ℕ) × StreamsState :=
  match s.recv id with
  | none => (.error ⟨⟩, s)
  | some rs =>
    if rs.stopped then (.error ⟨⟩, s)
    else
      match rs.resetCode with
      | none => (.ok none, s)
      | some code => (.ok (some code), s.setRecv id none)

end StreamsState

end MzQuic
