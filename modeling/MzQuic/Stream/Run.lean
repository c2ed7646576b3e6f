import MzQuic.Lib.Run
import MzQuic.Stream.State

/-!
# Runs of the streams of a connection

A run keeps, beside the state, what was written on each stream, the frames that were sent and
neither acknowledged nor lost, and the streams that were finished.

* `StreamsOp`: the operations of the application, the frames of the peer, `write_stream_frames`, and
  `received_ack_of` and `retransmit` for frames that were sent;
* `streamsStep`: one operation; a result that is an error leaves the state it leaves in the source.
-/

namespace MzQuic

open Lib

/-- Call `next` with each of the lengths. -/
def Chunks.nexts : List ℕ → Chunks → Checked Chunks
  | [], c => .ok c
  | m :: ms, c => do
    let (_, c) ← c.next m
    Chunks.nexts ms c

/-- `RecvStream::read`, then `next` with each of the lengths, until `Chunks` is dropped. -/
def StreamsState.readChunks (s : StreamsState) (id : StreamId) (lengths : List ℕ) :
    Checked StreamsState := do
  match ← s.read id true with
  | (.error _, s) => return s
  | (.ok c, s) =>
    let c ← c.nexts lengths
    return s.dropChunks c

/-- A state with its history. -/
structure StreamsRun where
  state : StreamsState
  /-- The bytes of the successful writes on each stream. -/
  wrote : StreamId → Bytes
  /-- The frames sent and not yet resolved. -/
  flight : List StreamMeta
  /-- The streams that were finished and still have the send half that was finished. -/
  finished : List StreamId

/-- A fresh connection. -/
def StreamsRun.new (side : Side) : StreamsRun := ⟨StreamsState.new side, fun _ => [], [], []⟩

/-- The operations. Reads are ordered. -/
inductive StreamsOp
  | «open» (dir : Dir)
  | write (closed : Bool) (id : StreamId) (data : Bytes)
  | finish (id : StreamId)
  | reset (id : StreamId) (errorCode : ℕ)
  | setPriority (id : StreamId) (priority : ℤ)
  | read (id : StreamId) (lengths : List ℕ)
  | stop (id : StreamId) (errorCode : ℕ)
  | takeReset (id : StreamId)
  | received (frame : Stream) (payloadLen : ℕ)
  | receivedReset (frame : ResetStream)
  | receivedStopSending (frame : StopSending)
  | resetAcked (id : StreamId)
  | writeStreamFrames (buf : BufMut) (fair : Bool)
  | receivedAckOf (m : StreamMeta)
  | retransmit (m : StreamMeta)

/-- The streams of `l` that have a send half. -/
def StreamsState.present (s : StreamsState) (l : List StreamId) : List StreamId :=
  l.filter fun id => (s.send id).isSome

/-- One operation. -/
def streamsStep (r : StreamsRun) : StreamsOp → Checked StreamsRun
  | .open dir => .ok { r with
      state := (r.state.open dir).2
      finished := r.finished.filter (· ≠ (r.state.open dir).1) }
  | .write closed id data =>
    match r.state.write closed id data with
    | (.ok (), s) =>
      .ok { r with state := s, wrote := Function.update r.wrote id (r.wrote id ++ data) }
    | (.error _, s) => .ok { r with state := s }
  | .finish id =>
    match r.state.finish id with
    | (.ok (), s) => .ok { r with state := s, finished := id :: r.finished }
    | (.error _, s) => .ok { r with state := s }
  | .reset id errorCode => .ok { r with state := (r.state.reset {} id errorCode).2.1 }
  | .setPriority id priority => .ok { r with state := (r.state.setPriority id priority).2 }
  | .read id lengths => do
    let s ← r.state.readChunks id lengths
    return { r with state := s }
  | .stop id errorCode => do
    let (_, s, _) ← r.state.stop {} id errorCode
    return { r with state := s }
  | .takeReset id => .ok { r with state := (r.state.takeReset id).2 }
  | .received frame payloadLen => do
    let (_, s) ← r.state.received frame payloadLen
    return { r with state := s }
  | .receivedReset frame => .ok { r with state := (r.state.receivedReset frame).2 }
  | .receivedStopSending frame => .ok { r with state := (r.state.receivedStopSending frame).2 }
  | .resetAcked id =>
    let s := r.state.resetAcked id
    .ok { r with state := s, finished := s.present r.finished }
  | .writeStreamFrames buf fair => do
    let (metas, s, _) ← r.state.writeStreamFrames buf fair
    return { r with state := s, flight := r.flight ++ metas }
  | .receivedAckOf m => do
    let s ← r.state.receivedAckOf m
    return { r with state := s, flight := r.flight.erase m, finished := s.present r.finished }
  | .retransmit m => do
    let s ← r.state.retransmit m
    return { r with state := s, flight := r.flight.erase m }

/-- The STREAM frames that an operation emits. -/
def StreamsOp.emits (s : StreamsState) : StreamsOp → Checked (List StreamMeta)
  | .writeStreamFrames buf fair => do
    let (metas, _, _) ← s.writeStreamFrames buf fair
    return metas
  | _ => .ok []

/-- A frame is resolved only while it is in flight. -/
def StreamsOp.Legal (r : StreamsRun) : StreamsOp → Prop
  | .receivedAckOf m | .retransmit m => m ∈ r.flight
  | _ => True

instance (r : StreamsRun) : ∀ op : StreamsOp, Decidable (op.Legal r)
  | .receivedAckOf m => inferInstanceAs (Decidable (m ∈ r.flight))
  | .retransmit m => inferInstanceAs (Decidable (m ∈ r.flight))
  | .open _ | .write .. | .finish _ | .reset .. | .setPriority .. | .read .. | .stop ..
  | .takeReset _ | .received .. | .receivedReset _ | .receivedStopSending _ | .resetAcked _
  | .writeStreamFrames .. => .isTrue trivial

end MzQuic
