import MzQuic.Proto.Frame

/-!
# What a connection and its streams share (`core/src/connection/mod.rs`, `space.rs`)

* `Event`: the connection and its streams send events on one channel, which is kept as the list of
  all events sent so far, the latest last;
* `Retransmits`: control data to send, or to send again if a packet is lost; vectors are pushed and
  popped at their end.
-/

namespace MzQuic

/-- `SUPPORTED_VERSIONS`. -/
def supportedVersions : List ℕ := [1]

/-- `ConnectionError`. -/
inductive ConnectionError
  | versionMismatch
  | transportError (e : TransportError)
  | transportClosed (c : TransportClose)
  | applicationClosed (c : ApplicationClose)
  | reset
  deriving DecidableEq

/-- `ConnectionError::from(ConnectionClose)`. -/
def ConnectionError.ofClose : ConnectionClose → ConnectionError
  | .transport reason => .transportClosed reason
  | .application reason => .applicationClosed reason

/-- `StreamEvent`. -/
inductive StreamEvent
  | readable (id : StreamId)
  | finished (id : StreamId)
  | stopped (id : StreamId) (errorCode : ℕ)
  deriving DecidableEq

/-- `Event`. -/
inductive Event
  | connected
  | connectionLost (e : ConnectionError)
  | stream (e : StreamEvent)
  deriving DecidableEq

/-- `Retransmits`. -/
structure Retransmits where
  hello : Bool := false
  resetStream : List (StreamId × ℕ) := []
  stopSending : List StopSending := []
  ackFrequency : Bool := false
  handshakeDone : Bool := false
  deriving DecidableEq

namespace Retransmits

/-- `Retransmits::is_empty`. -/
def isEmpty (r : Retransmits) : Bool :=
  !r.hello && r.resetStream.isEmpty && r.stopSending.isEmpty && !r.ackFrequency && !r.handshakeDone

/-- `BitOrAssign::bitor_assign`. -/
def bitorAssign (r rhs : Retransmits) : Retransmits where
  hello := r.hello || rhs.hello
  resetStream := r.resetStream ++ rhs.resetStream
  stopSending := r.stopSending ++ rhs.stopSending
  ackFrequency := r.ackFrequency || rhs.ackFrequency
  handshakeDone := r.handshakeDone || rhs.handshakeDone

end Retransmits

/-- `ThinRetransmits`. -/
abbrev ThinRetransmits := Option Retransmits

/-- `ThinRetransmits::get_or_create`. -/
def ThinRetransmits.getOrCreate (r : ThinRetransmits) : Retransmits := r.getD {}

end MzQuic
