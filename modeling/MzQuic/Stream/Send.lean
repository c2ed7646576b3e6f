import MzQuic.Proto.Frame
import MzQuic.Stream.SendBuffer

/-!
# The send half of a stream (`core/src/connection/stream/send.rs`)

* `SendState`, `Send` with `write`, `finish`, `reset`, `tryStop` and `ack`.
-/

namespace MzQuic

open Lib

/-- `SendState`. -/
inductive SendState
  | ready
  | dataSent (finishAcked : Bool)
  | resetSent
  deriving DecidableEq

/-- `Send`. -/
structure Send where
  state : SendState := .ready
  pending : SendBuffer := SendBuffer.default
  priority : ℤ := 0
  finPending : Bool := false
  stopReason : Option ℕ := none

/-- `WriteError`. -/
inductive WriteError
  | blocked
  | stopped (errorCode : ℕ)
  | closedStream
  deriving DecidableEq

/-- `FinishError`. -/
inductive FinishError
  | stopped (errorCode : ℕ)
  | closedStream
  deriving DecidableEq

namespace Send

/-- `Send::default`. -/
def default : Send := {}

/-- `Send::is_reset`. -/
def isReset (s : Send) : Bool := s.state = .resetSent

/-- `Send::is_writable`. -/
def isWritable (s : Send) : Bool := s.state = .ready

/-- `Send::is_pending`. -/
def isPending (s : Send) : Bool := s.pending.hasUnsentData || s.finPending

/-- `Send::offset`. -/
def offset (s : Send) : ℕ := s.pending.offset

/-- `Send::finish`. -/
def finish (s : Send) : Except FinishError Send :=
  match s.stopReason with
  | some errorCode => .error (.stopped errorCode)
  | none =>
    if s.state = .ready then .ok { s with state := .dataSent false, finPending := true }
    else .error .closedStream

/-- `Send::write`. -/
def write (s : Send) (data : Bytes) : Except WriteError Send :=
  if !s.isWritable then .error .closedStream
  else
    match s.stopReason with
    | some errorCode => .error (.stopped errorCode)
    | none => .ok { s with pending := s.pending.write data }

/-- `Send::reset`. -/
def reset (s : Send) : Send :=
  match s.state with
  | .dataSent _ | .ready => { s with state := .resetSent }
  | .resetSent => s

/-- `Send::try_stop`: whether the stream was stopped just now. -/
def tryStop (s : Send) (errorCode : ℕ) : Bool × Send :=
  match s.stopReason with
  | none => (true, { s with stopReason := some errorCode })
  | some _ => (false, s)

/-- `Send::ack`: whether the stream is finished and everything is acknowledged. -/
def ack (s : Send) (frame : StreamMeta) : Checked (Bool × Send) := do
  let pending ← s.pending.ack frame.offsets
  match s.state with
  | .dataSent finishAcked =>
    let finishAcked := finishAcked || frame.fin
    return (finishAcked && pending.isFullyAcked,
      { s with state := .dataSent finishAcked, pending := pending })
  | _ => return (false, { s with pending := pending })

end Send

end MzQuic
