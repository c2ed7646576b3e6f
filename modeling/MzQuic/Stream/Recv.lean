import MzQuic.Proto.Frame
import MzQuic.Stream.Assembler

/-!
# The receive half of a stream (`core/src/connection/stream/recv.rs`)

* `Recv` with `ingest`, `stop` and `reset`; `ingest_cases`, `reset_cases` and `stop_cases`;
* `Chunks.next`: reading from a stream that was taken out of the table.
-/

namespace MzQuic

open Lib

/-- `RecvState`. -/
inductive RecvState
  | recv (size : Option ℕ)
  | resetRecvd (size errorCode : ℕ)
  deriving DecidableEq

/-- `Recv`. -/
structure Recv where
  state : RecvState := .recv none
  assembler : Assembler := Assembler.default
  «end» : ℕ := 0
  stopped : Bool := false
  deriving DecidableEq

/-- `ClosedStream`. -/
structure ClosedStream where
  deriving DecidableEq, Repr

namespace Recv

/-- `Recv::default`. -/
def default : Recv := {}

/-- `Recv::final_offset_unknown`. -/
def finalOffsetUnknown (rs : Recv) : Bool := rs.state = .recv none

/-- `Recv::is_receiving`. -/
def isReceiving (rs : Recv) : Bool :=
  match rs.state with
  | .recv _ => true
  | .resetRecvd .. => false

/-- `Recv::final_offset`. -/
def finalOffset (rs : Recv) : Option ℕ :=
  match rs.state with
  | .recv size => size
  | .resetRecvd size _ => some size

/-- The final size contradicts a frame that ends at `stop`. -/
def sizeError (rs : Recv) (stop : ℕ) (fin : Bool) : Bool :=
  rs.finalOffset.any fun final => stop > final || (fin && stop ≠ final)

/-- `Recv::ingest`: the number of new bytes and whether the stream is closed. -/
def ingest (rs : Recv) (frame : Stream) (payloadLen : ℕ) :
    Checked (Except TransportError (ℕ × Bool) × Recv) :=
  let stop := frame.offset + frame.data.length
  if stop ≥ 2 ^ 62 then
    .ok (.error (TransportError.flowControlError "maximum stream offset too large"), rs)
  else if rs.sizeError stop frame.fin then .ok (.error (TransportError.finalSizeError ""), rs)
  else
    let newBytes := stop - rs.end
    -- a stopped stream does not wait for its data
    let state := if frame.fin && !rs.stopped && rs.isReceiving then .recv (some stop) else rs.state
    let rs := { rs with state := state, «end» := max rs.end stop }
    if rs.stopped then .ok (.ok (newBytes, frame.fin), rs)
    else do
      let assembler ← rs.assembler.insert frame.offset frame.data payloadLen
      return (.ok (newBytes, false), { rs with assembler := assembler })

/-- `Recv::stop`: the read credits and whether STOP_SENDING is to be sent. -/
def stop (rs : Recv) : Checked (Except ClosedStream (ℕ × Bool) × Recv) :=
  if rs.stopped then .ok (.error ⟨⟩, rs)
  else do
    let rs := { rs with stopped := true, assembler := rs.assembler.clear }
    let readCredits ← Checked.sub rs.end rs.assembler.bytesRead
    return (.ok (readCredits, rs.isReceiving), rs)

/-- `Recv::reset`: `false` if the reset was redundant. -/
def reset (rs : Recv) (errorCode finalOffset : ℕ) : Except TransportError Bool × Recv :=
  match rs.finalOffset with
  | some offset =>
    if offset ≠ finalOffset then (.error (TransportError.finalSizeError "inconsistent value"), rs)
    else commit
  | none =>
    if rs.end > finalOffset then
      (.error (TransportError.finalSizeError "lower than high water mark"), rs)
    else commit
where
  /-- The state transition, once the final offset has been checked. -/
  commit : Except TransportError Bool × Recv :=
    if rs.isReceiving then
      (.ok true, { rs with
        state := .resetRecvd finalOffset errorCode
        assembler := rs.assembler.clear })
    else (.ok false, rs)

/-- `Recv::reset_code`. -/
def resetCode (rs : Recv) : Option ℕ :=
  match rs.state with
  | .resetRecvd _ errorCode => some errorCode
  | .recv _ => none

/-! ## What the operations do -/

variable {rs rs' : Recv} {frame : Stream} {payloadLen : ℕ}

theorem sizeError_eq_true {stop : ℕ} {fin : Bool} : rs.sizeError stop fin = true ↔
    ∃ n, rs.finalOffset = some n ∧ (n < stop ∨ fin = true ∧ stop ≠ n) := by
  unfold sizeError
  rw [Option.any_eq_true]
  simp

/-- A frame without an error agrees with the final size. -/
theorem agrees_of_sizeError {stop n : ℕ} {fin : Bool} (h : rs.sizeError stop fin = false)
    (hn : rs.finalOffset = some n) : stop ≤ n ∧ (fin = true → stop = n) := by
  have hno : ¬ (n < stop ∨ fin = true ∧ stop ≠ n) := fun he =>
    Bool.eq_false_iff.mp h (sizeError_eq_true.mpr ⟨n, hn, he⟩)
  rw [not_or, not_and, not_not] at hno
  exact ⟨Nat.le_of_not_lt hno.1, hno.2⟩

/-- **What `ingest` does**: it rejects the frame, or the highest offset grows, and a FIN tells the size. -/
theorem ingest_cases {res : Except TransportError (ℕ × Bool)}
    (h : rs.ingest frame payloadLen = .ok (res, rs')) :
    (rs' = rs ∧ (∃ e, res = .error e) ∧ (2 ^ 62 ≤ frame.offset + frame.data.length ∨
      rs.sizeError (frame.offset + frame.data.length) frame.fin = true)) ∨
    frame.offset + frame.data.length < 2 ^ 62 ∧ rs.sizeError (frame.offset + frame.data.length) frame.fin = false ∧
      res = .ok (frame.offset + frame.data.length - rs.end, frame.fin && rs.stopped) ∧
      rs'.end = max rs.end (frame.offset + frame.data.length) ∧ rs'.stopped = rs.stopped ∧
      (rs'.state = if frame.fin && !rs.stopped && rs.isReceiving then
        .recv (some (frame.offset + frame.data.length)) else rs.state) ∧
      (rs.stopped = true ∧ rs'.assembler = rs.assembler ∨ rs.stopped = false ∧
        rs.assembler.insert frame.offset frame.data payloadLen = .ok rs'.assembler) := by
  unfold ingest at h
  dsimp only at h
  by_cases h1 : frame.offset + frame.data.length ≥ 2 ^ 62
  · rw [if_pos h1] at h
    cases h
    exact .inl ⟨rfl, ⟨_, rfl⟩, .inl h1⟩
  rw [if_neg h1] at h
  by_cases h2 : rs.sizeError (frame.offset + frame.data.length) frame.fin = true
  · rw [if_pos h2] at h
    cases h
    exact .inl ⟨rfl, ⟨_, rfl⟩, .inr h2⟩
  rw [if_neg h2] at h
  refine .inr ⟨Nat.lt_of_not_le h1, Bool.eq_false_iff.mpr h2, ?_⟩
  by_cases h3 : rs.stopped = true
  · rw [if_pos h3] at h
    cases h
    exact ⟨by rw [h3, Bool.and_true], rfl, rfl, rfl, .inl ⟨h3, rfl⟩⟩
  · rw [if_neg h3] at h
    obtain ⟨a, ha, h⟩ := Checked.bind_eq_ok.mp h
    cases h
    rw [Bool.not_eq_true] at h3
    exact ⟨by rw [h3, Bool.and_false], rfl, rfl, rfl, .inr ⟨h3, ha⟩⟩

/-- A frame that goes beyond the final size, or tells another one, is rejected. -/
theorem ingest_rejects (h : rs.sizeError (frame.offset + frame.data.length) frame.fin = true) :
    ∃ e, rs.ingest frame payloadLen = .ok (.error e, rs) := by
  unfold ingest
  dsimp only
  rw [h, if_pos rfl]
  split_ifs
  · exact ⟨_, rfl⟩
  · exact ⟨_, rfl⟩

/-- **What `reset` does**: it rejects the size, or finds that the half was reset before, or sets the size. -/
theorem reset_cases (rs : Recv) (errorCode finalOffset : ℕ) :
    ((∃ e, rs.reset errorCode finalOffset = (.error e, rs)) ∧
      ((∃ n, rs.finalOffset = some n ∧ finalOffset ≠ n) ∨ rs.finalOffset = none ∧ finalOffset < rs.end)) ∨
    (rs.reset errorCode finalOffset = (.ok false, rs) ∧ rs.isReceiving = false ∧
      rs.finalOffset = some finalOffset) ∨
    rs.reset errorCode finalOffset = (.ok true, { rs with
        state := .resetRecvd finalOffset errorCode
        assembler := rs.assembler.clear }) ∧ rs.isReceiving = true ∧
      (rs.finalOffset = some finalOffset ∨ rs.finalOffset = none ∧ rs.end ≤ finalOffset) := by
  -- a half that was reset knows its size
  have hknown : rs.isReceiving = false → rs.finalOffset ≠ none := by
    unfold isReceiving Recv.finalOffset
    cases rs.state with
    | recv size => simp
    | resetRecvd size code => simp
  unfold reset reset.commit
  cases hf : rs.finalOffset with
  | some n =>
      dsimp only
      by_cases hne : n = finalOffset
      · subst hne
        rw [if_neg (not_not.mpr rfl)]
        split_ifs with hr
        · exact .inr (.inr ⟨rfl, hr, .inl rfl⟩)
        · exact .inr (.inl ⟨rfl, Bool.eq_false_iff.mpr hr, rfl⟩)
      · rw [if_pos hne]
        exact .inl ⟨⟨_, rfl⟩, .inl ⟨n, rfl, Ne.symm hne⟩⟩
  | none =>
      dsimp only
      by_cases hlt : rs.end > finalOffset
      · rw [if_pos hlt]
        exact .inl ⟨⟨_, rfl⟩, .inr ⟨rfl, hlt⟩⟩
      · rw [if_neg hlt]
        split_ifs with hr
        · exact .inr (.inr ⟨rfl, hr, .inr ⟨rfl, Nat.le_of_not_lt hlt⟩⟩)
        · exact absurd hf (hknown (Bool.eq_false_iff.mpr hr))

/-- **What `stop` does**, the first time and later. -/
theorem stop_cases {res : Except ClosedStream (ℕ × Bool)} (h : rs.stop = .ok (res, rs')) :
    (rs.stopped = true ∧ rs' = rs ∧ ∃ e, res = .error e) ∨
    rs.stopped = false ∧ rs' = { rs with stopped := true, assembler := rs.assembler.clear } ∧
      ∃ n, res = .ok (n, rs.isReceiving) := by
  unfold stop at h
  split_ifs at h with hs
  · cases h
    exact .inl ⟨hs, rfl, _, rfl⟩
  · obtain ⟨n, -, h⟩ := Checked.bind_eq_ok.mp h
    cases h
    exact .inr ⟨Bool.eq_false_iff.mpr hs, rfl, n, rfl⟩

theorem finalOffset_congr (h : rs'.state = rs.state) : rs'.finalOffset = rs.finalOffset := by
  unfold finalOffset
  rw [h]

end Recv

/-! ## Reading -/

/-- `ReadError`. -/
inductive ReadError
  | blocked
  | reset (errorCode : ℕ)
  deriving DecidableEq

/-- `ReadableError`. -/
inductive ReadableError
  | closedStream
  | illegalOrderedRead
  deriving DecidableEq

/-- `ChunksState`. -/
inductive ChunksState
  | readable (rs : Recv)
  | reset (errorCode : ℕ)
  | finished
  deriving DecidableEq

/-- `Chunks`, apart from the table it was taken from. -/
structure Chunks where
  id : StreamId
  ordered : Bool
  state : ChunksState
  read : ℕ
  deriving DecidableEq

/-- `Chunks::next`. -/
def Chunks.next (c : Chunks) (maxLength : ℕ) :
    Checked (Except ReadError (Option Chunk) × Chunks) :=
  match c.state with
  | .reset errorCode => .ok (.error (.reset errorCode), c)
  | .finished => .ok (.ok none, c)
  | .readable rs => do
    match ← rs.assembler.read maxLength c.ordered with
    | (some chunk, assembler) =>
      return (.ok (some chunk), { c with
        state := .readable { rs with assembler := assembler }
        read := c.read + chunk.bytes.length })
    | (none, assembler) =>
      let rs := { rs with assembler := assembler }
      match rs.state with
      | .resetRecvd _ errorCode =>
        Checked.assert (c.read = 0)
        return (.error (.reset errorCode), { c with state := .reset errorCode })
      | .recv size =>
        if size = some rs.end ∧ rs.assembler.bytesRead = rs.end then
          return (.ok none, { c with state := .finished })
        else return (.error .blocked, { c with state := .readable rs })

end MzQuic
