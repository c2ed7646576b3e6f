import MzQuic.Connection.Moves
import MzQuic.Proto.Size

/-!
# Packets fit into their buffer

`poll_transmit` composes each packet in a buffer of `INITIAL_MTU` bytes, and a write past its end
panics.

* `AcksBounded`: there are never more than `MAX_ACK_BLOCKS` ranges to acknowledge, so that the header,
  the ACK frame and the hello fit; the control frames check for room themselves;
* `Fits`: when a STREAM frame fits; `poll_transmit` on the send buffer is given all the room that is
  left, and takes only the offset and eight bytes for the length off it, not the type and the id;
* **`packet_fits`**: in every reachable state, if the STREAM frames fit, no write is past the end.
-/

namespace MzQuic

open Lib Checked

/-! ## The ranges to acknowledge -/

/-- There are at most `MAX_ACK_BLOCKS` ranges to acknowledge in each space. -/
def Connection.AcksBounded (c : Connection) : Prop := ∀ id, (c.ackRanges id).len ≤ maxAckBlocks

theorem PendingAcks.insertOne_len (a : PendingAcks) (h : a.ranges.len ≤ maxAckBlocks) (n : ℕ)
    (now : Instant) : (a.insertOne n now).ranges.len ≤ maxAckBlocks := by
  have hlen : (a.ranges.insertOne n).2.len ≤ a.ranges.len + 1 := a.ranges.length_insert_le ⟨n, n + 1⟩
  unfold PendingAcks.insertOne
  dsimp only
  split_ifs with hmax
  · simp only [ArrayRangeSet.len, ArrayRangeSet.popMin, ArrayRangeSet.tail, List.length_tail] at hlen h ⊢
    omega
  · omega

theorem PacketSpace.ackedBy_len (s : PacketSpace) (packet : SentPacket) :
    (s.ackedBy packet).pendingAcks.ranges.len ≤ s.pendingAcks.ranges.len := by
  unfold PacketSpace.ackedBy
  split
  · exact s.pendingAcks.ranges.length_remove_le _
  · exact le_rfl

namespace Connection

theorem AcksBounded.update {c c' : Connection} {id : SpaceId} {r : ArrayRangeSet} (hc : c.AcksBounded)
    (h : c'.ackRanges = Function.update c.ackRanges id r) (hr : r.len ≤ maxAckBlocks) :
    c'.AcksBounded := by
  intro i
  rw [h]
  by_cases hi : i = id
  · subst hi
    rwa [Function.update_self]
  · rw [Function.update_of_ne hi]
    exact hc i

theorem AcksBounded.congr {c c' : Connection} (hc : c.AcksBounded) (h : c'.ackRanges = c.ackRanges) :
    c'.AcksBounded := fun i => by
  rw [h]
  exact hc i

theorem Move.acksBounded {c c' : Connection} (h : Move c c') (hc : c.AcksBounded) : c'.AcksBounded := by
  cases h with
  | quiet h => exact hc.congr h.2
  | received id n now _ ha => exact hc.update ha (PendingAcks.insertOne_len _ (hc id) n now)
  | acked id pn h =>
      rcases ackOne_ok h with ⟨rfl, -⟩ | ⟨packet, s, -, -, ha⟩
      · exact hc
      · exact hc.update ha ((PacketSpace.ackedBy_len _ packet).trans (hc id))
  | lost now id p hp h =>
      obtain ⟨s, -, -, ha⟩ := loseOne_ok hp h
      exact hc.congr ha
  | discarded id h => exact hc.congr (discardSpace_ok h).2.2
  | composed now close id ackEliciting h =>
      obtain ⟨p, -, -, -, -, -, ha⟩ := composePacket_ok h
      exact hc.congr ha
  | sent t =>
      rcases c.sendOne_ok t with ⟨-, e⟩ | ⟨p, queue, -, -, ha⟩
      · rwa [e]
      · exact hc.congr ha

end Connection

open Connection

theorem connectionStep_acksBounded (c : Connection) (op : ConnectionOp) (c' : Connection)
    (hc : c.AcksBounded) (h : connectionStep c op = .ok c') : c'.AcksBounded := by
  by_cases hop : op.creates = false
  · exact Moves.inv (fun _ _ hm => hm.acksBounded) (connectionStep_moves hop h) hc
  · obtain ⟨s, rfl⟩ := connectionStep_creates hop h
    exact hc

theorem acksBounded_new (now : Instant) (side : Side) : (Connection.new now side).AcksBounded := by
  intro id
  cases side <;> cases id <;> exact Nat.zero_le _

/-! ## Everything but STREAM frames -/

theorem resetLoop_avoids (s : StreamsState) (queue : List (StreamId × ℕ)) (sent : ThinRetransmits)
    (buf : BufMut) : Avoids .capacity (s.resetLoop queue sent buf) fun _ => True := by
  induction queue generalizing sent buf with
  | nil => exact .ok trivial
  | cons x queue ih =>
      obtain ⟨id, errorCode⟩ := x
      unfold StreamsState.resetLoop
      refine .ite (fun hroom => ?_) fun _ => .ok trivial
      split
      · exact ih sent buf
      · exact (takes_resetStream _ buf (Nat.le_of_lt hroom)).bind fun buf' _ => ih _ buf'

theorem stopLoop_avoids (queue : List StopSending) (sent : ThinRetransmits) (buf : BufMut) :
    Avoids .capacity (StreamsState.stopLoop queue sent buf) fun _ => True := by
  induction queue generalizing sent buf with
  | nil => exact .ok trivial
  | cons frame queue ih =>
      unfold StreamsState.stopLoop
      refine .ite (fun hroom => ?_) fun _ => .ok trivial
      exact (takes_stopSending frame buf (Nat.le_of_lt hroom)).bind fun buf' _ => ih _ buf'

theorem writeControlFrames_avoids (s : StreamsState) (buf : BufMut) (pending : Retransmits)
    (sent : ThinRetransmits) :
    Avoids .capacity (s.writeControlFrames buf pending sent) fun _ => True := by
  unfold StreamsState.writeControlFrames
  refine (resetLoop_avoids s _ sent buf).bind fun r _ => ?_
  exact (stopLoop_avoids _ r.2.1 r.2.2).bind fun _ _ => .ok trivial

/-- What the ACK frame takes at most. -/
def ackBound : ℕ := 24 + 16 * maxAckBlocks

theorem populateAnyAcks_avoids {space : PacketSpace} {now : Instant} {buf : BufMut}
    (hs : space.pendingAcks.ranges.len ≤ maxAckBlocks) (hroom : ackBound ≤ buf.remainingMut) :
    Avoids .capacity (populateAnyAcks now space buf) fun r =>
      buf.remainingMut ≤ r.2.remainingMut + ackBound := by
  unfold populateAnyAcks populateAcks
  refine .ite (fun _ => ?_) fun _ => .ok (Nat.le_add_right _ _)
  refine (avoids_assert (by decide) _).bind fun _ _ => ?_
  refine Avoids.bind (((takes_ack _ _).mono (n := ackBound) ?_) buf hroom) fun buf' h => .ok ?_
  · unfold ackBound
    omega
  · exact h

theorem populateHello_avoids {id : SpaceId} {sent : SentFrames} {space : PacketSpace} {buf : BufMut}
    (hroom : 5 ≤ buf.remainingMut) :
    Avoids .capacity (populateHello id sent space buf) fun _ => True := by
  have hhello : Avoids .capacity (if space.pending.hello then do
      let buf ← buf.putUint 1 0x06
      let buf ← buf.putUint 1 0x00
      let buf ← buf.putUint 1 0x01
      let buf ← buf.putUint 1 0x00
      return (({ sent with
        retransmits := some { sent.retransmits.getOrCreate with hello := true } } : SentFrames),
        ({ space with pending := { space.pending with hello := false }, hi := true } : PacketSpace), buf)
    else return (sent, space, buf)) fun r => 1 ≤ r.2.2.remainingMut := by
    refine .ite (fun _ => ?_) fun _ => .ok (by simp only; omega)
    refine (takes_uint 1 _ buf (by omega)).bind fun b1 h1 => ?_
    refine (takes_uint 1 _ b1 (by omega)).bind fun b2 h2 => ?_
    refine (takes_uint 1 _ b2 (by omega)).bind fun b3 h3 => ?_
    exact (takes_uint 1 _ b3 (by omega)).bind fun b4 h4 => .ok (by simp only; omega)
  refine hhello.bind fun r hr => .ite (fun _ => ?_) fun _ => .ok trivial
  exact (takes_uint 1 _ r.2.2 hr).bind fun _ _ => .ok trivial

theorem populateControl_avoids {c : Connection} (hc : c.AcksBounded) {now : Instant} {id : SpaceId}
    {buf : BufMut} (hroom : ackBound + 5 ≤ buf.remainingMut) :
    Avoids .capacity (c.populateControl now id buf) fun _ => True := by
  unfold populateControl
  refine (populateAnyAcks_avoids (hc id) (by omega)).bind fun r hr => ?_
  refine (populateHello_avoids (by omega)).bind fun r' _ => .ite (fun _ => ?_) fun _ => .ok trivial
  exact (writeControlFrames_avoids _ _ _ _).bind fun _ _ => .ok trivial

theorem startPacket_avoids (c : Connection) (id : SpaceId) : Avoids .capacity (c.startPacket id) fun r =>
    initialMtu ≤ r.2.2.remainingMut + 53 := by
  unfold startPacket PacketSpace.getTxNumber
  have hn : Avoids .capacity (do
      assert ((c.spaces id).nextPacketNumber < 2 ^ 62)
      return ((c.spaces id).nextPacketNumber,
        { c.spaces id with nextPacketNumber := (c.spaces id).nextPacketNumber + 1 })) fun _ => True :=
    (avoids_assert (by decide) _).bind fun _ _ => .ok trivial
  refine hn.bind fun r _ => ?_
  have hnumber : Avoids .capacity (PacketNumber.new r.1 ((c.spaces id).largestAckedPacket.getD 0))
      fun _ => True := by
    unfold PacketNumber.new
    refine (avoids_sub (by decide) _ _).bind fun d _ => ?_
    refine .ite (fun _ => .ok trivial) fun _ => .ite (fun _ => .ok trivial) fun _ => ?_
    exact .ite (fun _ => .ok trivial) fun _ => .ite (fun _ => .ok trivial) fun _ => .error (by decide)
  refine hnumber.bind fun number _ => ?_
  have hheader : TakesAtMost 53 (txHeader id number).encode := by
    refine takes_header _ ?_ fun i hi => ?_
    · cases id <;> rfl
    · cases id <;> cases hi
      rfl
  exact (hheader (BufMut.withCapacity initialMtu) (by decide)).bind fun buf h => .ok h

/-! ## STREAM frames -/

/-- The bytes that the next STREAM frame takes in a buffer with `room` bytes left: type, id and
offset, and the length and the data of the range that `poll_transmit` will choose. -/
def SendBuffer.frameNeed (b : SendBuffer) (id : StreamId) (room : ℕ) : ℕ :=
  let start := b.nextRange.start
  let len := b.nextRange.end - start
  let left := room - offsetSize start
  1 + varintSize id.val + offsetSize start +
    if len < left then varintSize (min len (left - 8)) + min (min len (left - 8)) (b.rest start)
    else min left (b.rest start)

/-- The stream whose turn it is fits into the buffer. -/
def StreamsState.Fits (s : StreamsState) (buf : BufMut) : Prop :=
  ∀ x ∈ s.pending.pop, ∀ stream ∈ s.send x.1.id, stream.isReset = false → stream.isPending = true →
    Stream.sizeBound ≤ buf.remainingMut →
      stream.pending.frameNeed x.1.id buf.remainingMut ≤ buf.remainingMut

instance (s : StreamsState) (buf : BufMut) : Decidable (s.Fits buf) :=
  inferInstanceAs (Decidable (∀ x ∈ s.pending.pop, ∀ stream ∈ s.send x.1.id, _))

theorem takes_streamMeta (m : StreamMeta) (length : Bool) :
    TakesAtMost (1 + (varintSize m.id.val + (offsetSize m.offsets.start +
      if length then varintSize (m.offsets.end - m.offsets.start) else 0))) (m.encode length) := by
  have hoff : TakesAtMost (offsetSize m.offsets.start) fun out =>
      if m.offsets.start ≠ 0 then putVarint m.offsets.start out else pure out := by
    unfold offsetSize
    by_cases h0 : m.offsets.start = 0
    · simp only [h0, ne_eq, not_true_eq_false, if_true, if_false]
      exact TakesAtMost.ok
    · simp only [h0, ne_eq, not_false_eq_true, if_true, if_false]
      exact takes_putVarint _
  have hlen : TakesAtMost (if length then varintSize (m.offsets.end - m.offsets.start) else 0)
      fun out => if length then do
          let n ← sub m.offsets.end m.offsets.start
          putVarint n out
        else pure out := by
    cases length with
    | false => exact TakesAtMost.ok
    | true =>
        refine .lift (sub_ne_capacity _ _) fun n hn => ?_
        obtain ⟨-, rfl⟩ := sub_eq_ok.mp hn
        exact takes_putVarint _
  exact (takes_type (m.ty_lt length)).seq ((takes_putVarint _).seq (hoff.seq hlen))

theorem sendTurn_avoids {fair : Bool} {s : StreamsState} {buf : BufMut} {id : StreamId} {stream : Send}
    (hroom : Stream.sizeBound ≤ buf.remainingMut)
    (hf : stream.pending.frameNeed id buf.remainingMut ≤ buf.remainingMut) :
    Avoids .capacity (StreamsState.sendTurn fair s buf id stream) fun _ => True := by
  have hm : 16 ≤ buf.remainingMut := le_trans (by decide) hroom
  unfold StreamsState.sendTurn
  refine (SendBuffer.pollTransmit_avoids (by decide) (by decide) hm).and_eq.bind
    fun ⟨⟨range, enc⟩, pending⟩ hp => ?_
  obtain ⟨-, hclamp, hstart, rfl⟩ := SendBuffer.pollTransmit_ok hp.2
  obtain ⟨hle, hc⟩ := clampNew_clamped hm hclamp
  obtain ⟨hse, -⟩ := clampNew_ok hclamp
  rw [← hstart] at hle hc hse
  unfold SendBuffer.frameNeed at hf
  rw [← hstart] at hf
  dsimp only at hf ⊢
  refine .ite (fun _ => .ok trivial) fun _ => ?_
  generalize (stream.finPending && decide (range.end = (stream.pending.sent range.end).offset)) = fin
  have hneed : (1 + (varintSize id.val + (offsetSize range.start +
      if enc then varintSize (range.end - range.start) else 0))) +
        min (range.end - range.start) (stream.pending.rest range.start) ≤ buf.remainingMut := by
    unfold clamped at hc
    split_ifs at hc hf with hlt
    · obtain ⟨he, rfl⟩ := Prod.mk.inj hc
      rw [show range.end - range.start = _ from Nat.sub_eq_of_eq_add' he, if_pos rfl]
      omega
    · obtain ⟨he, rfl⟩ := Prod.mk.inj hc
      rw [show range.end - range.start = _ from Nat.sub_eq_of_eq_add' he, if_neg Bool.false_ne_true]
      omega
  refine (takes_streamMeta ⟨id, range, fin⟩ enc buf (by dsimp only; omega)).bind fun buf₁ h1 => ?_
  have hdata : Avoids .capacity (if range.isEmpty then pure buf₁ else do
      let data ← (stream.pending.sent range.end).get range
      buf₁.putSlice data) fun _ => True := by
    refine .ite (fun _ => .ok trivial) fun _ => (SendBuffer.get_avoids (by decide) hse).bind
      fun data hd => ?_
    rw [SendBuffer.sent_rest] at hd
    dsimp only at h1
    refine (TakesAtMost.of_appends (appends_putSlice data) buf₁ (by omega)).mono fun _ _ => trivial
  refine hdata.bind fun buf₂ _ => .ite (fun _ => .ok trivial) fun _ => .ite (fun _ => .ok trivial) fun _ => ?_
  refine Avoids.bind (Q := fun _ => True) ?_ fun _ _ => .ok trivial
  exact (avoids_assert (by decide) _).bind fun _ _ => .ok trivial

/-- Every frame fits that the loop writes. -/
theorem writeStreamFrames_fits {fair : Bool} {s : StreamsState} {buf : BufMut}
    (hf : StreamsState.TurnsMeet fair StreamsState.Fits (s.writeFuel buf) s buf) :
    Avoids .capacity (s.writeStreamFrames buf fair) fun _ => True :=
  StreamsState.writeStreamFrames_avoids (fun _ _ hf => StreamsState.streamTurn_avoids
    fun hroom x q hp stream hs hr hpd => sendTurn_avoids hroom (hf (x, q) hp stream hs hr hpd hroom)) hf

/-! ## Whole packets -/

namespace Connection

/-- The STREAM frames of the packet of the data space fit, where the room for them is what the
header, the ACK frame, the hello and the control frames leave. -/
def StreamsFit (c : Connection) (now : Instant) : Prop :=
  match c.startPacket .data with
  | .error _ => True
  | .ok (_, c, buf) =>
    match c.populateControl now .data buf with
    | .error _ => True
    | .ok (_, _, buf) =>
      StreamsState.TurnsMeet true StreamsState.Fits (c.streams.writeFuel buf) c.streams buf

/-- A round of `poll_transmit` composes no packet in the data space, or one whose STREAM frames
fit. -/
def SpaceFits (now : Instant) (congestionBlocked : Bool) (s : Connection × Bool) (id : SpaceId) : Prop :=
  id = .data → (s.1.spaceCanSend .data).isEmpty = false →
    ((s.1.spaceCanSend .data).other && congestionBlocked) = false → s.1.StreamsFit now

/-- The packets that `poll_transmit` composes have room for their STREAM frames; there are none on a
closed connection. -/
def PacketsFit (c : Connection) (now : Instant) : Prop :=
  c.state.isClosed = false → Meets
    (transmitSpace now false (c.path.inFlight.bytes ≥ c.path.congestion.window))
    (SpaceFits now (c.path.inFlight.bytes ≥ c.path.congestion.window)) (c, false) SpaceId.variants

instance (c : Connection) (now : Instant) : Decidable (c.StreamsFit now) :=
  match h : c.startPacket .data with
  | .error _ => .isTrue (by unfold StreamsFit; rw [h]; trivial)
  | .ok (_, c₁, buf) =>
    match h' : c₁.populateControl now .data buf with
    | .error _ => .isTrue (by unfold StreamsFit; rw [h]; dsimp only; rw [h']; trivial)
    | .ok (_, _, buf₂) => decidable_of_iff
        (StreamsState.TurnsMeet true StreamsState.Fits (c₁.streams.writeFuel buf₂) c₁.streams buf₂)
        (by unfold StreamsFit; rw [h]; dsimp only; rw [h'])

instance (now : Instant) (b : Bool) (s : Connection × Bool) (id : SpaceId) :
    Decidable (SpaceFits now b s id) := by
  unfold SpaceFits
  infer_instance

instance (c : Connection) (now : Instant) : Decidable (c.PacketsFit now) := by
  unfold PacketsFit
  infer_instance

theorem discardSpace_avoids (c : Connection) (id : SpaceId) :
    Avoids .capacity (c.discardSpace id) fun _ => True := by
  unfold discardSpace
  refine (avoids_assert (by decide) _).bind fun _ _ => ?_
  refine Avoids.bind (Q := fun _ => True) ?_ fun _ _ => .ok trivial
  have hm : Meets (fun (path : NetworkPath) (p : ℕ × SentPacket) => do
      return (← path.removeInFlight p.1 p.2).2) (fun _ _ => True) c.path
        (c.spaces id).sentPackets.entries := Meets.of_forall fun _ _ => trivial
  refine run_avoids (I := fun _ => True) (fun path p _ _ => ?_) trivial hm
  refine Avoids.bind (Q := fun _ => True) ?_ fun _ _ => .ok trivial
  unfold NetworkPath.removeInFlight InFlight.remove
  refine .ite (fun _ => .ok trivial) fun _ => Avoids.bind (Q := fun _ => True) ?_ fun _ _ => .ok trivial
  refine (avoids_sub (by decide) _ _).bind fun _ _ => ?_
  exact (avoids_sub (by decide) _ _).bind fun _ _ => .ok trivial

/-- **One packet fits**: header, ACKs, hello and control frames always, STREAM frames if there is
room for them. -/
theorem composePacket_avoids {c : Connection} (hc : c.AcksBounded) {now : Instant} {close : Bool}
    {id : SpaceId} {ackEliciting : Bool} (hf : close = false → id = .data → c.StreamsFit now) :
    Avoids .capacity (composePacket now close c id ackEliciting) fun _ => True := by
  unfold composePacket
  refine (startPacket_avoids c id).and_eq.bind fun ⟨n, c₁, buf⟩ h1 => ?_
  obtain ⟨hroom, h1⟩ := h1
  obtain ⟨-, -, hc₁⟩ := startPacket_ok h1
  have hbound : c₁.AcksBounded := hc.congr (by rw [hc₁, numbered_ackRanges])
  have hroom' : ackBound + 5 ≤ buf.remainingMut := by
    simp only [initialMtu, ackBound, maxAckBlocks] at hroom ⊢
    omega
  refine Avoids.bind (Q := fun _ => True) (.ite (fun _ => ?_) fun hclose => ?_) fun _ _ => .ok trivial
  · exact (populateAnyAcks_avoids (hbound id) (by omega)).bind fun _ _ => .ok trivial
  · refine (populateControl_avoids hbound hroom').and_eq.bind fun ⟨sent, space, buf₂⟩ h2 => ?_
    refine .ite (fun hid => ?_) fun _ => .ok trivial
    subst hid
    have hfit := hf (by simpa using hclose) rfl
    unfold StreamsFit at hfit
    rw [h1] at hfit
    dsimp only at hfit
    rw [h2.2] at hfit
    exact (writeStreamFrames_fits hfit).bind fun _ _ => .ok trivial

theorem transmitSpace_avoids {now : Instant} {close blocked : Bool} {s : Connection × Bool}
    {id : SpaceId} (hs : s.1.AcksBounded) (hf : close = false → SpaceFits now blocked s id) :
    Avoids .capacity (transmitSpace now close blocked s id) fun s' => s'.1.AcksBounded := by
  have havoid : Avoids .capacity (transmitSpace now close blocked s id) fun _ => True := by
    obtain ⟨c, sentAny⟩ := s
    unfold transmitSpace
    dsimp only
    refine .ite (fun _ => .ok trivial) fun hskip => ?_
    have hdiscard : Avoids .capacity (if c.side = .client ∧ id = .handshake ∧
        (c.spaces .initial).hi = true then c.discardSpace .initial else .ok c)
        fun c' => c'.AcksBounded ∧ (id = .data → c' = c) := by
      refine .ite (fun hd => ?_) fun _ => .ok ⟨hs, fun _ => rfl⟩
      refine (discardSpace_avoids c _).and_eq.mono fun c' h' => ⟨?_, fun hid => ?_⟩
      · exact hs.congr (discardSpace_ok h'.2).2.2
      · rw [hid] at hd
        cases hd.2.1
    refine hdiscard.bind fun c' ⟨hc', hid⟩ => .ite (fun _ => .ok trivial) fun hblock => ?_
    refine (composePacket_avoids hc' fun hclose hdata => ?_).bind fun _ _ => .ok trivial
    subst hdata
    rw [hid rfl] at hblock ⊢
    refine hf hclose rfl ?_ ?_
    · subst hclose
      simpa using hskip
    · cases blocked with
      | false => rw [Bool.and_false]
      | true =>
          rw [Bool.and_true] at hblock ⊢
          revert hblock
          cases (c.spaceCanSend .data).other <;> simp
  refine ⟨havoid.1, fun s' h' => ?_⟩
  exact Moves.inv (fun _ _ hm => hm.acksBounded) (transmitSpace_moves h') hs

end Connection

/-- **Packets fit into their buffer.** In every reachable state, no write of `poll_transmit` is past
the end of the buffer, as long as the STREAM frames fit. -/
theorem packet_fits (start : Instant) (side : Side) (ops : List ConnectionOp) {c : Connection}
    (h : run connectionStep (Connection.new start side) ops = .ok c) (now : Instant)
    (hf : c.PacketsFit now) : c.pollTransmit now ≠ .error .capacity := by
  have hm : Meets connectionStep (fun _ _ => True) (Connection.new start side) ops :=
    Meets.of_forall fun _ _ => trivial
  have hc : c.AcksBounded :=
    run_inv (fun c op c' hc _ h => connectionStep_acksBounded c op c' hc h)
      (acksBounded_new start side) hm h
  have hspaces : ∀ close, (close = false → c.state.isClosed = false) →
      Avoids .capacity (c.pollSpaces now close) fun _ => True := by
    intro close hclose
    unfold pollSpaces
    have hm : Meets (transmitSpace now close (c.path.inFlight.bytes ≥ c.path.congestion.window))
        (fun s id => close = false →
          SpaceFits now (c.path.inFlight.bytes ≥ c.path.congestion.window) s id)
        (c, false) SpaceId.variants := by
      cases close with
      | false => exact (hf (hclose rfl)).mono fun _ _ h _ => h
      | true => exact Meets.mono (fun _ _ _ h => by cases h) (Meets.of_forall fun _ _ => trivial)
    refine (run_avoids (fun s id hs hok => transmitSpace_avoids hs hok) hc hm).bind fun r _ => ?_
    exact .ite (fun _ => .ok trivial) fun _ => .ok trivial
  unfold pollTransmit
  cases hst : c.state with
  | drained => simp
  | handshake => exact (hspaces false fun _ => by rw [hst]; rfl).1
  | established => exact (hspaces false fun _ => by rw [hst]; rfl).1
  | draining => exact (Avoids.ite (fun _ => .ok trivial) fun _ => hspaces true fun h => by cases h).1
  | closed reason =>
      exact (Avoids.ite (fun _ => .ok trivial) fun _ => hspaces true fun h => by cases h).1

/-- A packet with a STREAM frame of three bytes. -/
theorem packet_fits_three : ∃ ops c, run connectionStep (Connection.new 0 .client) ops = .ok c ∧
    c.streams.canSendStreamData = true ∧ c.pollTransmit 1 ≠ .error .capacity := by
  let ops : List ConnectionOp := [.openStream .bi, .write ⟨0⟩ [1, 2, 3]]
  exact ⟨ops, _, rfl, by decide, packet_fits 0 .client ops rfl 1 (by decide +kernel)⟩

/-- A write that is larger than a packet: `poll_transmit` chooses a range that fills the room that is
left, of which the type and the id of the frame then take two bytes. -/
theorem packet_overruns : ∃ ops c, run connectionStep (Connection.new 0 .client) ops = .ok c ∧
    c.pollTransmit 1 = .error .capacity := by
  refine ⟨[.openStream .bi, .write ⟨0⟩ (List.replicate 2000 7)], _, rfl, ?_⟩
  exact Checked.panic?_eq_some.mp (by decide +kernel)

end MzQuic
