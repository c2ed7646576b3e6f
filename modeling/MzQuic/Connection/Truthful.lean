import MzQuic.Connection.Buffers
import MzQuic.Connection.Compose
import MzQuic.Connection.Window
import MzQuic.Stream.Outgoing

/-!
# What is noted of a packet is what it carries

`poll_transmit` decides whether to send a packet and notes whether it elicits an ACK before it fills
it, and the queues it looks at may hold entries of streams with nothing to send.

* `live`: a space has a frame to send that elicits an ACK;
* `populatePacket_fills`: the frames of a packet;
* **`packets_truthful`**: a packet that is not a closing one, and in which whatever counts as
  ACK-eliciting is live, is read by the peer as it is noted.
-/

namespace MzQuic

open Lib

namespace Connection

/-! ## The frames of a packet -/

/-- A space has a control frame to write. The reset of a stream that is gone is none. -/
def control (c : Connection) (id : SpaceId) : Bool :=
  ((c.spaces id).pending.hello || (id = .data && (c.spaces id).pingPending)) ||
    (id = .data && (((c.spaces id).pending.resetStream.any fun p => (c.streams.send p.1).isSome) ||
      !(c.spaces id).pending.stopSending.isEmpty))

/-- A space has a frame to write that elicits an ACK. -/
def live (c : Connection) (id : SpaceId) : Bool :=
  c.control id || (id = .data && c.streams.pending.entries.any fun x => c.streams.ready x.id)

section Packet

variable {c c' : Connection} {now : Instant} {id : SpaceId} {buf buf' : BufMut}

/-- Whether a space is live depends on what is pending in it, and on the streams. -/
theorem live_modifySpace (c : Connection) (i : SpaceId) (f : PacketSpace → PacketSpace)
    (hp : (f (c.spaces i)).pending = (c.spaces i).pending)
    (hping : (f (c.spaces i)).pingPending = (c.spaces i).pingPending) :
    (c.modifySpace i f).live = c.live := by
  have e1 := field_modifySpace c i f PacketSpace.pending
  have e2 := field_modifySpace c i f PacketSpace.pingPending
  rw [hp, Function.update_eq_self] at e1
  rw [hping, Function.update_eq_self] at e2
  funext id
  unfold live control
  rw [congrFun e1 id, congrFun e2 id]
  rfl

/-- **The frames before the STREAM frames.** -/
theorem populateControl_wrote (hc : c.AcksBounded) {sent : SentFrames} {space : PacketSpace}
    (hroom : ackBound + ResetStream.sizeBound < buf.remainingMut)
    (h : c.populateControl now id buf = .ok (sent, space, buf')) :
    ∃ fs, FrameParser.Wrote fs buf buf' ∧ Noted fs sent.largestAcked [] (c.control id) ∧
      ((c.ackRanges id).isEmpty = false → fs ≠ []) ∧
      (c.control id = false → Stream.sizeBound ≤ buf'.remainingMut) := by
  obtain ⟨⟨largest, buf₁⟩, h1, h⟩ := Checked.bind_eq_ok.mp h
  obtain ⟨⟨sent₁, space₁, buf₂⟩, h2, h⟩ := Checked.bind_eq_ok.mp h
  obtain ⟨fs, hfs, hnoted, hne⟩ : ∃ fs, FrameParser.Wrote fs buf buf₁ ∧ Noted fs largest [] false ∧
      ((c.ackRanges id).isEmpty = false → fs ≠ []) := by
    rcases populateAnyAcks_wrote h1 with ⟨hnone, rfl, rfl⟩ | ⟨ack, rfl, hack⟩
    · exact ⟨[], .nil _, noted_nil, fun h => absurd (hnone.symm.trans h) Bool.noConfusion⟩
    · exact ⟨[.ack ack], hack, noted_ack ack, fun _ => List.cons_ne_nil _ _⟩
  obtain ⟨hhello, hl, hr, hst⟩ := populateHello_controls h2
  have hroom₁ : ResetStream.sizeBound < buf₁.remainingMut := by
    have := (populateAnyAcks_avoids (hc id) (by omega)).2 _ h1
    dsimp only at this
    omega
  have hcontrol : Controls (c.control id) buf₁ buf' ∧ sent.largestAcked = largest := by
    unfold control
    dsimp only at h
    split_ifs at h with hid
    · obtain ⟨⟨b, pending, retransmits⟩, h3, h⟩ := Checked.bind_eq_ok.mp h
      cases h
      have hctl := writeControlFrames_controls h3
      rw [hr, hst] at hctl
      refine ⟨?_, hl⟩
      have := hhello.append hctl
      simpa [hid] using this
    · cases h
      refine ⟨?_, hl⟩
      have := hhello.append (.none _)
      simpa [hid] using this
  obtain ⟨hcontrol, rfl⟩ := hcontrol
  obtain ⟨gs, hgs, hgnoted, hsame⟩ := hcontrol.noted hroom₁
  refine ⟨fs ++ gs, hfs.append hgs, ?_, fun hrs => ?_, fun hnone => ?_⟩
  · have := hnoted.append hgnoted
    rwa [List.nil_append, Bool.false_or] at this
  · exact List.append_ne_nil_of_left_ne_nil (hne hrs) gs
  · rw [hsame hnone]
    exact hroom₁.le

/-- **The frames of a packet** are noted as they are, and one of them elicits an ACK exactly if the
space is live. -/
theorem populatePacket_fills (hc : c.AcksBounded) (hb : Formed (buffers c.streams)) {sent : SentFrames}
    (hroom : ackBound + ResetStream.sizeBound < buf.remainingMut)
    (hw : ∀ sent space buf₁, id = .data → c.populateControl now id buf = .ok (sent, space, buf₁) →
      StreamsState.TurnsMeet true StreamsState.Whole (c.streams.writeFuel buf₁) c.streams buf₁)
    (h : c.populatePacket now id buf = .ok (sent, c', buf')) :
    ∃ fs, FrameParser.Wrote fs buf buf' ∧ Noted fs sent.largestAcked sent.streamFrames (c.live id) ∧
      ((c.ackRanges id).isEmpty = false → fs ≠ []) := by
  obtain ⟨⟨sent₁, space, buf₁⟩, h1, h⟩ := Checked.bind_eq_ok.mp h
  obtain ⟨fs, hfs, hnoted, hne, hleft⟩ := populateControl_wrote hc hroom h1
  obtain ⟨hnil, -⟩ := populateControl_ok h1
  dsimp only at h
  split_ifs at h with hid
  · obtain ⟨⟨metas, s, buf₂⟩, h2, h⟩ := Checked.bind_eq_ok.mp h
    cases h
    choose wrote hwrote using hb.send
    have hsent := writeStreamFrames_sentSince hwrote (hw sent₁ space buf₁ hid h1) h2
    have hall := hnoted.append (noted_streams wrote hsent.ranges)
    refine ⟨_, hfs.append hsent.frames, ?_, fun hr => List.append_ne_nil_of_left_ne_nil (hne hr) _⟩
    have hlive : (c.control id || !metas.isEmpty) = c.live id := by
      unfold live
      cases hctl : c.control id with
      | true => rw [Bool.true_or, Bool.true_or]
      | false =>
          -- the streams have all the room that the ACKs leave
          have hiff := StreamsState.writeStreamFrames_nil_iff hb.send (hleft hctl) h2
          rw [Bool.false_or, Bool.false_or, Bool.eq_iff_iff]
          simp only [hid, decide_true, Bool.true_and, Bool.not_eq_true', List.isEmpty_eq_false_iff, ne_eq,
            List.any_eq_true]
          rw [hiff]
          simp
    rw [hlive] at hall
    exact hall
  · cases h
    refine ⟨fs, hfs, ?_, hne⟩
    rw [hnil]
    simpa [live, hid] using hnoted

end Packet

/-! ## Packets -/

/-- A scheduled packet is one that the peer reads: its payload is not empty and consists of frames, of
which the metadata is true. -/
def Truthful (p : ScheduledPacket) : Prop :=
  ∃ header payload fs, Header.decode fakeCid.bytes.length supportedVersions p.packet =
      .ok (.ok header, payload) ∧ payload ≠ [] ∧ FrameParser.frames payload = .ok (.ok fs) ∧
    Noted fs p.metaInfo.largestAcked p.metaInfo.streamFrames p.metaInfo.ackEliciting

/-- In the packet of the data space, each range that is sent ends in the segment in which it begins. -/
def StreamsWhole (c : Connection) (now : Instant) : Prop :=
  match c.startPacket .data with
  | .error _ => True
  | .ok (_, c, buf) =>
    match c.populateControl now .data buf with
    | .error _ => True
    | .ok (_, _, buf) =>
      StreamsState.TurnsMeet true StreamsState.Whole (c.streams.writeFuel buf) c.streams buf

/-- In a poll, the space `id` gets no packet, or one that does not close the connection; the space is live
if it counts as ACK-eliciting, and its STREAM frames are whole. -/
def SpaceTruthful (c : Connection) (now : Instant) (close blocked : Bool) (id : SpaceId) : Prop :=
  c.composes close blocked id = true → close = false ∧
    ((c.spaceCanSend id).other = true → c.live id = true) ∧ (id = .data → c.StreamsWhole now)

/-- All spaces are such before a poll. -/
def PacketsTruthful (c : Connection) (now : Instant) : Prop :=
  ∀ close ∈ c.polls, ∀ id ∈ SpaceId.variants,
    c.SpaceTruthful now close (c.path.inFlight.bytes ≥ c.path.congestion.window) id

instance (c : Connection) (now : Instant) : Decidable (c.StreamsWhole now) :=
  match h : c.startPacket .data with
  | .error _ => .isTrue (by unfold StreamsWhole; rw [h]; trivial)
  | .ok (_, c₁, buf) =>
    match h' : c₁.populateControl now .data buf with
    | .error _ => .isTrue (by unfold StreamsWhole; rw [h]; dsimp only; rw [h']; trivial)
    | .ok (_, _, buf₂) => decidable_of_iff
        (StreamsState.TurnsMeet true StreamsState.Whole (c₁.streams.writeFuel buf₂) c₁.streams buf₂)
        (by unfold StreamsWhole; rw [h]; dsimp only; rw [h'])

instance (c : Connection) (now : Instant) (close blocked : Bool) (id : SpaceId) :
    Decidable (c.SpaceTruthful now close blocked id) := by
  unfold SpaceTruthful
  infer_instance

instance (c : Connection) (now : Instant) : Decidable (c.PacketsTruthful now) := by
  unfold PacketsTruthful
  infer_instance

/-! ## Rounds do not interfere -/

/-- The packet of the space `id` is made of the same things in both states. -/
structure Same (id : SpaceId) (c d : Connection) : Prop where
  space : d.spaces id = c.spaces id
  streams : d.streams = c.streams
  highestSpace : d.highestSpace = c.highestSpace

section Same

variable {c d : Connection} {now : Instant} {id : SpaceId}

theorem Same.trans {e : Connection} (h : Same id c d) (h' : Same id d e) : Same id c e :=
  ⟨h'.space.trans h.space, h'.streams.trans h.streams, h'.highestSpace.trans h.highestSpace⟩

theorem Same.spaceCanSend (h : Same id c d) : d.spaceCanSend id = c.spaceCanSend id := by
  unfold Connection.spaceCanSend
  rw [h.space, h.streams]

theorem Same.composes (h : Same id c d) (close blocked : Bool) :
    d.composes close blocked id = c.composes close blocked id := by
  unfold Connection.composes
  rw [h.spaceCanSend, h.highestSpace]

theorem Same.live (h : Same id c d) : d.live id = c.live id := by
  unfold Connection.live control
  rw [h.space, h.streams]

theorem Same.populateControl (h : Same id c d) (buf : BufMut) :
    d.populateControl now id buf = c.populateControl now id buf := by
  unfold Connection.populateControl
  rw [h.space, h.streams]

/-- The packets begin in the same way, and leave the same. -/
theorem Same.startPacket {n : ℕ} {d' : Connection} {buf : BufMut} (h : Same id c d)
    (hd : d.startPacket id = .ok (n, d', buf)) : ∃ c', c.startPacket id = .ok (n, c', buf) ∧ Same id c' d' := by
  unfold Connection.startPacket at hd ⊢
  rw [h.space] at hd
  obtain ⟨⟨exactNumber, space⟩, h1, hd⟩ := Checked.bind_eq_ok.mp hd
  obtain ⟨number, h2, hd⟩ := Checked.bind_eq_ok.mp hd
  obtain ⟨buf₁, h3, hd⟩ := Checked.bind_eq_ok.mp hd
  cases hd
  refine ⟨c.modifySpace id fun _ => space, ?_, ?_, h.streams, h.highestSpace⟩
  · refine Checked.bind_eq_ok.mpr ⟨_, h1, ?_⟩
    refine Checked.bind_eq_ok.mpr ⟨_, h2, ?_⟩
    exact Checked.bind_eq_ok.mpr ⟨_, h3, rfl⟩
  · exact (Function.update_self id space d.spaces).trans (Function.update_self id space c.spaces).symm

theorem StreamsWhole.congr (h : Same .data c d) (hw : c.StreamsWhole now) : d.StreamsWhole now := by
  unfold StreamsWhole
  split
  · trivial
  · rename_i hd
    obtain ⟨c', hc, h'⟩ := h.startPacket hd
    unfold StreamsWhole at hw
    rw [hc] at hw
    dsimp only at hw
    rwa [h'.populateControl, h'.streams]

theorem SpaceTruthful.congr {close blocked : Bool} (h : Same id c d)
    (ht : c.SpaceTruthful now close blocked id) : d.SpaceTruthful now close blocked id := by
  unfold SpaceTruthful at ht ⊢
  rw [h.composes, h.spaceCanSend, h.live]
  intro hcomp
  obtain ⟨hclose, hlive, hwhole⟩ := ht hcomp
  refine ⟨hclose, hlive, ?_⟩
  rintro rfl
  exact (hwhole rfl).congr h

/-- **A round leaves the later ones as they were.** Only the Initial space is discarded by another one. -/
theorem transmitSpace_same {close blocked : Bool} {s s' : Connection × Bool} {i : SpaceId} (hi : i ≠ id)
    (hinitial : i ≠ .initial) (hdata : id ≠ .data) (h : transmitSpace now close blocked s id = .ok s') :
    Same i s.1 s'.1 := by
  obtain ⟨c₁, hc₁, h⟩ := transmitSpace_cases h
  have hsame : Same i s.1 c₁ := by
    rcases hc₁ with rfl | ⟨-, hd⟩
    · exact ⟨rfl, rfl, rfl⟩
    · obtain ⟨timers, e⟩ := discardSpace_eq hd
      rw [e]
      exact ⟨Function.update_of_ne hinitial _ _, rfl, rfl⟩
  refine hsame.trans ?_
  rcases h with ⟨-, h⟩ | ⟨-, h⟩
  · rw [h]
    exact ⟨rfl, rfl, rfl⟩
  · obtain ⟨p, -, -, -, hspaces, hstreams, hhighest⟩ := composePacket_size h
    exact ⟨hspaces i hi, hstreams hdata, hhighest⟩

/-- What holds of all spaces before a poll holds of each of them when its round comes. -/
theorem rounds_truthful {close blocked : Bool}
    (h : ∀ id ∈ SpaceId.variants, c.SpaceTruthful now close blocked id) :
    Meets (transmitSpace now close blocked) (fun s id => s.1.SpaceTruthful now close blocked id) (c, false)
      SpaceId.variants := by
  refine ⟨h .initial (SpaceId.mem_variants _), fun s₁ h1 => ?_⟩
  have hs₁ : ∀ i, i ≠ .initial → Same i c s₁.1 := fun i hi => transmitSpace_same hi hi (by decide) h1
  refine ⟨(h .handshake (SpaceId.mem_variants _)).congr (hs₁ .handshake (by decide)), fun s₂ h2 => ?_⟩
  have hs₂ : Same .data c s₂.1 :=
    (hs₁ .data (by decide)).trans (transmitSpace_same (by decide) (by decide) (by decide) h2)
  exact ⟨(h .data (SpaceId.mem_variants _)).congr hs₂, fun _ _ => trivial⟩

end Same

section Poll

variable {c c' : Connection} {now : Instant} {id : SpaceId}

/-- A space that is live has ACK-eliciting data. -/
theorem other_of_live (h : c.live id = true) : (c.spaceCanSend id).other = true := by
  have hspace : ∀ i, (c.spaces i).canSend.other = true → (c.spaceCanSend i).other = true := by
    intro i hi
    unfold spaceCanSend
    split_ifs
    · show ((c.spaces i).canSend.other || _) = true
      rw [hi, Bool.true_or]
    · exact hi
  unfold live control at h
  simp only [Bool.or_eq_true, Bool.and_eq_true, decide_eq_true_eq] at h
  rcases h with ((hhello | ⟨-, hping⟩) | ⟨-, hreset | hstop⟩) | ⟨rfl, hready⟩
  · exact hspace id (by simp [PacketSpace.canSend, Retransmits.isEmpty, hhello])
  · exact hspace id (by simp [PacketSpace.canSend, hping])
  · obtain ⟨p, hp, -⟩ := List.any_eq_true.mp hreset
    have hne : (c.spaces id).pending.resetStream.isEmpty = false :=
      List.isEmpty_eq_false_iff.mpr (List.ne_nil_of_mem hp)
    exact hspace id (by simp [PacketSpace.canSend, Retransmits.isEmpty, hne])
  · have hne : (c.spaces id).pending.stopSending.isEmpty = false := by simpa using hstop
    exact hspace id (by simp [PacketSpace.canSend, Retransmits.isEmpty, hne])
  · obtain ⟨x, hx, hr⟩ := List.any_eq_true.mp hready
    obtain ⟨stream, hs, hl, -⟩ := StreamsState.ready_eq_true.mp hr
    have hcan : c.streams.canSendStreamData = true :=
      List.any_eq_true.mpr ⟨x, hx, by rw [hs, Option.any_some, hl, Bool.not_false]⟩
    unfold spaceCanSend
    rw [if_pos rfl, hcan, Bool.or_true]

/-- **One packet.** -/
theorem composePacket_truthful (hc : c.AcksBounded) (hb : Formed (buffers c.streams))
    (hsend : c.live id = true ∨ (c.ackRanges id).isEmpty = false) (hw : id = .data → c.StreamsWhole now)
    (h : composePacket now false c id (c.live id) = .ok c') :
    ∃ p, c'.path.sendingQueue = c.path.sendingQueue ++ [p] ∧ Truthful p := by
  obtain ⟨n, buf, sent, c₂, buf₂, h1, ⟨hclose, -⟩ | ⟨-, h2⟩, rfl⟩ := composePacket_cases h
  · cases hclose
  obtain ⟨number, -, hbuf⟩ := startPacket_buf h1
  have hroom := (startPacket_avoids c id).2 _ h1
  have hacks := c.numbered_ackRanges id
  have hlive : (c.numbered id).live = c.live := live_modifySpace c id _ rfl rfl
  obtain ⟨fs, hwrote, hnoted, hne⟩ := populatePacket_fills (hc.congr hacks) hb
    (by simp only [initialMtu, ackBound, maxAckBlocks, ResetStream.sizeBound] at hroom ⊢; omega)
    (fun sent space buf₁ hid h => by
      subst hid
      have := hw rfl
      unfold StreamsWhole at this
      rw [h1] at this
      dsimp only at this
      rwa [h] at this) h2
  obtain ⟨bs, rfl, hbs⟩ := hwrote.spells
  have hfs : fs ≠ [] := by
    rcases hsend with hl | hr
    · rintro rfl
      rw [← hlive, ← hnoted.eliciting] at hl
      cases hl
    · exact hne (by rwa [hacks])
  have hpayload := hbs.ne_nil hfs
  obtain ⟨header, -, hdecode⟩ := decode_txBytes id number bs
  refine ⟨⟨(buf.append bs).written, metaInfo now id (c.live id) n sent (buf.append bs)⟩, ?_, header, bs, fs,
    ?_, hpayload, FrameParser.frames_of_spells hbs hpayload, ?_⟩
  · show (c₂.noteAcks id sent).path.sendingQueue ++ _ = _
    rw [(noteAcks_elsewhere c₂ id sent).path, (populatePacket_elsewhere h2).path]
    rfl
  · rw [hbuf]
    exact hdecode
  · rw [← hlive]
    exact hnoted

/-- A discarded space changes nothing that its packets, or those of other spaces, are made of. -/
theorem discardSpace_live (h : c.discardSpace id = .ok c') : c'.live = c.live := by
  obtain ⟨timers, e⟩ := discardSpace_eq h
  rw [e]
  exact live_modifySpace c id (fun s => { s with lossTime := none, inFlight := 0, sentPackets := ∅ }) rfl rfl

/-- **One round** schedules nothing, or a packet that the peer reads as it is noted. -/
theorem transmitSpace_truthful {close blocked : Bool} {s s' : Connection × Bool} (hc : s.1.AcksBounded)
    (hb : Formed s.1.core.buffers) (ht : s.1.SpaceTruthful now close blocked id)
    (h : transmitSpace now close blocked s id = .ok s') : Appended Truthful s.1 s'.1 := by
  refine transmitSpace_appended (fun c₁ hc₁ hcomp h => ?_) h
  obtain ⟨hlive, hstreams, hacks, hdata⟩ : c₁.live = s.1.live ∧ c₁.streams = s.1.streams ∧
      c₁.ackRanges = s.1.ackRanges ∧ (id = .data → c₁ = s.1) := by
    rcases hc₁ with rfl | ⟨rfl, h1⟩
    · exact ⟨rfl, rfl, rfl, fun _ => rfl⟩
    · exact ⟨discardSpace_live h1, discardSpace_streams h1, (discardSpace_ok h1).2.2, fun h => by cases h⟩
  obtain ⟨rfl, hother, hwhole⟩ := ht hcomp
  have hflag : (s.1.spaceCanSend id).other = c₁.live id := by
    rw [hlive, Bool.eq_iff_iff]
    exact ⟨hother, other_of_live⟩
  have hsend : c₁.live id = true ∨ (c₁.ackRanges id).isEmpty = false := by
    rw [← hflag, hacks]
    unfold composes SendableFrames.isEmpty at hcomp
    cases ho : (s.1.spaceCanSend id).other with
    | true => exact .inl rfl
    | false =>
        have ha : (s.1.spaceCanSend id).acks = true := by simpa [ho] using hcomp
        have ha : (s.1.spaces id).pendingAcks.canSend = true := by
          unfold spaceCanSend at ha
          split_ifs at ha <;> exact ha
        simp only [PendingAcks.canSend, Bool.and_eq_true, Bool.not_eq_true'] at ha
        exact .inr ha.2
  rw [hflag] at h
  obtain ⟨p, hp, htrue⟩ := composePacket_truthful (hc.congr hacks) (by rw [hstreams]; exact hb) hsend
    (fun hid => by rw [hdata hid]; exact hwhole hid) h
  exact .one hp htrue

end Poll

end Connection

open Connection

/-- **What is noted of a packet is what the peer reads.** In every reachable state, if for each space that
gets a packet in a poll the connection is not being closed, the space is live if it counts as
ACK-eliciting, and its STREAM frames are whole, then every packet that the poll schedules has a payload
that is read without error, as the frames that are noted. -/
theorem packets_truthful (start : Instant) (side : Side) (ops : List ConnectionOp) {c : Connection}
    (h : run connectionStep (Connection.new start side) ops = .ok c) (now : Instant)
    (ht : c.PacketsTruthful now) {more : Bool} {c' : Connection}
    (hp : c.pollTransmit now = .ok (more, c')) :
    ∃ new, c'.path.sendingQueue = c.path.sendingQueue ++ new ∧ ∀ p ∈ new, Truthful p := by
  have hc : c.AcksBounded ∧ Formed c.core.buffers :=
    run_inv (I := fun s => s.AcksBounded ∧ Formed s.core.buffers)
      (fun s op s' hs _ h => ⟨connectionStep_acksBounded s op s' hs.1 h, connectionStep_formed s op s' hs.2 h⟩)
      ⟨acksBounded_new start side, formed_new start side⟩ (Meets.trivial _ _ _) h
  refine pollTransmit_appended (I := fun x => x.AcksBounded ∧ Formed x.core.buffers)
    (Q := fun close s id =>
      s.1.SpaceTruthful now close (c.path.inFlight.bytes ≥ c.path.congestion.window) id)
    hc (fun close hpolls => ?_) (fun close s id s' _ hs hok hround => ⟨?_, ?_⟩) hp
  · exact rounds_truthful (ht close hpolls)
  · have hmoves := transmitSpace_moves hround
    exact ⟨hmoves.inv (fun _ _ hm => hm.acksBounded) hs.1,
      hmoves.inv (I := fun x => Formed x.core.buffers) (fun _ _ hm => hm.formed) hs.2⟩
  · exact transmitSpace_truthful hs.1 hs.2 hok hround

/-- A poll that schedules the hello, and a packet with a STREAM frame. -/
theorem packets_truthful_two : ∃ ops c more c' new,
    run connectionStep (Connection.new 0 .client) ops = .ok c ∧ c.pollTransmit 1 = .ok (more, c') ∧
    c'.path.sendingQueue = c.path.sendingQueue ++ new ∧ new.length = 2 ∧ ∀ p ∈ new, Truthful p := by
  let ops : List ConnectionOp := [.openStream .bi, .write ⟨0⟩ [1, 2, 3]]
  obtain ⟨c, hc, hv⟩ := Checked.map_eq_ok.mp (show (fun c : Connection => (decide (c.PacketsTruthful 1),
      c.path.sendingQueue.length, (fun r : Bool × Connection => r.2.path.sendingQueue.length) <$>
        c.pollTransmit 1)) <$> run connectionStep (Connection.new 0 .client) ops =
      .ok (true, 0, .ok 2) by decide +kernel)
  obtain ⟨ht, hv⟩ := Prod.mk.inj hv
  obtain ⟨hlen, hv⟩ := Prod.mk.inj hv
  obtain ⟨⟨more, c'⟩, hp, hlen'⟩ := Checked.map_eq_ok.mp hv
  obtain ⟨new, hnew, htrue⟩ := packets_truthful 0 .client ops hc 1 (of_decide_eq_true ht) hp
  refine ⟨ops, c, more, c', new, hc, hp, hnew, ?_, htrue⟩
  have := congrArg List.length hnew
  rw [List.length_append] at this
  dsimp only at hlen'
  omega

/-- An empty write queues a stream that has nothing to send: the packet that is scheduled for it counts
as ACK-eliciting, and has no payload. -/
theorem packet_empty : ∃ ops c more c', run connectionStep (Connection.new 0 .client) ops = .ok c ∧
    c.path.sendingQueue = [] ∧ c.pollTransmit 1 = .ok (more, c') ∧
    ∃ p ∈ c'.path.sendingQueue, p.metaInfo.ackEliciting = true ∧ ¬ Truthful p := by
  let ops : List ConnectionOp := [.openStream .bi, .write ⟨0⟩ []]
  obtain ⟨c, hc, hv⟩ := Checked.map_eq_ok.mp (show (fun c : Connection => (c.path.sendingQueue.isEmpty,
      (fun r : Bool × Connection => r.2.path.sendingQueue.any fun p => p.metaInfo.ackEliciting &&
        (Header.decode fakeCid.bytes.length supportedVersions p.packet).toOption.any fun r => r.2.isEmpty) <$>
        c.pollTransmit 1)) <$> run connectionStep (Connection.new 0 .client) ops =
      .ok (true, .ok true) by decide +kernel)
  obtain ⟨hq, hv⟩ := Prod.mk.inj hv
  obtain ⟨⟨more, c'⟩, hp, hany⟩ := Checked.map_eq_ok.mp hv
  obtain ⟨p, hmem, hbad⟩ := List.any_eq_true.mp hany
  obtain ⟨hae, hempty⟩ := Bool.and_eq_true_iff.mp hbad
  refine ⟨ops, c, more, c', hc, List.isEmpty_iff.mp hq, hp, p, hmem, hae, ?_⟩
  rintro ⟨header, payload, fs, hdecode, hne, -, -⟩
  rw [hdecode] at hempty
  exact hne (List.isEmpty_iff.mp hempty)

end MzQuic
