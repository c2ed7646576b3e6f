import MzQuic.Connection.Buffers
import MzQuic.Connection.Loss
import MzQuic.Proto.Ack

/-!
# ACK frames of an honest peer

A connection sends packets in one of its spaces; the peer records the numbers of those that arrive
and now and then writes an ACK frame of its pending ranges. A frame, once written, may be delivered at
any time, any number of times, or never.

* `Connection.Sound`: the packets in flight are accounted and the buffers hold their frames, which
  every step keeps that does not write to a stream whose old frames are still in flight, nor begin a
  stream with an empty chunk (`ConnectionOp.Safe`);
* `onAckReceived_total`: then `on_ack_received` does not panic;
* `AckSystem`, `ackStep`: both sides and the frames on the way;
* **`acks_accepted`**: in every reachable state, a frame is accepted if and only if its largest
  number is not below the largest acknowledged one. The peer may well send such a frame, and the
  network may turn any frame into one by delay.
-/

namespace MzQuic

open Lib

namespace Connection

/-- What processing an acknowledgement relies on. -/
structure Sound (c : Connection) : Prop where
  accounted : Accounted c.core
  buffered : Buffered c.core

theorem Move.sound {c c' : Connection} (h : Move c c') (hc : c.Sound) : c'.Sound :=
  ⟨h.accounted hc.accounted, h.buffered hc.buffered⟩

theorem Moves.sound {c c' : Connection} (h : Moves c c') (hc : c.Sound) : c'.Sound :=
  Moves.inv (fun _ _ hm => hm.sound) h hc

theorem sound_new (now : Instant) (side : Side) : (Connection.new now side).Sound := by
  refine ⟨accounted_new now side, fun id b hb => ?_⟩
  cases side <;> cases hb

/-- Streams whose buffers hold the same frames. -/
theorem Sound.streams {c : Connection} (hc : c.Sound) {s : StreamsState}
    (hs : Holding c.core.frames (buffers s)) : { c with streams := s }.Sound :=
  ⟨hc.accounted.congr rfl, hs⟩

/-! ## Packet numbers -/

theorem Move.next_le {c c' : Connection} (h : Move c c') (i : SpaceId) :
    c.core.next i ≤ c'.core.next i := by
  cases h with
  | quiet h => rw [h.1]
  | received id n now h _ => rw [h]
  | acked id pn h =>
      rcases ackOne_ok h with ⟨rfl, -⟩ | ⟨packet, s, hr, -, -⟩
      · exact le_rfl
      · rw [hr.core]
  | lost now id p hp h =>
      obtain ⟨s, hr, -, -⟩ := loseOne_ok hp h
      rw [hr.core]
  | discarded id h => rw [(discardSpace_ok h).2.1]
  | composed now close id ackEliciting h =>
      obtain ⟨p, -, -, -, -, hk, -⟩ := composePacket_ok h
      rw [hk]
      show c.core.next i ≤ Function.update c.core.next id (c.core.next id + 1) i
      by_cases hi : i = id
      · subst hi
        rw [Function.update_self]
        exact Nat.le_succ _
      · rw [Function.update_of_ne hi]
  | sent t =>
      rcases c.sendOne_ok t with ⟨-, e⟩ | ⟨p, queue, -, hk, -⟩
      · rw [e]
      · rw [hk]

/-- Packet numbers are never given back. -/
theorem Moves.next_le {c c' : Connection} (h : Moves c c') (i : SpaceId) :
    (c.spaces i).nextPacketNumber ≤ (c'.spaces i).nextPacketNumber :=
  Moves.inv (I := fun x => c.core.next i ≤ x.core.next i)
    (fun _ _ hm hle => hle.trans (hm.next_le i)) h le_rfl

end Connection

open Connection

/-- A step that does not write to a stream whose old frames are still in flight, nor begin a stream
with an empty chunk. -/
def ConnectionOp.Safe (c : Connection) : ConnectionOp → Prop
  | .openStream dir => ∀ m ∈ c.core.frames, m.id ≠ (c.streams.open dir).1
  | .write id data => ((c.streams.send id).isNone → ∀ m ∈ c.core.frames, m.id ≠ id) ∧
      (data = [] → 0 < ((c.streams.send id).getD Send.default).offset)
  | _ => True

instance (c : Connection) : ∀ op : ConnectionOp, Decidable (op.Safe c)
  | .openStream dir => inferInstanceAs (Decidable (∀ m ∈ c.core.frames, m.id ≠ (c.streams.open dir).1))
  | .write id data => inferInstanceAs (Decidable
      (((c.streams.send id).isNone → ∀ m ∈ c.core.frames, m.id ≠ id) ∧
        (data = [] → 0 < ((c.streams.send id).getD Send.default).offset)))
  | .pollTransmit _ | .sendOne _ | .pollTimers _ | .handleData .. | .handleFirstPacket ..
  | .close .. | .finish _ | .reset .. | .setPriority .. | .read .. | .stop .. | .takeReset _ =>
      .isTrue trivial

/-- The buffer that a write is made to holds the frames in flight. -/
theorem Connection.Sound.entry {c : Connection} (hc : c.Sound) {id : StreamId}
    (h : (c.streams.send id).isNone → ∀ m ∈ c.core.frames, m.id ≠ id) :
    ((c.streams.send id).getD Send.default).pending.Holds c.core.frames id := by
  cases hs : c.streams.send id with
  | none => exact SendBuffer.holds_default (h (by rw [hs]; rfl))
  | some stream => exact hc.buffered id _ (mem_buffers hs)

/-- No step gives a packet number back. -/
theorem connectionStep_next_le {c c' : Connection} {op : ConnectionOp} (h : connectionStep c op = .ok c')
    (i : SpaceId) : (c.spaces i).nextPacketNumber ≤ (c'.spaces i).nextPacketNumber := by
  by_cases hop : op.creates = false
  · exact (connectionStep_moves hop h).next_le i
  · obtain ⟨s, rfl⟩ := connectionStep_creates hop h
    exact le_rfl

/-- **Every safe step keeps the accounts.** -/
theorem connectionStep_sound {c c' : Connection} {op : ConnectionOp} (hc : c.Sound) (hop : op.Safe c)
    (h : connectionStep c op = .ok c') : c'.Sound := by
  by_cases hcr : op.creates = false
  · exact (connectionStep_moves hcr h).sound hc
  · cases op with
    | openStream dir =>
        obtain ⟨⟨id, c₁⟩, h1, h⟩ := Checked.bind_eq_ok.mp h
        cases h
        unfold openStream at h1
        split_ifs at h1
        cases h1
        refine hc.streams ?_
        rw [buffers_setSend (c.streams.open_send dir)]
        refine hc.buffered.update fun b hb => ?_
        cases hb
        exact SendBuffer.holds_default hop
    | write id data =>
        obtain ⟨u, -, h⟩ := Checked.bind_eq_ok.mp h
        cases h
        refine hc.streams ?_
        obtain ⟨hnone, hdata⟩ := hop
        have hentry := hc.entry hnone
        have hw : c.streams.write c.state.isClosed id data =
          ((c.streams.write c.state.isClosed id data).1,
            (c.streams.write c.state.isClosed id data).2) := rfl
        rcases StreamsState.write_send hw with ⟨-, e | e⟩ | ⟨-, -, e⟩
        · rw [buffers_congr e]
          exact hc.buffered
        · rw [buffers_setSend e]
          refine hc.buffered.update fun b hb => ?_
          cases hb
          exact hentry
        · rw [buffers_setSend e]
          refine hc.buffered.update fun b hb => ?_
          cases hb
          exact hentry.write hdata
    | _ => exact absurd rfl hcr

/-! ## Acknowledgements do not panic -/

namespace Connection

section Total

variable {c : Connection} {now : Instant} {id : SpaceId}

theorem ackOne_total {l : AckLoop} (hl : l.c.Sound) (pn : ℕ) :
    ∃ l', ackOne id l pn = .ok l' ∧ l'.c.Sound := by
  have hok : ∃ l', ackOne id l pn = .ok l' := by
    unfold ackOne
    cases hf : (l.c.spaces id).sentPackets.find? pn with
    | none =>
        have ht : (l.c.spaces id).take pn = .ok (none, l.c.spaces id) := by
          unfold PacketSpace.take
          rw [hf]
        rw [ht]
        exact ⟨l, rfl⟩
    | some packet =>
        have hp := OrdMap.find?_eq_some.mp hf
        obtain ⟨hsize, -⟩ := hl.accounted.sum_le (show (pn, packet) ∈ (l.c.core.sent id).entries from hp)
        obtain ⟨space, ht⟩ := take_total hf hsize
        obtain ⟨s, hs, -⟩ := receivedAcksOf_total hl.buffered packet.streamFrames
        obtain ⟨r, hr⟩ := removeInFlight_total (n := packet.number) hl.accounted hp
        rw [ht, Checked.ok_bind]
        dsimp only
        rw [hs, Checked.ok_bind, hr]
        exact ⟨_, rfl⟩
  obtain ⟨l', h⟩ := hok
  exact ⟨l', h, (ackOne_moves h).sound hl⟩

/-- The streams cover the frames in flight. -/
theorem Sound.covers (hc : c.Sound) {p : ℕ × SentPacket} (hp : p ∈ (c.spaces id).sentPackets.entries)
    {m : StreamMeta} (hm : m ∈ p.2.streamFrames) : c.streams.Covers m := by
  intro stream hs _
  have hmem : m ∈ c.core.frames := Core.mem_frames.mpr (.inr ⟨id, p, hp, hm⟩)
  exact (hc.buffered m.id _ (mem_buffers hs)).sent m hmem rfl

theorem detectLostPackets_total (hc : c.Sound) (now : Instant) (id : SpaceId) :
    ∃ c', c.detectLostPackets now id = .ok c' :=
  detectLostPackets_returns hc.accounted fun _ hp _ hm => hc.covers (mem_lostPackets.mp hp).sent hm

theorem ackNews_total {l : AckLoop} (hl : l.c.Sound) (now : Instant) (id : SpaceId) (ack : Ack) :
    ∃ c', ackNews now id ack l = .ok c' := by
  obtain ⟨c₁, hq, -, e⟩ := ackNews_eq now id ack l
  rw [e]
  exact Checked.exists_bind (detectLostPackets_total ((Move.quiet hq).sound hl) now id)
    fun _ _ => ⟨_, rfl⟩

/-- A frame for packets that were sent is rejected if it regresses. -/
theorem onAckReceived_rejects (now : Instant) {ack : Ack} (hlt : ack.largest < (c.spaces id).nextPacketNumber) :
    (∃ e c', c.onAckReceived now id ack = .ok (.error e, c')) ↔
      ∃ prev ∈ (c.spaces id).largestAckedPacket, ack.largest < prev := by
  constructor
  · rintro ⟨e, c', h⟩
    rcases onAckReceived_cases h with ⟨hacc, -, -⟩ | ⟨-, hr, -⟩
    · by_contra hno
      have hprev : ∀ prev ∈ (c.spaces id).largestAckedPacket, prev ≤ ack.largest := fun prev hp =>
        not_lt.mp fun hlt => hno ⟨prev, hp, hlt⟩
      rw [acceptsAck_iff.mpr ⟨hlt, hprev⟩] at hacc
      cases hacc
    · cases hr
  · rintro ⟨prev, hp, hprev⟩
    unfold onAckReceived
    rw [if_neg (not_le.mpr hlt), Option.mem_def.mp hp, Option.any_some, if_pos (decide_eq_true hprev)]
    exact ⟨_, _, rfl⟩

/-- **`on_ack_received` does not panic.** -/
theorem onAckReceived_total (hc : c.Sound) (now : Instant) (id : SpaceId) {ack : Ack}
    {ranges : List (ℕ × ℕ)} (hiter : ack.iter = .ok ranges) :
    ∃ r, c.onAckReceived now id ack = .ok r := by
  unfold onAckReceived
  split_ifs
  · exact ⟨_, rfl⟩
  · exact ⟨_, rfl⟩
  · rw [hiter, Checked.ok_bind]
    obtain ⟨l, hl, hs⟩ := run_total (I := fun l => l.c.Sound) (fun _ pn hl _ => ackOne_total hl pn) hc
      (Meets.trivial (ackOne id) { c := c } (ranges.flatMap rangeInclusive))
    refine Checked.exists_bind ⟨l, hl⟩ fun l' hl' => ?_
    rw [hl] at hl'
    cases hl'
    split_ifs
    · exact ⟨_, rfl⟩
    · exact Checked.exists_bind (ackNews_total hs now id ack) fun _ _ => ⟨_, rfl⟩

end Total

end Connection

/-! ## Both sides -/

/-- A packet of the peer arrives, as `handle_data` and `on_packet_authenticated` record it. -/
def PacketSpace.receive (space : PacketSpace) (now : Instant) (pn : ℕ) : PacketSpace :=
  let (isDuplicate, dedup) := space.dedup.insert pn
  if isDuplicate then { space with dedup := dedup }
  else { space with
    dedup := dedup
    pendingAcks := (space.pendingAcks.packetReceived now pn true dedup).2 }

/-- The ACK frame of the pending ranges, if there are any, as the other side reads it. -/
def PacketSpace.writeAck (space : PacketSpace) (now : Instant) : Checked (List Ack × PacketSpace) := do
  let (largest, buf) ← populateAnyAcks now space (BufMut.withCapacity initialMtu)
  if largest.isNone then return ([], space)
  else
    let space := { space with pendingAcks := space.pendingAcks.acksSent }
    match ← FrameParser.tryNext ⟨buf.written, none⟩ with
    | (.ok (.ack ack), _) => return ([ack], space)
    | _ => return ([], space)

/-- The connection that sends packets, the space of its peer, and the ACK frames that were written so
far, each of which may be delivered any number of times. -/
structure AckSystem where
  sender : Connection
  receiver : PacketSpace
  written : List Ack

/-- Both sides at the start. -/
def AckSystem.new (now : Instant) (side : Side) : AckSystem :=
  ⟨Connection.new now side, PacketSpace.new now, []⟩

/-- What can happen. -/
inductive AckOp
  /-- A step of the sender. -/
  | sender (op : ConnectionOp)
  /-- A packet arrives at the receiver. -/
  | arrive (now : Instant) (pn : ℕ)
  /-- The receiver writes an ACK frame. -/
  | writeAck (now : Instant)
  /-- One of the receiver's ACK frames was acknowledged. -/
  | subtractBelow (max : ℕ)
  /-- An ACK frame is delivered to the sender. -/
  | deliver (now : Instant) (ack : Ack)

/-- One step, for the packets of space `id`. -/
def ackStep (id : SpaceId) (s : AckSystem) : AckOp → Checked AckSystem
  | .sender op => do
    let c ← connectionStep s.sender op
    return { s with sender := c }
  | .arrive now pn => .ok { s with receiver := s.receiver.receive now pn }
  | .writeAck now => do
    let (acks, space) ← s.receiver.writeAck now
    return { s with receiver := space, written := s.written ++ acks }
  | .subtractBelow max => .ok { s with
      receiver := { s.receiver with pendingAcks := s.receiver.pendingAcks.subtractBelow max } }
  | .deliver now ack => do
    let (_, c) ← s.sender.onAckReceived now id ack
    return { s with sender := c }

/-- Only packets that were sent arrive, and only frames that were written are delivered. -/
def AckOp.Legal (id : SpaceId) (s : AckSystem) : AckOp → Prop
  | .arrive _ pn => pn < (s.sender.spaces id).nextPacketNumber
  | .deliver _ ack => ack ∈ s.written
  | _ => True

instance (id : SpaceId) (s : AckSystem) : ∀ op : AckOp, Decidable (op.Legal id s)
  | .arrive _ pn => inferInstanceAs (Decidable (pn < (s.sender.spaces id).nextPacketNumber))
  | .deliver _ ack => inferInstanceAs (Decidable (ack ∈ s.written))
  | .sender _ | .writeAck _ | .subtractBelow _ => .isTrue trivial

/-- The steps of the sender are safe. -/
def AckOp.Safe (s : AckSystem) : AckOp → Prop
  | .sender op => op.Safe s.sender
  | _ => True

instance (s : AckSystem) : ∀ op : AckOp, Decidable (op.Safe s)
  | .sender op => inferInstanceAs (Decidable (op.Safe s.sender))
  | .arrive .. | .writeAck _ | .subtractBelow _ | .deliver .. => .isTrue trivial

/-- Both sides speak of packets that were sent. -/
structure AckSystem.Honest (id : SpaceId) (s : AckSystem) : Prop where
  received : ∀ n ∈ s.receiver.pendingAcks.ranges, n < (s.sender.spaces id).nextPacketNumber
  written : ∀ ack ∈ s.written, ack.largest < (s.sender.spaces id).nextPacketNumber ∧
    ∃ ranges, ack.iter = .ok ranges

section Honest

variable {id : SpaceId} {s s' : AckSystem}

theorem AckSystem.honest_new (now : Instant) (side : Side) (id : SpaceId) :
    (AckSystem.new now side).Honest id where
  received := fun n hn => absurd hn (ArrayRangeSet.notMem_new n)
  written := fun ack h => by cases h

/-- The sender goes on. -/
theorem AckSystem.Honest.step (h : s.Honest id) {c : Connection}
    (hn : (s.sender.spaces id).nextPacketNumber ≤ (c.spaces id).nextPacketNumber) :
    { s with sender := c }.Honest id where
  received := fun n hm => (h.received n hm).trans_le hn
  written := fun ack hm => ⟨(h.written ack hm).1.trans_le hn, (h.written ack hm).2⟩

theorem PendingAcks.mem_insertOne {a : PendingAcks} {pn n : ℕ} {now : Instant}
    (h : n ∈ (a.insertOne pn now).ranges) : n = pn ∨ n ∈ a.ranges := by
  unfold PendingAcks.insertOne at h
  dsimp only at h
  split_ifs at h
  · exact ArrayRangeSet.mem_insertOne.mp (ArrayRangeSet.mem_of_mem_tail h)
  · exact ArrayRangeSet.mem_insertOne.mp h

theorem PacketSpace.mem_receive {space : PacketSpace} {now : Instant} {pn n : ℕ}
    (h : n ∈ (space.receive now pn).pendingAcks.ranges) : n = pn ∨ n ∈ space.pendingAcks.ranges := by
  unfold PacketSpace.receive at h
  dsimp only at h
  split_ifs at h
  · exact .inr h
  · rw [packetReceived_ranges] at h
    exact PendingAcks.mem_insertOne h

/-- **What the receiver writes**: the frame ends at a number it received, and can be iterated. -/
theorem PacketSpace.writeAck_ok {space space' : PacketSpace} {now : Instant} {acks : List Ack}
    (h : space.writeAck now = .ok (acks, space')) :
    space'.pendingAcks.ranges = space.pendingAcks.ranges ∧
      ∀ ack ∈ acks, ack.largest ∈ space.pendingAcks.ranges ∧ ∃ ranges, ack.iter = .ok ranges := by
  obtain ⟨⟨largest, buf⟩, hp, h⟩ := Checked.bind_eq_ok.mp h
  dsimp only at h
  split_ifs at h with hnone
  · cases h
    exact ⟨rfl, fun ack hm => by cases hm⟩
  · unfold populateAnyAcks at hp
    split_ifs at hp
    · obtain ⟨u, -, hp⟩ := Checked.bind_eq_ok.mp hp
      obtain ⟨buf', he, hp⟩ := Checked.bind_eq_ok.mp hp
      cases hp
      obtain ⟨bs, ack, rfl, hmax, -, hiter, hparse⟩ := Ack.encode_ok he
      have hp := hparse none []
      rw [List.append_nil] at hp
      rw [show ((BufMut.withCapacity initialMtu).append bs).written = bs from rfl, hp,
        Checked.ok_bind] at h
      cases h
      refine ⟨rfl, fun a ha => ?_⟩
      rw [List.mem_singleton.mp ha]
      exact ⟨ArrayRangeSet.mem_max hmax, _, hiter⟩
    · cases hp
      exact absurd rfl hnone

/-- **One step** keeps both sides honest. -/
theorem ackStep_honest (s : AckSystem) (op : AckOp) (s' : AckSystem) (hs : s.Honest id)
    (hl : op.Legal id s) (h : ackStep id s op = .ok s') : s'.Honest id := by
  cases op with
  | sender op =>
      obtain ⟨c, h1, h⟩ := Checked.bind_eq_ok.mp h
      cases h
      exact hs.step (connectionStep_next_le h1 id)
  | arrive now pn =>
      cases h
      refine ⟨fun n hn => ?_, hs.written⟩
      rcases PacketSpace.mem_receive hn with rfl | hn
      · exact hl
      · exact hs.received n hn
  | writeAck now =>
      obtain ⟨⟨acks, space⟩, h1, h⟩ := Checked.bind_eq_ok.mp h
      cases h
      obtain ⟨hr, ha⟩ := PacketSpace.writeAck_ok h1
      refine ⟨fun n hn => hs.received n (by rwa [← hr]), fun ack hm => ?_⟩
      rcases List.mem_append.mp hm with hm | hm
      · exact hs.written ack hm
      · obtain ⟨h1, h2⟩ := ha ack hm
        exact ⟨hs.received _ h1, h2⟩
  | subtractBelow max =>
      cases h
      exact ⟨fun n hn => hs.received n (ArrayRangeSet.mem_remove.mp hn).1, hs.written⟩
  | deliver now ack =>
      obtain ⟨⟨r, c⟩, h1, h⟩ := Checked.bind_eq_ok.mp h
      cases h
      exact hs.step ((onAckReceived_moves h1).next_le id)

/-- **One safe step** keeps the accounts of the sender. -/
theorem ackStep_sound (s : AckSystem) (op : AckOp) (s' : AckSystem) (hs : s.sender.Sound)
    (hop : op.Safe s) (h : ackStep id s op = .ok s') : s'.sender.Sound := by
  cases op with
  | sender op =>
      obtain ⟨c, h1, h⟩ := Checked.bind_eq_ok.mp h
      cases h
      exact connectionStep_sound hs hop h1
  | arrive now pn =>
      cases h
      exact hs
  | writeAck now =>
      obtain ⟨⟨acks, space⟩, -, h⟩ := Checked.bind_eq_ok.mp h
      cases h
      exact hs
  | subtractBelow max =>
      cases h
      exact hs
  | deliver now ack =>
      obtain ⟨⟨r, c⟩, h1, h⟩ := Checked.bind_eq_ok.mp h
      cases h
      exact (onAckReceived_moves h1).sound hs

end Honest

/-- **When the ACK frames of an honest peer are accepted.** In every state of every run, a frame that
the peer has written is rejected, whenever it is delivered, if and only if its largest number is below
the largest acknowledged one. If the steps of the sender were safe, every other frame is accepted. -/
theorem acks_accepted (id : SpaceId) (start : Instant) (side : Side) (ops : List AckOp) (s : AckSystem)
    (hl : Meets (ackStep id) (AckOp.Legal id) (AckSystem.new start side) ops)
    (h : run (ackStep id) (AckSystem.new start side) ops = .ok s) (now : Instant) (ack : Ack)
    (hack : ack ∈ s.written) :
    ((∃ e c, s.sender.onAckReceived now id ack = .ok (.error e, c)) ↔
      ∃ prev ∈ (s.sender.spaces id).largestAckedPacket, ack.largest < prev) ∧
    (Meets (ackStep id) (fun s op => op.Safe s) (AckSystem.new start side) ops →
      ((∃ c, s.sender.onAckReceived now id ack = .ok (.ok (), c)) ↔
        ∀ prev ∈ (s.sender.spaces id).largestAckedPacket, prev ≤ ack.largest)) := by
  have hs : s.Honest id := run_inv ackStep_honest (AckSystem.honest_new start side id) hl h
  obtain ⟨hlt, ranges, hiter⟩ := hs.written ack hack
  have hrej := onAckReceived_rejects now hlt
  refine ⟨hrej, fun hsafe => ?_⟩
  have hsound : s.sender.Sound := run_inv ackStep_sound (sound_new start side) hsafe h
  constructor
  · rintro ⟨c, hok⟩ prev hp
    by_contra hlt
    obtain ⟨e, c', herr⟩ := hrej.mpr ⟨prev, hp, not_le.mp hlt⟩
    rw [hok] at herr
    cases herr
  · intro hle
    obtain ⟨⟨r, c⟩, hr⟩ := onAckReceived_total hsound now id hiter
    cases r with
    | ok u => exact ⟨c, hr⟩
    | error e =>
        obtain ⟨prev, hp, hlt⟩ := hrej.mp ⟨e, c, hr⟩
        exact absurd (hle prev hp) (not_le.mpr hlt)

/-- Two packets are acknowledged by one frame each, which are delivered in order. -/
theorem acks_accepted_two : ∃ ops s ack, run (ackStep .data) (AckSystem.new 0 .client) ops = .ok s ∧
    ack ∈ s.written ∧ (s.sender.spaces .data).largestAckedPacket = some 0 ∧
    ∃ c, s.sender.onAckReceived 6 .data ack = .ok (.ok (), c) := by
  let ops : List AckOp := [.sender (.openStream .bi), .sender (.write ⟨0⟩ [1]),
    .sender (.pollTransmit 1), .sender (.sendOne 1), .sender (.sendOne 1), .sender (.write ⟨0⟩ [2]),
    .sender (.pollTransmit 2), .sender (.sendOne 2), .arrive 3 0, .writeAck 3, .arrive 4 1, .writeAck 4,
    .deliver 5 ⟨0, 0, [0], none⟩]
  obtain ⟨s, hs, hv⟩ := Checked.map_eq_ok.mp (show (fun s : AckSystem =>
      (s.written, (s.sender.spaces .data).largestAckedPacket)) <$>
        run (ackStep .data) (AckSystem.new 0 .client) ops =
      .ok ([⟨0, 0, [0], none⟩, ⟨1, 0, [1], none⟩], some 0) by decide +kernel)
  obtain ⟨hw, hp⟩ := Prod.mk.inj hv
  have hack : (⟨1, 0, [1], none⟩ : Ack) ∈ s.written := by rw [hw]; decide
  refine ⟨ops, s, _, hs, hack, hp, ?_⟩
  refine ((acks_accepted .data 0 .client ops s (by decide +kernel) hs 6 _ hack).2
    (by decide +kernel)).mpr fun prev hprev => ?_
  rw [hp] at hprev
  cases hprev
  decide

/-- The same frames in the other order: the older one is rejected. -/
theorem ack_regresses : ∃ ops s ack, Meets (ackStep .data) (AckOp.Legal .data) (AckSystem.new 0 .client) ops ∧
    Meets (ackStep .data) (fun s op => op.Safe s) (AckSystem.new 0 .client) ops ∧
    run (ackStep .data) (AckSystem.new 0 .client) ops = .ok s ∧ ack ∈ s.written ∧
    ∃ c, s.sender.onAckReceived 6 .data ack =
      .ok (.error (TransportError.protocolViolation "ACK regressed largest acknowledged packet"), c) := by
  let ops : List AckOp := [.sender (.openStream .bi), .sender (.write ⟨0⟩ [1]),
    .sender (.pollTransmit 1), .sender (.sendOne 1), .sender (.sendOne 1), .sender (.write ⟨0⟩ [2]),
    .sender (.pollTransmit 2), .sender (.sendOne 2), .arrive 3 0, .writeAck 3, .arrive 4 1, .writeAck 4,
    .deliver 5 ⟨1, 0, [1], none⟩]
  obtain ⟨s, hs, hv⟩ := Checked.map_eq_ok.mp (show (fun s : AckSystem =>
      (s.written, Prod.fst <$> s.sender.onAckReceived 6 .data ⟨0, 0, [0], none⟩)) <$>
        run (ackStep .data) (AckSystem.new 0 .client) ops =
      .ok ([⟨0, 0, [0], none⟩, ⟨1, 0, [1], none⟩],
        .ok (.error (TransportError.protocolViolation "ACK regressed largest acknowledged packet")))
      by decide +kernel)
  obtain ⟨hw, hr⟩ := Prod.mk.inj hv
  obtain ⟨⟨r, c⟩, hr, rfl⟩ := Checked.map_eq_ok.mp hr
  exact ⟨ops, s, ⟨0, 0, [0], none⟩, by decide +kernel, by decide +kernel, hs, by rw [hw]; decide, c, hr⟩

end MzQuic
