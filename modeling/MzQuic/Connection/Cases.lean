import MzQuic.Connection.Output

/-!
# What the functions of a connection can do

Each function is taken apart once, with the conditions of its branches.

* `loseOne_cases`, `detectLostPackets_cases`: a packet that is lost, and those that are;
* `ackOne_cases`, `onAckReceived_cases`: a number that is acknowledged, and an ACK frame; `onPacketAuthenticated_cases`;
* `detectLostPackets_inv`, `onAckReceived_inv`, `transmitSpace_inv`, `pollTransmit_inv`: what the parts keep, the
  whole keeps;
* `Walk`: the loop over the frames of a packet, with `processFrames_cases` and `processPacket_cases`;
* `handlePacket_eq`, `handleData_cases`: a packet is dropped, or authenticated and processed;
* `transmitSpace_cases`: a round of `poll_transmit` composes a packet or not; `pollTransmit_cases`;
* `Fired`, `pollTimers_fired`: what a timer does.
-/

namespace MzQuic

open Lib

/-- The space, without a packet. -/
def PacketSpace.taken (space : PacketSpace) (pn : ℕ) (packet : SentPacket) : PacketSpace :=
  { space with sentPackets := space.sentPackets.erase pn, inFlight := space.inFlight - packet.size }

namespace Connection

/-! ## One packet -/

section Packet

variable (s : PacketSpace) (packet : SentPacket)

@[simp] theorem requeue_nextPacketNumber : (s.requeue packet).nextPacketNumber = s.nextPacketNumber := by
  unfold PacketSpace.requeue; split <;> rfl

@[simp] theorem requeue_sentPackets : (s.requeue packet).sentPackets = s.sentPackets := by
  unfold PacketSpace.requeue; split <;> rfl

@[simp] theorem requeue_inFlight : (s.requeue packet).inFlight = s.inFlight := by
  unfold PacketSpace.requeue; split <;> rfl

@[simp] theorem requeue_pendingAcks : (s.requeue packet).pendingAcks = s.pendingAcks := by
  unfold PacketSpace.requeue; split <;> rfl

@[simp] theorem ackedBy_nextPacketNumber : (s.ackedBy packet).nextPacketNumber = s.nextPacketNumber := by
  unfold PacketSpace.ackedBy; split <;> rfl

@[simp] theorem ackedBy_sentPackets : (s.ackedBy packet).sentPackets = s.sentPackets := by
  unfold PacketSpace.ackedBy; split <;> rfl

@[simp] theorem ackedBy_inFlight : (s.ackedBy packet).inFlight = s.inFlight := by
  unfold PacketSpace.ackedBy; split <;> rfl

end Packet

theorem take_ok {space space' : PacketSpace} {pn : ℕ} {packet : Option SentPacket}
    (h : space.take pn = .ok (packet, space')) : space.sentPackets.find? pn = packet ∧
      ((packet = none ∧ space' = space) ∨ ∃ p, packet = some p ∧ p.size ≤ space.inFlight ∧
        space' = space.taken pn p) := by
  unfold PacketSpace.take at h
  cases hf : space.sentPackets.find? pn with
  | none =>
      rw [hf] at h
      cases h
      exact ⟨rfl, .inl ⟨rfl, rfl⟩⟩
  | some p =>
      rw [hf] at h
      obtain ⟨n, hn, h⟩ := Checked.bind_eq_ok.mp h
      obtain ⟨hle, rfl⟩ := Checked.sub_eq_ok.mp hn
      cases h
      exact ⟨rfl, .inr ⟨p, rfl, hle, rfl⟩⟩

section Cases

variable {c c' : Connection} {now : Instant} {id : SpaceId}

/-! ## Loss detection -/

/-- The timer is all that changes. -/
theorem setLossDetectionTimer_eq (c : Connection) :
    ∃ timers, c.setLossDetectionTimer = { c with timers := timers } := by
  unfold setLossDetectionTimer
  split_ifs
  · exact ⟨c.timers, rfl⟩
  · split
    · exact ⟨_, rfl⟩
    · dsimp only
      split <;> exact ⟨_, rfl⟩

/-- A discarded space differs in what is in flight, and when it is lost. -/
theorem discardSpace_eq (h : c.discardSpace id = .ok c') : ∃ timers, c' = { c.modifySpace id fun s =>
    { s with lossTime := none, inFlight := 0, sentPackets := ∅ } with path := c'.path, timers := timers } := by
  obtain ⟨u, -, h⟩ := Checked.bind_eq_ok.mp h
  obtain ⟨path, -, h⟩ := Checked.bind_eq_ok.mp h
  cases h
  obtain ⟨timers, e⟩ := setLossDetectionTimer_eq { c.modifySpace id (fun s =>
    { s with lossTime := none, inFlight := 0, sentPackets := ∅ }) with path := path }
  exact ⟨timers, by rw [e]⟩

theorem discardSpace_streams (h : c.discardSpace id = .ok c') : c'.streams = c.streams := by
  obtain ⟨timers, e⟩ := discardSpace_eq h
  rw [e]
  rfl

/-- **What `detect_lost_packets` does.** It notes when to look again, and loses some packets in flight. -/
theorem detectLostPackets_cases (h : c.detectLostPackets now id = .ok c') :
    (∃ t, c' = c.modifySpace id fun s => { s with lossTime := t }) ∨
      ∃ t lost c₁, lost.Pairwise (fun p q => p.1 < q.1) ∧ (∀ p ∈ lost, p ∈ (c.spaces id).sentPackets.entries) ∧
        run (loseOne now id) (c.modifySpace id fun s => { s with lossTime := t }) lost = .ok c₁ ∧
        c' = c₁.setLossDetectionTimer := by
  unfold detectLostPackets at h
  split at h
  · cases h
    exact .inl ⟨none, rfl⟩
  · dsimp only at h
    split_ifs at h
    · cases h
      exact .inl ⟨_, rfl⟩
    · obtain ⟨c₁, h1, h⟩ := Checked.bind_eq_ok.mp h
      cases h
      refine .inr ⟨_, _, c₁, ?_, fun p hp => ?_, h1, rfl⟩
      · exact ((c.spaces id).sentPackets.sorted.sublist (List.takeWhile_sublist _)).filter _
      · exact (List.takeWhile_sublist _).subset (List.mem_filter.mp hp).1

/-- **What the detection of losses and the setting of the timer keep, a timeout keeps.** -/
theorem onLossDetectionTimeout_keeps {I : Connection → Prop}
    (hdetect : ∀ x i x', I x → x.detectLostPackets now i = .ok x' → I x')
    (htimer : ∀ x, I x → I x.setLossDetectionTimer) (h : c.onLossDetectionTimeout now = .ok c') (hI : I c) :
    I c' := by
  obtain ⟨c₁, h1, h⟩ := Checked.bind_eq_ok.mp h
  cases h
  refine htimer c₁ ?_
  split at h1
  · exact hdetect _ _ _ hI h1
  · refine run_inv (I := I) (fun x i x' hx _ hs => ?_) hI (Meets.trivial _ _ _) h1
    split_ifs at hs
    · exact hdetect _ _ _ hx hs
    · cases hs
      exact hx

/-- **What a lost packet does.** It leaves its space and the path, and what it carried is to be sent again. -/
theorem loseOne_cases {p : ℕ × SentPacket} (h : loseOne now id c p = .ok c') : ∃ s removed path n,
    run StreamsState.retransmit c.streams p.2.streamFrames = .ok s ∧
      c.path.removeInFlight p.1 p.2 = .ok (removed, path) ∧
      (∀ packet, (c.spaces id).sentPackets.find? p.1 = some packet →
        packet.size ≤ (c.spaces id).inFlight ∧ n = (c.spaces id).inFlight - packet.size) ∧
      c' = { c.modifySpace id fun _ =>
          { (c.spaces id).requeue p.2 with sentPackets := (c.spaces id).sentPackets.erase p.1, inFlight := n } with
        path := path.lost removed p.2 now
        streams := s } := by
  obtain ⟨⟨removed, path⟩, hp, h⟩ := Checked.bind_eq_ok.mp h
  obtain ⟨s, hs, h⟩ := Checked.bind_eq_ok.mp h
  obtain ⟨⟨found, space⟩, ht, h⟩ := Checked.bind_eq_ok.mp h
  cases h
  obtain ⟨hfind, hcase⟩ := take_ok ht
  rw [requeue_sentPackets] at hfind
  obtain ⟨rfl, rfl⟩ | ⟨packet, rfl, hle, rfl⟩ := hcase
  · refine ⟨s, removed, path, (c.spaces id).inFlight, hs, hp, fun packet hf => ?_, ?_⟩
    · rw [hfind] at hf
      cases hf
    · rw [OrdMap.erase_of_find?_eq_none hfind, ← requeue_sentPackets (c.spaces id) p.2,
        ← requeue_inFlight (c.spaces id) p.2]
  · rw [requeue_inFlight] at hle
    refine ⟨s, removed, path, (c.spaces id).inFlight - packet.size, hs, hp, fun packet' hf => ?_, ?_⟩
    · rw [hfind] at hf
      cases hf
      exact ⟨hle, rfl⟩
    · simp only [PacketSpace.taken, requeue_sentPackets, requeue_inFlight]

/-- Only the packet itself leaves the space. -/
theorem loseOne_space {p : ℕ × SentPacket} (h : loseOne now id c p = .ok c') : ∃ n, c'.spaces id =
    { (c.spaces id).requeue p.2 with sentPackets := (c.spaces id).sentPackets.erase p.1, inFlight := n } := by
  obtain ⟨s, removed, path, n, -, -, -, rfl⟩ := loseOne_cases h
  exact ⟨n, Function.update_self ..⟩

theorem mem_of_loseOne {p q : ℕ × SentPacket} (h : loseOne now id c p = .ok c')
    (hq : q ∈ (c.spaces id).sentPackets.entries) (hne : q.1 ≠ p.1) :
    q ∈ (c'.spaces id).sentPackets.entries := by
  obtain ⟨n, e⟩ := loseOne_space h
  rw [e]
  exact OrdMap.mem_erase.mpr ⟨hq, hne⟩

/-- **What the loss of a packet in flight and the setting of the timer keep, the detection keeps.** The packets that
are lost are still there when their turn comes. -/
theorem detectLostPackets_inv {I : Connection → Prop}
    (htime : ∀ t, I (c.modifySpace id fun s => { s with lossTime := t }))
    (hlose : ∀ x p x', I x → p ∈ (x.spaces id).sentPackets.entries → loseOne now id x p = .ok x' → I x')
    (htimer : ∀ x, I x → I x.setLossDetectionTimer) (h : c.detectLostPackets now id = .ok c') : I c' := by
  have hloop : ∀ (lost : List (ℕ × SentPacket)) x x', I x → lost.Pairwise (fun p q => p.1 < q.1) →
      (∀ p ∈ lost, p ∈ (x.spaces id).sentPackets.entries) → run (loseOne now id) x lost = .ok x' → I x' := by
    intro lost
    induction lost with
    | nil =>
        intro x x' hx _ _ h
        cases h
        exact hx
    | cons p lost ih =>
        intro x x' hx hd hl h
        obtain ⟨x₁, h1, h⟩ := Checked.bind_eq_ok.mp h
        obtain ⟨hp, hd⟩ := List.pairwise_cons.mp hd
        refine ih x₁ x' (hlose x p x₁ hx (hl p List.mem_cons_self) h1) hd (fun q hq => ?_) h
        exact mem_of_loseOne h1 (hl q (List.mem_cons_of_mem p hq)) (hp q hq).ne'
  rcases detectLostPackets_cases h with ⟨t, rfl⟩ | ⟨t, lost, c₁, hd, hl, h1, rfl⟩
  · exact htime t
  · refine htimer c₁ (hloop lost _ c₁ (htime t) hd (fun p hp => ?_) h1)
    simp only [modifySpace, Function.update_self]
    exact hl p hp

/-! ## Acknowledgements -/

/-- An ACK frame is accepted: it is for numbers that were sent, and not for fewer than before. -/
def acceptsAck (c : Connection) (id : SpaceId) (ack : Ack) : Bool :=
  ack.largest < (c.spaces id).nextPacketNumber && !(c.spaces id).largestAckedPacket.any (ack.largest < ·)

theorem acceptsAck_iff {ack : Ack} : c.acceptsAck id ack = true ↔
    ack.largest < (c.spaces id).nextPacketNumber ∧ ∀ prev ∈ (c.spaces id).largestAckedPacket, prev ≤ ack.largest := by
  unfold acceptsAck
  cases (c.spaces id).largestAckedPacket with
  | none => simp
  | some prev => simp

/-- **What an acknowledged number does.** The packet is gone, or it leaves its space and the path, and the streams
learn which of their frames it carried. -/
theorem ackOne_cases {l l' : AckLoop} {pn : ℕ} (h : ackOne id l pn = .ok l') :
    ((l.c.spaces id).sentPackets.find? pn = none ∧ l' = l) ∨
      ∃ packet s removed path, (l.c.spaces id).sentPackets.find? pn = some packet ∧
        packet.size ≤ (l.c.spaces id).inFlight ∧
        run StreamsState.receivedAckOf l.c.streams packet.streamFrames = .ok s ∧
        l.c.path.removeInFlight packet.number packet = .ok (removed, path) ∧ l'.newlyAckedAny = true ∧
        l'.c = { l.c.modifySpace id fun space => (space.taken pn packet).ackedBy packet with
          path := path.acked removed packet l.c.appLimited
          streams := s } := by
  obtain ⟨⟨found, space⟩, ht, h⟩ := Checked.bind_eq_ok.mp h
  obtain ⟨hfind, ⟨rfl, rfl⟩ | ⟨packet, rfl, hle, rfl⟩⟩ := take_ok ht
  · cases h
    exact .inl ⟨hfind, rfl⟩
  · obtain ⟨s, hs, h⟩ := Checked.bind_eq_ok.mp h
    obtain ⟨⟨removed, path⟩, hp, h⟩ := Checked.bind_eq_ok.mp h
    cases h
    exact .inr ⟨packet, s, removed, path, hfind, hle, hs, hp, rfl, rfl⟩

/-- **What an ACK frame does.** It is rejected, or the packets with its numbers are acknowledged, and if there
are any, packets may be lost. -/
theorem onAckReceived_cases {ack : Ack} {r : Except TransportError Unit}
    (h : c.onAckReceived now id ack = .ok (r, c')) :
    (c.acceptsAck id ack = false ∧ (∃ e, r = .error e) ∧ c' = c) ∨
      (c.acceptsAck id ack = true ∧ r = .ok () ∧ ∃ ranges l, ack.iter = .ok ranges ∧
        run (ackOne id) { c := c } (ranges.flatMap rangeInclusive) = .ok l ∧
        (c' = l.c ∨ ackNews now id ack l = .ok c')) := by
  unfold onAckReceived at h
  unfold acceptsAck
  split_ifs at h with h1 h2
  · cases h
    rw [decide_eq_false (Nat.not_lt.mpr h1)]
    exact .inl ⟨rfl, ⟨_, rfl⟩, rfl⟩
  · cases h
    rw [h2, Bool.not_true, Bool.and_false]
    exact .inl ⟨rfl, ⟨_, rfl⟩, rfl⟩
  · rw [decide_eq_true (Nat.lt_of_not_le h1), Bool.eq_false_iff.mpr h2]
    obtain ⟨ranges, hranges, h⟩ := Checked.bind_eq_ok.mp h
    obtain ⟨l, hl, h⟩ := Checked.bind_eq_ok.mp h
    split_ifs at h
    · cases h
      exact .inr ⟨rfl, rfl, ranges, l, hranges, hl, .inl rfl⟩
    · obtain ⟨c₁, h2, h⟩ := Checked.bind_eq_ok.mp h
      cases h
      exact .inr ⟨rfl, rfl, ranges, l, hranges, hl, .inr h2⟩

/-- What an acknowledged frame notes in the space. -/
def noteLargest (s : PacketSpace) (now : Instant) (ack : Ack) : PacketSpace := { s with
  largestAckedPacket := some (match s.largestAckedPacket with
    | some prev => max prev ack.largest
    | none => ack.largest)
  largestAckedPacketSent := now }

/-- **What is noted of a frame and the detection of losses keep, all that follows the loop keeps.** -/
theorem ackNews_inv {I : Connection → Prop} {ack : Ack} {l : AckLoop}
    (hnote : ∀ rtt, I { l.c.modifySpace id (noteLargest · now ack) with path := { l.c.path with rtt := rtt } })
    (hdetect : ∀ x x', I x → x.detectLostPackets now id = .ok x' → I x')
    (htimer : ∀ x, I x → I x.setLossDetectionTimer) (h : ackNews now id ack l = .ok c') : I c' := by
  obtain ⟨c₁, h1, h⟩ := Checked.bind_eq_ok.mp h
  cases h
  refine htimer c₁ (hdetect _ c₁ ?_ h1)
  cases l.largestNewlyAcked with
  | none => exact hnote l.c.path.rtt
  | some packet => exact hnote _

/-- **What an acknowledged number and all that follows the loop keep, an ACK frame keeps.** -/
theorem onAckReceived_inv {I : Connection → Prop} {ack : Ack} {r : Except TransportError Unit}
    (hone : ∀ l pn l', I l.c → ackOne id l pn = .ok l' → I l'.c)
    (hnews : ∀ l x, I l.c → ackNews now id ack l = .ok x → I x)
    (h : c.onAckReceived now id ack = .ok (r, c')) (hI : I c) : I c' := by
  rcases onAckReceived_cases h with ⟨-, -, rfl⟩ | ⟨-, -, ranges, l, -, hl, hnoted⟩
  · exact hI
  · have hloop : I l.c := run_inv (I := fun l : AckLoop => I l.c) (fun l pn l' hx _ hs => hone l pn l' hx hs) hI
      (Meets.trivial _ _ _) hl
    rcases hnoted with rfl | hnoted
    · exact hloop
    · exact hnews l c' hloop hnoted

/-! ## Packets -/

/-- The connection that has recorded the number of a packet. -/
def recorded (c : Connection) (now : Instant) (id : SpaceId) (n : ℕ) : Connection :=
  c.modifySpace id fun s => { s with
    pendingAcks := ((c.spaces id).pendingAcks.packetReceived now n true (c.spaces id).dedup).2
    rxPacket := if n ≥ s.rxPacket then n else s.rxPacket }

/-- **What `on_packet_authenticated` does.** A packet with a number is recorded, to be acknowledged after a delay
if it is one of the data space and nothing asks for more, and at once otherwise. Before that, a server
that has the first Handshake packet discards the Initial space. -/
theorem onPacketAuthenticated_cases {number : Option ℕ} (h : c.onPacketAuthenticated now id number = .ok c') :
    (number = none ∧ c' = c) ∨ ∃ n c₁, number = some n ∧ (c₁ = c ∨ c.discardSpace .initial = .ok c₁) ∧
      ((id = .data ∧ c' = { c₁.recorded now id n with
          timers := c₁.timers.set .maxAckDelay (now + Duration.fromMillis 25) }) ∨
        (id = .data ∧ ((c₁.spaces id).pendingAcks.packetReceived now n true (c₁.spaces id).dedup).1 = false ∧
          c' = c₁.recorded now id n) ∨
        (id ≠ .data ∧ c' = (c₁.recorded now id n).modifySpace id fun s =>
          { s with pendingAcks := s.pendingAcks.setImmediateAckRequired })) := by
  unfold onPacketAuthenticated at h
  cases number with
  | none =>
      cases h
      exact .inl ⟨rfl, rfl⟩
  | some n =>
      obtain ⟨c₁, h1, h⟩ := Checked.bind_eq_ok.mp h
      refine .inr ⟨n, c₁, rfl, ?_, ?_⟩
      · split_ifs at h1
        · exact .inr h1
        · cases h1
          exact .inl rfl
      · dsimp only at h
        split_ifs at h with hid harm
        · cases h
          exact .inl ⟨hid, rfl⟩
        · cases h
          exact .inr (.inl ⟨hid, Bool.eq_false_iff.mpr harm, rfl⟩)
        · cases h
          exact .inr (.inr ⟨hid, rfl⟩)

/-- **What the recording of a number and what may precede and follow it keep, an authenticated packet keeps.** -/
theorem onPacketAuthenticated_inv {I : Connection → Prop} {number : Option ℕ}
    (hdiscard : ∀ x, c.discardSpace .initial = .ok x → I x)
    (hrecord : ∀ x n, I x → number = some n → I (x.recorded now id n))
    (htimer : ∀ x, I x → I { x with timers := x.timers.set .maxAckDelay (now + Duration.fromMillis 25) })
    (hspace : ∀ x, I x → I (x.modifySpace id fun s =>
      { s with pendingAcks := s.pendingAcks.setImmediateAckRequired }))
    (h : c.onPacketAuthenticated now id number = .ok c') (hI : I c) : I c' := by
  rcases onPacketAuthenticated_cases h with ⟨-, rfl⟩ | ⟨n, c₁, hn, hc₁, hr⟩
  · exact hI
  · have hd : I c₁ := by
      rcases hc₁ with rfl | hd
      · exact hI
      · exact hdiscard c₁ hd
    have hrec : I (c₁.recorded now id n) := hrecord c₁ n hd hn
    rcases hr with ⟨-, rfl⟩ | ⟨-, -, rfl⟩ | ⟨-, rfl⟩
    · exact htimer _ hrec
    · exact hrec
    · exact hspace _ hrec

/-- A walk of the loop over the frames, with its result. -/
inductive Walk (handle : Connection → Frame → Handled) :
    ℕ → FrameParser → Connection → Except TransportError Unit → Connection → Prop
  | out {parser : FrameParser} {c : Connection} : Walk handle 0 parser c (.ok ()) c
  | ended {n : ℕ} {parser parser' : FrameParser} {c : Connection} (hn : parser.next = .ok (none, parser')) :
      Walk handle (n + 1) parser c (.ok ()) c
  | malformed {n : ℕ} {parser parser' : FrameParser} {c : Connection} {e : TransportError}
      (hn : parser.next = .ok (some (.error e), parser')) : Walk handle (n + 1) parser c (.error e) c
  | rejected {n : ℕ} {parser parser' : FrameParser} {c c' : Connection} {frame : Frame} {e : TransportError}
      (hn : parser.next = .ok (some (.ok frame), parser')) (h : handle c frame = .ok (.error e, c')) :
      Walk handle (n + 1) parser c (.error e) c'
  | closed {n : ℕ} {parser parser' : FrameParser} {c c' : Connection} {frame : Frame}
      (hn : parser.next = .ok (some (.ok frame), parser')) (h : handle c frame = .ok (.ok false, c')) :
      Walk handle (n + 1) parser c (.ok ()) c'
  | next {n : ℕ} {parser parser' : FrameParser} {c c₁ c' : Connection} {frame : Frame}
      {r : Except TransportError Unit} (hn : parser.next = .ok (some (.ok frame), parser'))
      (h : handle c frame = .ok (.ok true, c₁)) (hw : Walk handle n parser' c₁ r c') :
      Walk handle (n + 1) parser c r c'

/-- **The loop over the frames is a walk.** -/
theorem frameLoop_walk {handle : Connection → Frame → Handled} {n : ℕ} {parser : FrameParser}
    {r : Except TransportError Unit} (h : frameLoop handle n parser c = .ok (r, c')) :
    Walk handle n parser c r c' := by
  induction n generalizing parser c with
  | zero =>
      cases h
      exact .out
  | succ n ih =>
      unfold frameLoop at h
      obtain ⟨⟨item, parser'⟩, hn, h⟩ := Checked.bind_eq_ok.mp h
      match item with
      | none =>
          cases h
          exact .ended hn
      | some (.error e) =>
          cases h
          exact .malformed hn
      | some (.ok frame) =>
          obtain ⟨⟨res, c₁⟩, h1, h⟩ := Checked.bind_eq_ok.mp h
          match res with
          | .error e =>
              cases h
              exact .rejected hn h1
          | .ok false =>
              cases h
              exact .closed hn h1
          | .ok true => exact .next hn h1 (ih h)

/-- **What the handling of a frame keeps, the handling of a packet keeps.** -/
theorem Walk.keeps {handle : Connection → Frame → Handled} {I : Connection → Prop}
    (hh : ∀ c frame r c', I c → handle c frame = .ok (r, c') → I c') {n : ℕ} {parser : FrameParser}
    {r : Except TransportError Unit} (hw : Walk handle n parser c r c') (hI : I c) : I c' := by
  induction hw with
  | out => exact hI
  | ended _ => exact hI
  | malformed _ => exact hI
  | rejected _ h => exact hh _ _ _ _ hI h
  | closed _ h => exact hh _ _ _ _ hI h
  | next _ h _ ih => exact ih (hh _ _ _ _ hI h)

/-- **What the frames of a payload do.** A payload without frames is an error, and changes nothing. -/
theorem processFrames_cases {handle : Connection → Frame → Handled} {payload : Bytes}
    {r : Except TransportError Unit} (h : c.processFrames payload handle = .ok (r, c')) :
    (∃ e, FrameParser.new payload = .error e ∧ r = .error e ∧ c' = c) ∨
      ∃ parser, FrameParser.new payload = .ok parser ∧ Walk handle (payload.length + 1) parser c r c' := by
  unfold processFrames at h
  cases hp : FrameParser.new payload with
  | error e =>
      rw [hp] at h
      cases h
      exact .inl ⟨e, rfl, rfl, rfl⟩
  | ok parser =>
      rw [hp] at h
      exact .inr ⟨parser, rfl, frameLoop_walk h⟩

/-- **What a packet does.** Its frames are handled, unless it is a data packet without a number. -/
theorem processPacket_cases {number : Option ℕ} {packet : Packet} {r : Except ConnectionError Unit}
    (h : c.processPacket now number packet = .ok (r, c')) :
    (∃ r', (packet.header.space = .initial ∨ packet.header.space = .handshake) ∧
      c.processFrames packet.payload (handleEarlyFrame now packet.header.space) = .ok (r', c') ∧
      r = r'.mapError .transportError) ∨
    (packet.header.space = .data ∧ number = none ∧
      r = .error (.transportError ⟨.protocolViolation, none, "missing packet number"⟩) ∧ c' = c) ∨
    ∃ n r', packet.header.space = .data ∧ number = some n ∧
      c.processFrames packet.payload (handleFrame now packet.header.space packet.payload.length) = .ok (r', c') ∧
      r = r'.mapError .transportError := by
  unfold processPacket at h
  cases hid : packet.header.space with
  | initial =>
      rw [hid] at h
      obtain ⟨⟨r', c₁⟩, h1, h⟩ := Checked.bind_eq_ok.mp h
      cases h
      rw [processEarlyPayload, hid] at h1
      exact .inl ⟨r', .inl rfl, h1, rfl⟩
  | handshake =>
      rw [hid] at h
      obtain ⟨⟨r', c₁⟩, h1, h⟩ := Checked.bind_eq_ok.mp h
      cases h
      rw [processEarlyPayload, hid] at h1
      exact .inl ⟨r', .inr rfl, h1, rfl⟩
  | data =>
      rw [hid] at h
      cases number with
      | none =>
          cases h
          exact .inr (.inl ⟨rfl, rfl, rfl, rfl⟩)
      | some n =>
          obtain ⟨⟨r', c₁⟩, h1, h⟩ := Checked.bind_eq_ok.mp h
          cases h
          rw [processPayload, hid] at h1
          exact .inr (.inr ⟨n, r', rfl, rfl, h1, rfl⟩)

theorem processFrames_keeps {handle : Connection → Frame → Handled} {I : Connection → Prop}
    (hh : ∀ c frame r c', I c → handle c frame = .ok (r, c') → I c') {payload : Bytes}
    {r : Except TransportError Unit} (h : c.processFrames payload handle = .ok (r, c')) (hI : I c) : I c' := by
  rcases processFrames_cases h with ⟨e, -, -, rfl⟩ | ⟨parser, -, hw⟩
  · exact hI
  · exact hw.keeps hh hI

theorem processPacket_keeps {I : Connection → Prop} {number : Option ℕ} {packet : Packet}
    (he : ∀ id c frame r c', I c → handleEarlyFrame now id c frame = .ok (r, c') → I c')
    (hd : ∀ id k c frame r c', I c → handleFrame now id k c frame = .ok (r, c') → I c')
    {r : Except ConnectionError Unit} (h : c.processPacket now number packet = .ok (r, c')) (hI : I c) :
    I c' := by
  rcases processPacket_cases h with ⟨r', -, h1, -⟩ | ⟨-, -, -, rfl⟩ | ⟨n, r', -, -, h1, -⟩
  · exact processFrames_keeps (he _) h1 hI
  · exact hI
  · exact processFrames_keeps (hd _ _) h1 hI

/-- The number of a packet, as the receiver expands it. -/
def arrival (c : Connection) (header : Header) : Option ℕ :=
  header.number.map fun n => n.expand ((c.spaces header.space).rxPacket + 1)

/-- What the window over the numbers received says of a packet, and the window after that. -/
def screen (c : Connection) (header : Header) : Bool × Dedup :=
  match c.arrival header with
  | some n => (c.spaces header.space).dedup.insert n
  | none => (false, (c.spaces header.space).dedup)

/-- Whether a packet is processed: it is no duplicate, and has no short header during the handshake. -/
def accepts (c : Connection) (header : Header) : Bool :=
  !(c.screen header).1 && !(c.state.isHandshake && header.isShort)

/-- The connection that has seen the number of a packet. -/
def screened (c : Connection) (header : Header) : Connection :=
  c.modifySpace header.space fun s => { s with dedup := (c.screen header).2 }

/-- A packet is authenticated if the connection is open. -/
def authenticate (c : Connection) (now : Instant) (header : Header) : Checked Connection :=
  if c.state.isClosed then .ok (c.screened header)
  else (c.screened header).onPacketAuthenticated now header.space (c.arrival header)

theorem authenticate_cases {header : Header} (h : c.authenticate now header = .ok c') :
    (c.state.isClosed = true ∧ c' = c.screened header) ∨ (c.state.isClosed = false ∧
      (c.screened header).onPacketAuthenticated now header.space (c.arrival header) = .ok c') := by
  unfold authenticate at h
  split_ifs at h with hclosed
  · cases h
    exact .inl ⟨hclosed, rfl⟩
  · exact .inr ⟨Bool.eq_false_iff.mpr hclosed, h⟩

/-- **What a packet does.** It is dropped once its number has been seen, or authenticated and
processed. -/
theorem handlePacket_eq (c : Connection) (now : Instant) (packet : Packet) : c.handlePacket now packet =
    if c.accepts packet.header then do
      let c₁ ← c.authenticate now packet.header
      let res ← c₁.processPacket now (c.arrival packet.header) packet
      return afterPacket now c.state.isClosed c.state.isDrained res
    else .ok (c.screened packet.header) := by
  have hscreen : c.handlePacket now packet =
      if (c.screen packet.header).1 then .ok (c.screened packet.header)
      else if c.state.isHandshake && packet.header.isShort then .ok (c.screened packet.header)
      else do
        let c₁ ← (if !c.state.isClosed then (c.screened packet.header).onPacketAuthenticated now
          packet.header.space (c.arrival packet.header) else .ok (c.screened packet.header))
        let res ← c₁.processPacket now (c.arrival packet.header) packet
        return afterPacket now c.state.isClosed c.state.isDrained res := rfl
  rw [hscreen]
  unfold accepts authenticate
  cases (c.screen packet.header).1 with
  | true => rfl
  | false =>
      cases c.state.isHandshake && packet.header.isShort with
      | true => rfl
      | false => cases c.state.isClosed <;> rfl

/-- The packet in a datagram. -/
def packetOf (data : Bytes) : Option Packet :=
  match (Header.decode fakeCid.bytes.length supportedVersions data :
      Checked (Except PacketDecodeError Header × Bytes)) with
  | .ok (.ok header, payload) => some ⟨header, payload⟩
  | _ => none

/-- **What a datagram does.** It holds no packet, or its packet is dropped, or processed. -/
theorem handleData_cases {data : Bytes} (h : c.handleData now data = .ok c') :
    (packetOf data = none ∧ c' = c) ∨ ∃ packet, packetOf data = some packet ∧
      ((c.accepts packet.header = false ∧ c' = c.screened packet.header) ∨
        (c.accepts packet.header = true ∧ ∃ c₁ res, c.authenticate now packet.header = .ok c₁ ∧
          c₁.processPacket now (c.arrival packet.header) packet = .ok res ∧
          c' = afterPacket now c.state.isClosed c.state.isDrained res)) := by
  obtain ⟨⟨r, payload⟩, hd, h⟩ := Checked.bind_eq_ok.mp h
  unfold packetOf
  rw [hd]
  match r with
  | .error e =>
      cases h
      exact .inl ⟨rfl, rfl⟩
  | .ok header =>
      refine .inr ⟨⟨header, payload⟩, rfl, ?_⟩
      dsimp only at h
      rw [handlePacket_eq] at h
      split_ifs at h with ha
      · obtain ⟨c₁, h1, h⟩ := Checked.bind_eq_ok.mp h
        obtain ⟨res, h2, h⟩ := Checked.bind_eq_ok.mp h
        cases h
        exact .inr ⟨ha, c₁, res, h1, h2, rfl⟩
      · cases h
        exact .inl ⟨Bool.eq_false_iff.mpr ha, rfl⟩

/-! ## Polls -/

/-- The round of a poll that comes to the space `id` composes a packet. -/
def composes (close blocked : Bool) (c : Connection) (id : SpaceId) : Bool :=
  (!(c.spaceCanSend id).isEmpty || (close && id = c.highestSpace)) &&
    !((c.spaceCanSend id).other && blocked)

/-- **What one round can do.** It schedules nothing, or composes a packet, perhaps after the Initial
space was discarded; what is noted of the packet is what the space has to send. -/
theorem transmitSpace_cases {close blocked : Bool} {s s' : Connection × Bool}
    (h : transmitSpace now close blocked s id = .ok s') : ∃ c₁,
      (c₁ = s.1 ∨ id = .handshake ∧ s.1.discardSpace .initial = .ok c₁) ∧
      (s.1.composes close blocked id = false ∧ s'.1 = { c₁ with appLimited := s'.1.appLimited } ∨
        s.1.composes close blocked id = true ∧
          composePacket now close c₁ id (s.1.spaceCanSend id).other = .ok s'.1) := by
  obtain ⟨c, sentAny⟩ := s
  unfold transmitSpace at h
  dsimp only at h
  by_cases hskip : ((c.spaceCanSend id).isEmpty && !(close && id = c.highestSpace)) = true
  · rw [if_pos hskip] at h
    cases h
    refine ⟨c, .inl rfl, .inl ⟨?_, rfl⟩⟩
    unfold composes
    rw [← Bool.not_not (close && _), ← Bool.not_and, hskip, Bool.not_true, Bool.false_and]
  rw [if_neg hskip] at h
  obtain ⟨c₁, h1, h⟩ := Checked.bind_eq_ok.mp h
  have hc₁ : c₁ = c ∨ id = .handshake ∧ c.discardSpace .initial = .ok c₁ := by
    split_ifs at h1 with hd
    · exact .inr ⟨hd.2.1, h1⟩
    · cases h1
      exact .inl rfl
  have hs : c₁.streams = c.streams := by
    rcases hc₁ with rfl | ⟨-, h1⟩
    · rfl
    · exact discardSpace_streams h1
  have hflag : ((c.spaceCanSend id).other || (id = .data && c₁.streams.canSendStreamData)) =
      (c.spaceCanSend id).other := by
    unfold spaceCanSend
    rw [hs]
    by_cases hid : id = .data
    · simp [hid]
    · simp [hid]
  rw [hflag] at h
  refine ⟨c₁, hc₁, ?_⟩
  split_ifs at h with hblock
  · cases h
    refine .inl ⟨?_, rfl⟩
    unfold composes
    rw [hblock, Bool.not_true, Bool.and_false]
  · obtain ⟨c₂, h2, h⟩ := Checked.bind_eq_ok.mp h
    cases h
    refine .inr ⟨?_, h2⟩
    unfold composes
    rw [Bool.eq_false_iff.mpr hblock, Bool.not_false, Bool.and_true]
    rw [Bool.not_eq_true] at hskip
    rw [← Bool.not_not (close && _), ← Bool.not_and, hskip, Bool.not_false]

/-- **What the composition of a packet and a discarded space keep, a round keeps.** -/
theorem transmitSpace_inv {I : Connection → Prop} {close blocked : Bool} {s s' : Connection × Bool}
    (hdiscard : ∀ x, s.1.discardSpace .initial = .ok x → I x)
    (hlimited : ∀ x b, I x → I { x with appLimited := b })
    (hcompose : ∀ x b x', I x → composePacket now close x id b = .ok x' → I x')
    (h : transmitSpace now close blocked s id = .ok s') (hI : I s.1) : I s'.1 := by
  obtain ⟨c₁, hc₁, h⟩ := transmitSpace_cases h
  have hd : I c₁ := by
    rcases hc₁ with rfl | ⟨-, hd⟩
    · exact hI
    · exact hdiscard c₁ hd
  rcases h with ⟨-, h⟩ | ⟨-, h⟩
  · rw [h]
    exact hlimited c₁ _ hd
  · exact hcompose c₁ _ s'.1 hd h

/-- Whether a poll goes through the spaces, and whether it does so to close the connection. -/
def polls (c : Connection) : Option Bool :=
  match c.state with
  | .drained => none
  | .draining | .closed _ => if c.pendingClose then some true else none
  | _ => some false

theorem pollTransmit_eq (c : Connection) (now : Instant) : c.pollTransmit now =
    match c.polls with
    | none => .ok (false, c)
    | some close => c.pollSpaces now close := by
  unfold pollTransmit polls
  cases c.state with
  | closed reason => cases c.pendingClose <;> rfl
  | draining => cases c.pendingClose <;> rfl
  | _ => rfl

/-- **What a poll can do.** It leaves the connection alone, or goes through the spaces; after that it notes
whether the application limits it. -/
theorem pollTransmit_cases {more : Bool} (h : c.pollTransmit now = .ok (more, c')) :
    c' = c ∨ ∃ close s, c.polls = some close ∧
      run (transmitSpace now close (c.path.inFlight.bytes ≥ c.path.congestion.window)) (c, false)
        SpaceId.variants = .ok s ∧ c' = { s.1 with appLimited := c'.appLimited } := by
  rw [pollTransmit_eq] at h
  cases hp : c.polls with
  | none =>
      rw [hp] at h
      cases h
      exact .inl rfl
  | some close =>
      rw [hp] at h
      obtain ⟨⟨c₁, sentAny⟩, hrun, h⟩ := Checked.bind_eq_ok.mp h
      refine .inr ⟨close, (c₁, sentAny), rfl, hrun, ?_⟩
      dsimp only at h
      split_ifs at h <;> cases h <;> rfl

/-- **What every round keeps, a poll keeps.** -/
theorem pollTransmit_inv {I : Connection → Prop} {more : Bool}
    (hround : ∀ close blocked s id s', I s.1 → transmitSpace now close blocked s id = .ok s' → I s'.1)
    (hlimited : ∀ x b, I x → I { x with appLimited := b }) (h : c.pollTransmit now = .ok (more, c')) (hI : I c) :
    I c' := by
  rcases pollTransmit_cases h with rfl | ⟨close, s, -, hrun, hc'⟩
  · exact hI
  · have hs : I s.1 := run_inv (I := fun s : Connection × Bool => I s.1)
      (fun s id s' hx _ hs => hround close _ s id s' hx hs) hI (Meets.trivial _ _ _) hrun
    rw [hc']
    exact hlimited s.1 _ hs

/-! ## Timers -/

/-- A timer that fires is stopped. -/
theorem poll_eq_some {t t' : TimerTable} {timer : Timer} (h : t.poll now = some (timer, t')) :
    t' = t.stop timer := by
  unfold TimerTable.poll at h
  dsimp only at h
  split at h
  · cases h
  · split_ifs at h
    cases h
    rfl

/-- What a timer that fires does. -/
inductive Fired (c : Connection) (now : Instant) : Timer → Connection → Prop
  | lossDetection {c' : Connection} (h : c.onLossDetectionTimeout now = .ok c') : Fired c now .lossDetection c'
  | close : Fired c now .close { c with state := .drained }
  | maxAckDelay : Fired c now .maxAckDelay
      (c.modifySpace .data fun s => { s with pendingAcks := s.pendingAcks.onAckDelayTimeout })
  | other {timer : Timer} (h1 : timer ≠ .lossDetection) (h2 : timer ≠ .close) (h3 : timer ≠ .maxAckDelay) :
      Fired c now timer c

/-- **What the timers do.** None is due, or one fires. -/
theorem pollTimers_fired (h : c.pollTimers now = .ok c') :
    c' = c ∨ ∃ timer, Fired { c with timers := c.timers.stop timer } now timer c' := by
  unfold pollTimers at h
  split at h
  · cases h
    exact .inl rfl
  · rename_i timer timers hp
    obtain rfl := poll_eq_some hp
    refine .inr ⟨timer, ?_⟩
    unfold handleTimeout at h
    split at h
    · exact .lossDetection h
    · cases h
      exact .close
    · cases h
      exact .maxAckDelay
    · rename_i h1 h2 h3
      cases h
      exact .other h1 h2 h3

end Cases

end Connection

end MzQuic
