import MzQuic.Connection.Detection

/-!
# Repeated acknowledgements

* `Thinner`: packets may have left a space, and nothing else that `on_ack_received` asks of it has changed;
* `ackAll_gone`: after the loop of `on_ack_received` no acknowledged packet is left;
* `onAckReceived_idle`: a frame for packets that are gone changes nothing;
* **`acks_idempotent`**: a frame that was accepted is accepted again, and changes nothing.
-/

namespace MzQuic

open Lib

namespace Connection

/-- Packets may have left the space. The next number and the largest acknowledged one are the same. -/
structure Thinner (s s' : PacketSpace) : Prop where
  next : s'.nextPacketNumber = s.nextPacketNumber
  largest : s'.largestAckedPacket = s.largestAckedPacket
  sent : ∀ p ∈ s'.sentPackets.entries, p ∈ s.sentPackets.entries

section Thinner

variable {s s' s'' : PacketSpace} {pn : ℕ}

theorem Thinner.refl (s : PacketSpace) : Thinner s s := ⟨rfl, rfl, fun _ => id⟩

theorem Thinner.trans (h : Thinner s s') (h' : Thinner s' s'') : Thinner s s'' where
  next := h'.next.trans h.next
  largest := h'.largest.trans h.largest
  sent p hp := h.sent p (h'.sent p hp)

/-- What is gone stays gone. -/
theorem Thinner.gone (h : Thinner s s') (hpn : s.sentPackets.find? pn = none) : s'.sentPackets.find? pn = none :=
  OrdMap.find?_eq_none.mpr fun p hp => OrdMap.find?_eq_none.mp hpn p (h.sent p hp)

end Thinner

section Loop

variable {id : SpaceId} {l l' : AckLoop} {pn : ℕ} {pns : List ℕ}

/-- The space after one number. -/
theorem ackOne_thinner (h : ackOne id l pn = .ok l') : Thinner (l.c.spaces id) (l'.c.spaces id) ∧
    (l'.c.spaces id).sentPackets.find? pn = none := by
  obtain ⟨hnone, rfl⟩ | ⟨packet, s, removed, path, -, -, -, -, -, hc⟩ := ackOne_cases h
  · exact ⟨.refl _, hnone⟩
  · rw [hc]
    simp only [modifySpace, Function.update_self, ackedBy_sentPackets]
    have hlargest : ∀ s : PacketSpace, (s.ackedBy packet).largestAckedPacket = s.largestAckedPacket := fun s => by
      unfold PacketSpace.ackedBy
      split <;> rfl
    refine ⟨⟨by simp [PacketSpace.taken], hlargest _, fun p hp => ?_⟩,
      OrdMap.find?_eq_none.mpr fun p hp => (OrdMap.mem_erase.mp hp).2⟩
    rw [ackedBy_sentPackets] at hp
    exact (OrdMap.mem_erase.mp hp).1

/-- **After the loop no acknowledged packet is left.** -/
theorem ackAll_gone (h : run (ackOne id) l pns = .ok l') : Thinner (l.c.spaces id) (l'.c.spaces id) ∧
    ∀ pn ∈ pns, (l'.c.spaces id).sentPackets.find? pn = none := by
  induction pns generalizing l with
  | nil =>
      cases h
      exact ⟨.refl _, fun _ hpn => absurd hpn List.not_mem_nil⟩
  | cons pn pns ih =>
      obtain ⟨l₁, h1, h2⟩ := Checked.bind_eq_ok.mp h
      obtain ⟨hone, hgone⟩ := ackOne_thinner h1
      obtain ⟨hrest, hall⟩ := ih h2
      exact ⟨hone.trans hrest, List.forall_mem_cons.mpr ⟨hrest.gone hgone, hall⟩⟩

theorem ackOne_idle (h : (l.c.spaces id).sentPackets.find? pn = none) : ackOne id l pn = .ok l := by
  unfold ackOne PacketSpace.take
  rw [h]
  rfl

/-- The loop does nothing if the packets are gone. -/
theorem ackAll_idle (h : ∀ pn ∈ pns, (l.c.spaces id).sentPackets.find? pn = none) :
    run (ackOne id) l pns = .ok l := by
  induction pns with
  | nil => rfl
  | cons pn pns ih =>
      obtain ⟨hpn, hpns⟩ := List.forall_mem_cons.mp h
      rw [run_cons, ackOne_idle hpn]
      exact ih hpns

end Loop

section Repeated

variable {c c' : Connection} {now : Instant} {id : SpaceId} {ack : Ack} {ranges : List (ℕ × ℕ)}

theorem Shed.thinner {s s' : PacketSpace} {lost : List (ℕ × SentPacket)} (h : Shed s s' lost) : Thinner s s' where
  next := h.next
  largest := h.largest
  sent p hp := ((h.sent p).mp hp).1

/-- **A frame for packets that are gone changes nothing.** -/
theorem onAckReceived_idle (hacc : c.acceptsAck id ack = true) (hranges : ack.iter = .ok ranges)
    (hgone : ∀ pn ∈ ranges.flatMap rangeInclusive, (c.spaces id).sentPackets.find? pn = none) :
    c.onAckReceived now id ack = .ok (.ok (), c) := by
  obtain ⟨hlt, hprev⟩ := acceptsAck_iff.mp hacc
  have hany : (c.spaces id).largestAckedPacket.any (ack.largest < ·) = false := by
    cases hp : (c.spaces id).largestAckedPacket with
    | none => rfl
    | some prev => exact decide_eq_false (Nat.not_lt.mpr (hprev prev hp))
  unfold onAckReceived
  rw [if_neg (Nat.not_le.mpr hlt), hany, if_neg Bool.false_ne_true, hranges, Checked.ok_bind,
    ackAll_idle (l := { c := c }) hgone]
  rfl

/-- What follows the loop notes the frame and may lose packets. -/
theorem ackNews_thinner {l : AckLoop} (h : ackNews now id ack l = .ok c') :
    Thinner (noteLargest (l.c.spaces id) now ack) (c'.spaces id) := by
  obtain ⟨c₁, -, hspace, e⟩ := ackNews_eq now id ack l
  rw [e] at h
  obtain ⟨c₂, h1, h⟩ := Checked.bind_eq_ok.mp h
  cases h
  obtain ⟨t, ht⟩ := setLossDetectionTimer_eq c₂
  rw [ht]
  have hshed := detectLostPackets_shed h1
  rw [hspace] at hshed
  exact ⟨hshed.next, hshed.largest, hshed.thinner.sent⟩

end Repeated

end Connection

open Connection

/-- **ACK processing is idempotent.** In every state, a frame that `on_ack_received` has accepted is accepted
a second time, and changes nothing. -/
theorem acks_idempotent (c c' : Connection) (now : Instant) (id : SpaceId) (ack : Ack)
    (h : c.onAckReceived now id ack = .ok (.ok (), c')) : c'.onAckReceived now id ack = .ok (.ok (), c') := by
  rcases onAckReceived_cases h with ⟨-, ⟨e, he⟩, -⟩ | ⟨hacc, -, ranges, l, hranges, hl, hnews⟩
  · cases he
  obtain ⟨hloop, hgone⟩ := ackAll_gone hl
  obtain ⟨hlt, hprev⟩ := acceptsAck_iff.mp hacc
  rcases hnews with rfl | hnews
  · -- nothing was noted after the loop
    refine onAckReceived_idle (acceptsAck_iff.mpr ⟨?_, ?_⟩) hranges hgone
    · rwa [hloop.next]
    · rwa [hloop.largest]
  · have hnoted := ackNews_thinner hnews
    refine onAckReceived_idle (acceptsAck_iff.mpr ⟨?_, ?_⟩) hranges fun pn hpn => hnoted.gone (hgone pn hpn)
    · rw [hnoted.next]
      exact hloop.next ▸ hlt
    · -- the frame's own largest number is now the largest acknowledged one
      rw [hnoted.largest]
      unfold noteLargest
      rw [hloop.largest]
      cases hp : (c.spaces id).largestAckedPacket with
      | none => simp
      | some prev => simp [hprev prev hp]

/-- Two packets with stream data are in flight. The second is acknowledged late, and the first is lost. -/
theorem acks_idempotent_lost : ∃ ops c c' ack, run connectionStep (Connection.new 0 .client) ops = .ok c ∧
    (c.spaces .data).sentPackets.entries.map Prod.fst = [0, 1] ∧
    (c'.spaces .data).sentPackets.entries.map Prod.fst = [] ∧
    c.onAckReceived 5000000000 .data ack = .ok (.ok (), c') ∧
    c'.onAckReceived 5000000000 .data ack = .ok (.ok (), c') := by
  let ops : List ConnectionOp := [.openStream .bi, .write ⟨0⟩ [1], .pollTransmit 1, .sendOne 1, .sendOne 1,
    .write ⟨0⟩ [2], .pollTransmit 4000000000, .sendOne 4000000000]
  let ack : Ack := ⟨1, 0, [0], none⟩
  obtain ⟨c, hc, hv⟩ := Checked.map_eq_ok.mp (show (fun c : Connection => (
      (c.spaces .data).sentPackets.entries.map Prod.fst,
      (fun r : Except TransportError Unit × Connection =>
        (r.1, (r.2.spaces .data).sentPackets.entries.map Prod.fst)) <$> c.onAckReceived 5000000000 .data ack)) <$>
    run connectionStep (Connection.new 0 .client) ops = .ok ([0, 1], .ok (.ok (), [])) by decide +kernel)
  obtain ⟨hsent, hv⟩ := Prod.mk.inj hv
  obtain ⟨⟨r, c'⟩, h, hr⟩ := Checked.map_eq_ok.mp hv
  obtain ⟨rfl, hgone⟩ := Prod.mk.inj hr
  exact ⟨ops, c, c', ack, hc, hsent, hgone, h, acks_idempotent c c' 5000000000 .data ack h⟩

end MzQuic
