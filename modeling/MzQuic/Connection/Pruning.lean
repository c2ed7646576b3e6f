import MzQuic.Connection.Moves

/-!
# When received packet numbers stop being acknowledged

An acknowledged packet may have carried an ACK frame itself; the peer has seen that frame, and
`on_ack_received` takes the numbers it covers out of the pending ranges.

* `PacketSpace.newlyAcked`, `largestCarried`: the packets that a frame acknowledges, and the largest
  number that these carried an acknowledgement of;
* `ackLoop_ranges`: what the loop leaves of the pending ranges;
* **`acks_pruned`**: numbers at or below `L` are gone and those above are kept if and only if `L + 1`
  was not pending: `subtract_below` removes its argument too, and is called with `L + 1`.
-/

namespace MzQuic

open Lib

/-- The packets in flight that the ranges of an ACK frame acknowledge. -/
def PacketSpace.newlyAcked (s : PacketSpace) (ranges : List (ℕ × ℕ)) : List SentPacket :=
  (s.sentPackets.entries.filter fun p => ranges.any fun r => r.1 ≤ p.1 ∧ p.1 ≤ r.2).map Prod.snd

/-- The largest number that one of the packets acknowledges. -/
def largestCarried (packets : List SentPacket) : Option ℕ :=
  (packets.filterMap SentPacket.largestAcked).max?

/-- Of the pending numbers, those that the peer knows to be acknowledged are gone and no others. -/
def PrunedTo (before after : ArrayRangeSet) : Option ℕ → Prop
  | some largest => (∀ n ∈ before, largest < n → n ∈ after) ∧ ∀ n ≤ largest, n ∉ after
  | none => after = before

/-- The numbers that are left when a packet is acknowledged. -/
theorem PacketSpace.mem_ackedBy {s : PacketSpace} {packet : SentPacket} {n : ℕ} :
    n ∈ (s.ackedBy packet).pendingAcks.ranges ↔
      n ∈ s.pendingAcks.ranges ∧ ∀ m ∈ packet.largestAcked, m + 1 < n := by
  unfold PacketSpace.ackedBy
  cases packet.largestAcked with
  | none => simp
  | some m =>
      dsimp only [PendingAcks.subtractBelow]
      rw [ArrayRangeSet.mem_remove, Range.mem_iff]
      simp only [Option.mem_def, Option.some.injEq, forall_eq']
      exact and_congr_right fun _ => by omega

namespace Connection

variable {c c' : Connection} {id : SpaceId}

theorem loseOne_ackRanges {now : Instant} {p : ℕ × SentPacket} (h : loseOne now id c p = .ok c') :
    c'.ackRanges = c.ackRanges := by
  obtain ⟨s, removed, path, n, -, -, -, rfl⟩ := loseOne_cases h
  refine (ackRanges_changed c id _ _ s).trans ?_
  dsimp only
  rw [requeue_pendingAcks]
  exact Function.update_eq_self id c.ackRanges

theorem detectLostPackets_ackRanges {now : Instant} (h : c.detectLostPackets now id = .ok c') :
    c'.ackRanges = c.ackRanges :=
  detectLostPackets_inv (I := fun x => x.ackRanges = c.ackRanges)
    (fun _ => (quiet_modifySpace c id _ rfl rfl rfl rfl).2) (fun _ _ _ hx _ hs => (loseOne_ackRanges hs).trans hx)
    (fun x hx => (quiet_setLossDetectionTimer x).2.trans hx) h

/-- What the packets with the given numbers leave of the pending ranges. -/
theorem ackLoop_ranges {l l' : AckLoop} {pns : List ℕ} (h : run (ackOne id) l pns = .ok l') (n : ℕ) :
    n ∈ l'.c.ackRanges id ↔ n ∈ l.c.ackRanges id ∧ ∀ p ∈ (l.c.spaces id).sentPackets.entries,
      p.1 ∈ pns → ∀ m ∈ p.2.largestAcked, m + 1 < n := by
  induction pns generalizing l with
  | nil =>
      cases h
      simp
  | cons pn pns ih =>
      obtain ⟨l₁, h1, h⟩ := Checked.bind_eq_ok.mp h
      rw [ih h]
      rcases ackOne_ok h1 with ⟨rfl, hnone⟩ | ⟨packet, s, hr, -, ha⟩
      · -- no packet in flight has that number
        refine and_congr_right fun _ => forall₂_congr fun p hp => ?_
        have hne : p.1 ≠ pn := by
          rintro rfl
          rw [OrdMap.find?_eq_some.mpr hp] at hnone
          cases hnone
        rw [List.mem_cons, or_iff_right hne]
      · have hfound := OrdMap.find?_eq_some.mp hr.found
        rw [ha, Function.update_self, PacketSpace.mem_ackedBy, hr.sentPackets]
        constructor
        · rintro ⟨⟨hn, hm⟩, hall⟩
          refine ⟨hn, fun p hp hpn => ?_⟩
          by_cases hpp : p.1 = pn
          · have := OrdMap.eq_of_key hp hfound hpp
            rw [this]
            exact hm
          · exact hall p (OrdMap.mem_erase.mpr ⟨hp, hpp⟩) ((List.mem_cons.mp hpn).resolve_left hpp)
        · rintro ⟨hn, hall⟩
          refine ⟨⟨hn, hall _ hfound List.mem_cons_self⟩, fun p hp hpn => ?_⟩
          exact hall p (OrdMap.mem_erase.mp hp).1 (List.mem_cons_of_mem pn hpn)

/-- Packets that carried no ACK leave the pending ranges alone. -/
theorem ackLoop_same {l l' : AckLoop} {pns : List ℕ} (h : run (ackOne id) l pns = .ok l')
    (hnone : ∀ p ∈ (l.c.spaces id).sentPackets.entries, p.1 ∈ pns → p.2.largestAcked = none) :
    l'.c.ackRanges id = l.c.ackRanges id := by
  induction pns generalizing l with
  | nil =>
      cases h
      rfl
  | cons pn pns ih =>
      obtain ⟨l₁, h1, h2⟩ := Checked.bind_eq_ok.mp h
      rcases ackOne_ok h1 with ⟨rfl, -⟩ | ⟨packet, s, hr, -, ha⟩
      · exact ih h2 fun p hp hpn => hnone p hp (List.mem_cons_of_mem pn hpn)
      · have hcarried := hnone _ (OrdMap.find?_eq_some.mp hr.found) List.mem_cons_self
        rw [ih h2 fun p hp hpn => ?_, ha, Function.update_self]
        · unfold PacketSpace.ackedBy
          rw [hcarried]
          rfl
        · rw [hr.sentPackets] at hp
          exact hnone p (OrdMap.mem_erase.mp hp).1 (List.mem_cons_of_mem pn hpn)

theorem mem_flatMap_rangeInclusive {ranges : List (ℕ × ℕ)} {pn : ℕ} :
    pn ∈ ranges.flatMap rangeInclusive ↔ ∃ r ∈ ranges, r.1 ≤ pn ∧ pn ≤ r.2 := by
  rw [List.mem_flatMap]
  refine exists_congr fun r => and_congr_right fun _ => ?_
  rw [rangeInclusive, List.mem_range'_1]
  omega

/-- The loop of an accepted frame is all that touches the pending ranges. -/
theorem onAckReceived_loop {now : Instant} {ack : Ack}
    (h : c.onAckReceived now id ack = .ok (.ok (), c')) : ∃ ranges l, ack.iter = .ok ranges ∧
      run (ackOne id) { c := c } (ranges.flatMap rangeInclusive) = .ok l ∧
      c'.ackRanges = l.c.ackRanges := by
  rcases onAckReceived_cases h with ⟨-, ⟨e, he⟩, -⟩ | ⟨-, -, ranges, l, hi, hl, hnews⟩
  · cases he
  · refine ⟨ranges, l, hi, hl, ?_⟩
    rcases hnews with rfl | h1
    · rfl
    · exact ackNews_inv (I := fun x => x.ackRanges = l.c.ackRanges)
        (fun _ => (quiet_modifySpace l.c id (noteLargest · now ack) rfl rfl rfl rfl).2)
        (fun _ _ hx hs => (detectLostPackets_ackRanges hs).trans hx)
        (fun x hx => (quiet_setLossDetectionTimer x).2.trans hx) h1

end Connection

/-- Membership of the largest number that is carried. -/
theorem largestCarried_eq_some {packets : List SentPacket} {largest : ℕ} :
    largestCarried packets = some largest ↔
      (∃ p ∈ packets, p.largestAcked = some largest) ∧
        ∀ p ∈ packets, ∀ m ∈ p.largestAcked, m ≤ largest := by
  unfold largestCarried
  rw [List.max?_eq_some_iff]
  simp only [List.mem_filterMap, Option.mem_def]
  refine and_congr_right fun _ => ⟨fun h p hp m hm => h m ⟨p, hp, hm⟩, fun h m ⟨p, hp, hm⟩ => h p hp m hm⟩

theorem PacketSpace.mem_newlyAcked {s : PacketSpace} {ranges : List (ℕ × ℕ)} {packet : SentPacket} :
    packet ∈ s.newlyAcked ranges ↔ ∃ pn, (pn, packet) ∈ s.sentPackets.entries ∧
      pn ∈ ranges.flatMap Connection.rangeInclusive := by
  unfold PacketSpace.newlyAcked
  simp only [Connection.mem_flatMap_rangeInclusive]
  simp

/-- **Which received numbers stop being acknowledged.** After a call of `on_ack_received` that returns
`Ok`, exactly the numbers up to `L`, the largest that a newly acknowledged packet carried an
acknowledgement of, are gone from the pending ranges if and only if `L + 1` was not among them. -/
theorem acks_pruned (c c' : Connection) (now : Instant) (id : SpaceId) (ack : Ack) (ranges : List (ℕ × ℕ))
    (h : c.onAckReceived now id ack = .ok (.ok (), c')) (hiter : ack.iter = .ok ranges) :
    PrunedTo (c.ackRanges id) (c'.ackRanges id) (largestCarried ((c.spaces id).newlyAcked ranges)) ↔
      ∀ largest ∈ largestCarried ((c.spaces id).newlyAcked ranges), largest + 1 ∉ c.ackRanges id := by
  obtain ⟨ranges', l, hi, hl, ha⟩ := Connection.onAckReceived_loop h
  rw [hiter] at hi
  cases hi
  rw [ha]
  -- the packets that the loop acknowledges are the newly acknowledged ones
  have hnew : ∀ p ∈ (c.spaces id).sentPackets.entries, p.1 ∈ ranges.flatMap Connection.rangeInclusive →
      p.2 ∈ (c.spaces id).newlyAcked ranges := fun p hp hpn =>
    PacketSpace.mem_newlyAcked.mpr ⟨p.1, hp, hpn⟩
  cases hL : largestCarried ((c.spaces id).newlyAcked ranges) with
  | none =>
      refine iff_of_true ?_ fun largest hm => by cases hm
      refine Connection.ackLoop_same hl fun p hp hpn => ?_
      have := List.max?_eq_none_iff.mp hL
      rw [List.filterMap_eq_nil_iff] at this
      exact this _ (hnew p hp hpn)
  | some largest =>
      obtain ⟨⟨packet, hp, hcarried⟩, hmax⟩ := largestCarried_eq_some.mp hL
      obtain ⟨pn, hentry, hpn⟩ := PacketSpace.mem_newlyAcked.mp hp
      have hmem : ∀ n, n ∈ l.c.ackRanges id ↔ n ∈ c.ackRanges id ∧ largest + 1 < n := by
        intro n
        rw [Connection.ackLoop_ranges hl n]
        refine and_congr_right fun _ => ⟨fun hall => ?_, fun hn p hp hpn m hm => ?_⟩
        · exact hall (pn, packet) hentry hpn largest hcarried
        · have := hmax p.2 (hnew p hp hpn) m hm
          omega
      constructor
      · rintro ⟨hkept, -⟩ L hL' hin
        cases hL'
        have := ((hmem _).mp (hkept _ hin (Nat.lt_succ_self _))).2
        omega
      · intro hnot
        refine ⟨fun n hn hlt => (hmem n).mpr ⟨hn, ?_⟩, fun n hle hn => ?_⟩
        · have : n ≠ largest + 1 := by
            rintro rfl
            exact hnot largest rfl hn
          omega
        · have := ((hmem n).mp hn).2
          omega

/-- Packet 0 of the peer is acknowledged by packet 0, whose acknowledgement takes it off the list. -/
theorem acks_pruned_one : ∃ ops c c', run connectionStep (Connection.new 0 .client) ops = .ok c ∧
    c.onAckReceived 4 .initial ⟨0, 0, [0], none⟩ = .ok (.ok (), c') ∧
    PrunedTo (c.ackRanges .initial) (c'.ackRanges .initial)
      (largestCarried ((c.spaces .initial).newlyAcked [(0, 0)])) := by
  let ops : List ConnectionOp := [.handleData 1 (initialDatagram 0 [1]), .pollTransmit 2, .sendOne 2]
  obtain ⟨c, hc, hv⟩ := Checked.map_eq_ok.mp (show (fun c : Connection =>
      (Prod.fst <$> c.onAckReceived 4 .initial ⟨0, 0, [0], none⟩, (c.ackRanges .initial).ranges,
        largestCarried ((c.spaces .initial).newlyAcked [(0, 0)]))) <$>
        run connectionStep (Connection.new 0 .client) ops =
      .ok (.ok (.ok ()), [⟨0, 1⟩], some 0) by decide +kernel)
  obtain ⟨hr, hv⟩ := Prod.mk.inj hv
  obtain ⟨ha, hL⟩ := Prod.mk.inj hv
  obtain ⟨⟨r, c'⟩, hr, rfl⟩ := Checked.map_eq_ok.mp hr
  refine ⟨ops, c, c', hc, hr, (acks_pruned c c' 4 .initial _ [(0, 0)] hr rfl).mpr ?_⟩
  rw [hL]
  rintro largest ⟨⟩ ⟨r, hr, h⟩
  rw [ha, List.mem_singleton] at hr
  rw [hr] at h
  exact absurd h (by decide)

/-- Packet 1 of the peer arrives in between: the acknowledgement takes it off the list as well, though
the peer has never seen it acknowledged. -/
theorem ack_forgotten : ∃ ops c c', run connectionStep (Connection.new 0 .client) ops = .ok c ∧
    c.onAckReceived 4 .initial ⟨0, 0, [0], none⟩ = .ok (.ok (), c') ∧
    ¬ PrunedTo (c.ackRanges .initial) (c'.ackRanges .initial)
      (largestCarried ((c.spaces .initial).newlyAcked [(0, 0)])) := by
  let ops : List ConnectionOp := [.handleData 1 (initialDatagram 0 [1]), .pollTransmit 2, .sendOne 2,
    .handleData 3 (initialDatagram 1 [1])]
  obtain ⟨c, hc, hv⟩ := Checked.map_eq_ok.mp (show (fun c : Connection =>
      ((fun r => (r.1, (r.2.ackRanges .initial).ranges)) <$>
          c.onAckReceived 4 .initial ⟨0, 0, [0], none⟩,
        (c.ackRanges .initial).ranges, largestCarried ((c.spaces .initial).newlyAcked [(0, 0)]))) <$>
        run connectionStep (Connection.new 0 .client) ops =
      .ok (.ok (.ok (), []), [⟨0, 2⟩], some 0) by decide +kernel)
  obtain ⟨hr, hv⟩ := Prod.mk.inj hv
  obtain ⟨ha, hL⟩ := Prod.mk.inj hv
  obtain ⟨⟨r, c'⟩, hr, hv⟩ := Checked.map_eq_ok.mp hr
  obtain ⟨rfl, ha'⟩ := Prod.mk.inj hv
  refine ⟨ops, c, c', hc, hr, ?_⟩
  rw [hL]
  rintro ⟨hkept, -⟩
  have hpending : 1 ∈ c.ackRanges .initial := ⟨⟨0, 2⟩, by rw [ha]; exact List.mem_singleton_self _, by decide⟩
  obtain ⟨r, hr, -⟩ := hkept 1 hpending (by decide)
  rw [show (c'.ackRanges .initial).ranges = [] from ha'] at hr
  cases hr

end MzQuic
