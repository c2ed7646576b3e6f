import MzQuic.Connection.Loss
import MzQuic.Connection.Output

/-!
# The detection of losses is exact

* `Retransmits.Within`: what is to be sent again, in part of what is to be sent again;
* `StreamsState.Requeued`: the bytes of a frame are to be sent again, if its stream is live;
* `Shed`: what a space is after packets were lost, with `loseAll_shed` for the whole loop;
* **`nextLossTime_eq_some`**: the loss time is the least over the packets that are left;
* **`losses_exact`**: in every reachable state `detect_lost_packets` loses the overdue packets and no others
  exactly if their streams cover their frames.
-/

namespace MzQuic

open Lib

namespace Retransmits

/-- Everything that is to be sent again in `r` is to be sent again in `r'`. -/
structure Within (r r' : Retransmits) : Prop where
  hello : r.hello = true → r'.hello = true
  resetStream : r.resetStream.Sublist r'.resetStream
  stopSending : r.stopSending.Sublist r'.stopSending
  ackFrequency : r.ackFrequency = true → r'.ackFrequency = true
  handshakeDone : r.handshakeDone = true → r'.handshakeDone = true

variable {r r' r'' : Retransmits}

theorem Within.refl (r : Retransmits) : r.Within r := ⟨id, .refl _, .refl _, id, id⟩

theorem Within.trans (h : r.Within r') (h' : r'.Within r'') : r.Within r'' where
  hello hr := h'.hello (h.hello hr)
  resetStream := h.resetStream.trans h'.resetStream
  stopSending := h.stopSending.trans h'.stopSending
  ackFrequency hr := h'.ackFrequency (h.ackFrequency hr)
  handshakeDone hr := h'.handshakeDone (h.handshakeDone hr)

theorem within_bitorAssign_left (r r' : Retransmits) : r.Within (r.bitorAssign r') where
  hello h := Bool.or_eq_true_iff.mpr (.inl h)
  resetStream := List.sublist_append_left ..
  stopSending := List.sublist_append_left ..
  ackFrequency h := Bool.or_eq_true_iff.mpr (.inl h)
  handshakeDone h := Bool.or_eq_true_iff.mpr (.inl h)

theorem within_bitorAssign_right (r r' : Retransmits) : r'.Within (r.bitorAssign r') where
  hello h := Bool.or_eq_true_iff.mpr (.inr h)
  resetStream := List.sublist_append_right ..
  stopSending := List.sublist_append_right ..
  ackFrequency h := Bool.or_eq_true_iff.mpr (.inr h)
  handshakeDone h := Bool.or_eq_true_iff.mpr (.inr h)

end Retransmits

namespace StreamsState

/-- If the stream of the frame is there and not reset, then the bytes of the frame are to be sent again. -/
def Requeued (s : StreamsState) (m : StreamMeta) : Prop :=
  ∀ stream, s.send m.id = some stream → stream.isReset = false →
    ∀ x ∈ m.offsets, x ∈ stream.pending.retransmits

instance (s : StreamsState) (m : StreamMeta) : Decidable (s.Covers m) :=
  decidable_of_iff ((s.send m.id).all (fun stream =>
      stream.isReset || decide (m.offsets.end ≤ stream.pending.unsent)) = true) <| by
    unfold Covers
    cases s.send m.id with
    | none => simp
    | some stream =>
        cases hr : stream.isReset with
        | true => simp [hr]
        | false => simp [hr]

section Requeued

variable {s s' : StreamsState} {m m' : StreamMeta}

theorem retransmit_requeued (h : s.retransmit m = .ok s') : s'.Requeued m := by
  intro stream' hstream' hr' x hx
  rcases retransmit_again h with ⟨rfl, hall⟩ | ⟨stream, -, -, -, rfl⟩
  · rw [hall stream' hstream'] at hr'
    cases hr'
  · rw [wake_send, Function.update_self] at hstream'
    cases hstream'
    exact RangeSet.mem_insert.mpr (.inr hx)

/-- Another retransmission takes nothing back. -/
theorem Requeued.retransmit (hm : s.Requeued m) (h : s.retransmit m' = .ok s') : s'.Requeued m := by
  rcases retransmit_again h with ⟨rfl, -⟩ | ⟨stream, hs, hr, -, rfl⟩
  · exact hm
  intro stream' hstream' hr' x hx
  rw [wake_send] at hstream'
  by_cases hid : m.id = m'.id
  · rw [hid, Function.update_self] at hstream'
    cases hstream'
    exact RangeSet.mem_insert.mpr (.inl (hm stream (hid ▸ hs) hr x hx))
  · rw [Function.update_of_ne hid] at hstream'
    exact hm stream' hstream' hr' x hx

theorem retransmits_requeued {frames : List StreamMeta} (h : run StreamsState.retransmit s frames = .ok s')
    (hm : m ∈ frames) : s'.Requeued m := by
  induction frames generalizing s with
  | nil => cases hm
  | cons m' frames ih =>
      obtain ⟨s₁, h1, h2⟩ := Checked.bind_eq_ok.mp h
      rcases List.mem_cons.mp hm with rfl | hm
      · exact run_inv (I := fun s => s.Requeued m) (fun _ _ _ hx _ hs => hx.retransmit hs)
          (retransmit_requeued h1) (Meets.trivial _ _ _) h2
      · exact ih h2 hm

end Requeued

end StreamsState

namespace Connection

/-! ## The space of lost packets -/

/-- The packets were lost: they have left the space, and their control data is pending. -/
structure Shed (s s' : PacketSpace) (lost : List (ℕ × SentPacket)) : Prop where
  sent : ∀ q, q ∈ s'.sentPackets.entries ↔ q ∈ s.sentPackets.entries ∧ ∀ p ∈ lost, q.1 ≠ p.1
  lossTime : s'.lossTime = s.lossTime
  largest : s'.largestAckedPacket = s.largestAckedPacket
  next : s'.nextPacketNumber = s.nextPacketNumber
  pending : s.pending.Within s'.pending
  control : ∀ p ∈ lost, ∀ r, p.2.retransmits = some r → r.Within s'.pending

section Shed

variable {c c' : Connection} {now : Instant} {id : SpaceId}

theorem loseOne_shed {p : ℕ × SentPacket} (h : loseOne now id c p = .ok c') :
    Shed (c.spaces id) (c'.spaces id) [p] := by
  obtain ⟨n, e⟩ := loseOne_space h
  rw [e]
  unfold PacketSpace.requeue
  cases hr : p.2.retransmits with
  | none =>
      refine ⟨by simp [OrdMap.mem_erase], rfl, rfl, rfl, .refl _, ?_⟩
      simp [hr]
  | some r =>
      refine ⟨by simp [OrdMap.mem_erase], rfl, rfl, rfl, Retransmits.within_bitorAssign_left .., ?_⟩
      simp only [List.mem_singleton, forall_eq, hr, Option.some.injEq, forall_eq']
      exact Retransmits.within_bitorAssign_right ..

theorem loseAll_shed {lost : List (ℕ × SentPacket)} (h : run (loseOne now id) c lost = .ok c') :
    Shed (c.spaces id) (c'.spaces id) lost := by
  induction lost generalizing c with
  | nil =>
      cases h
      exact ⟨by simp, rfl, rfl, rfl, .refl _, by simp⟩
  | cons p lost ih =>
      obtain ⟨c₁, h1, h⟩ := Checked.bind_eq_ok.mp h
      have hone := loseOne_shed h1
      have hrest := ih h
      refine ⟨fun q => ?_, hrest.lossTime.trans hone.lossTime, hrest.largest.trans hone.largest,
        hrest.next.trans hone.next, hone.pending.trans hrest.pending, fun q hq r hr => ?_⟩
      · rw [hrest.sent, hone.sent, List.forall_mem_singleton, List.forall_mem_cons, and_assoc]
      · rcases List.mem_cons.mp hq with rfl | hq
        · exact (hone.control q List.mem_cons_self r hr).trans hrest.pending
        · exact hrest.control q hq r hr

/-- **What `detect_lost_packets` does to its space**: the loss time is set, and the overdue packets are lost. -/
theorem detectLostPackets_shed (h : c.detectLostPackets now id = .ok c') :
    Shed { c.spaces id with lossTime := c.nextLossTime now id } (c'.spaces id) (c.lostPackets now id) := by
  rw [detectLostPackets_eq] at h
  split_ifs at h with he
  · cases h
    rw [List.isEmpty_iff.mp he]
    simp only [modifySpace, Function.update_self]
    exact ⟨by simp, rfl, rfl, rfl, .refl _, by simp⟩
  · obtain ⟨c₁, h1, rfl⟩ := Checked.map_eq_ok.mp h
    obtain ⟨t, ht⟩ := setLossDetectionTimer_eq c₁
    have hs := loseAll_shed h1
    simp only [modifySpace, Function.update_self] at hs
    rw [ht]
    exact hs

/-- The packets that are left are those that are not overdue. -/
theorem detectLostPackets_sent (h : c.detectLostPackets now id = .ok c') (q : ℕ × SentPacket) :
    q ∈ (c'.spaces id).sentPackets.entries ↔ q ∈ (c.spaces id).sentPackets.entries ∧ ¬ c.Overdue now id q := by
  rw [(detectLostPackets_shed h).sent]
  refine and_congr_right fun hq => ⟨fun hall ho => hall q (mem_lostPackets.mpr ho) rfl, fun hno p hp e => hno ?_⟩
  have ho := mem_lostPackets.mp hp
  rwa [OrdMap.eq_of_key hq ho.sent e]

end Shed

/-! ## The loss time -/

/-- When the packets of a space at or below a number will count as lost. -/
def deadlines (s : PacketSpace) (largestAcked : ℕ) (delay : Duration) : Set Instant :=
  {t | ∃ p ∈ s.sentPackets.entries, p.1 ≤ largestAcked ∧ t = p.2.timeSent + delay}

section LossTime

variable {c c' : Connection} {now : Instant} {id : SpaceId} {largestAcked : ℕ}

/-- **The loss time is the least deadline** of the packets that are not collected. -/
theorem nextLossTime_eq (now : Instant) (hn : (c.spaces id).largestAckedPacket = some largestAcked) :
    ∃ times : List Instant, c.nextLossTime now id = times.min? ∧ ∀ t, t ∈ times ↔
      ∃ p ∈ (c.spaces id).sentPackets.entries, (p.1 ≤ largestAcked ∧ ¬ c.Overdue now id p) ∧
        t = p.2.timeSent + c.lossDelay := by
  unfold nextLossTime
  rw [hn]
  refine ⟨_, rfl, fun t => ?_⟩
  simp only [List.mem_map, List.mem_filter, mem_takeWhile_le (c.spaces id).sentPackets.sorted, decide_eq_true_eq]
  refine exists_congr fun p => ⟨?_, ?_⟩
  · rintro ⟨⟨⟨hp, hle⟩, hlt⟩, rfl⟩
    exact ⟨hp, ⟨hle, fun ho => absurd ho.old (Nat.not_le.mpr hlt)⟩, rfl⟩
  · rintro ⟨hp, ⟨hle, hno⟩, rfl⟩
    exact ⟨⟨⟨hp, hle⟩, Nat.lt_of_not_le fun hold => hno ⟨hp, ⟨_, hn, hle⟩, hold⟩⟩, rfl⟩

theorem detectLostPackets_lossTime (hn : (c.spaces id).largestAckedPacket = some largestAcked)
    (h : c.detectLostPackets now id = .ok c') : ∃ times : List Instant,
      (c'.spaces id).lossTime = times.min? ∧
        ∀ t, t ∈ times ↔ t ∈ deadlines (c'.spaces id) largestAcked c.lossDelay := by
  obtain ⟨times, e, hmem⟩ := nextLossTime_eq now hn
  refine ⟨times, (detectLostPackets_shed h).lossTime.trans e, fun t => ?_⟩
  rw [hmem]
  refine exists_congr fun p => ?_
  rw [detectLostPackets_sent h]
  tauto

end LossTime

/-! ## Exactness -/

/-- The packets sent no later than `before`, at or below the largest acknowledged one, were lost, and no others;
the loss time is the least deadline of those that are left. -/
structure Detects (c c' : Connection) (id : SpaceId) (largestAcked : ℕ) (now before : Instant) : Prop where
  sent : ∀ p, p ∈ (c'.spaces id).sentPackets.entries ↔
    p ∈ (c.spaces id).sentPackets.entries ∧ ¬ (p.1 ≤ largestAcked ∧ p.2.timeSent ≤ before)
  others : ∀ i, i ≠ id → c'.spaces i = c.spaces i
  none : (c'.spaces id).lossTime = none ↔ ∀ p ∈ (c'.spaces id).sentPackets.entries, largestAcked < p.1
  least : ∀ t, (c'.spaces id).lossTime = some t ↔ IsLeast (deadlines (c'.spaces id) largestAcked c.lossDelay) t
  later : ∀ t, (c'.spaces id).lossTime = some t → now < t
  streams : ∀ p ∈ (c.spaces id).sentPackets.entries, p.1 ≤ largestAcked → p.2.timeSent ≤ before →
    ∀ m ∈ p.2.streamFrames, c'.streams.Requeued m
  control : ∀ p ∈ (c.spaces id).sentPackets.entries, p.1 ≤ largestAcked → p.2.timeSent ≤ before →
    ∀ r, p.2.retransmits = some r → r.Within (c'.spaces id).pending

section Exact

variable {c c' : Connection} {now before : Instant} {id : SpaceId} {largestAcked : ℕ}

theorem overdue_iff (hn : (c.spaces id).largestAckedPacket = some largestAcked)
    (hb : Instant.checkedSub now c.lossDelay = some before) (p : ℕ × SentPacket) : c.Overdue now id p ↔
      p ∈ (c.spaces id).sentPackets.entries ∧ p.1 ≤ largestAcked ∧ p.2.timeSent ≤ before := by
  constructor
  · rintro ⟨hsent, ⟨n, hn', hle⟩, hold⟩
    rw [hn] at hn'
    cases hn'
    rw [hb] at hold
    exact ⟨hsent, hle, hold⟩
  · rintro ⟨hsent, hle, hold⟩
    exact ⟨hsent, ⟨_, hn, hle⟩, by rwa [hb]⟩

/-- A detection of losses that returns is exact. -/
theorem detectLostPackets_detects (hn : (c.spaces id).largestAckedPacket = some largestAcked)
    (hb : Instant.checkedSub now c.lossDelay = some before) (h : c.detectLostPackets now id = .ok c') :
    Detects c c' id largestAcked now before := by
  obtain ⟨times, htime, hmem⟩ := detectLostPackets_lossTime hn h
  have hq := detectLostPackets_requeues h
  have hsent : ∀ p, p ∈ (c'.spaces id).sentPackets.entries ↔ p ∈ (c.spaces id).sentPackets.entries ∧
      ¬ (p.1 ≤ largestAcked ∧ p.2.timeSent ≤ before) := fun p => by
    rw [detectLostPackets_sent h, overdue_iff hn hb]
    tauto
  have hleast : ∀ t, (c'.spaces id).lossTime = some t ↔
      IsLeast (deadlines (c'.spaces id) largestAcked c.lossDelay) t := fun t => by
    rw [htime, List.min?_eq_some_iff, hmem]
    exact and_congr_right fun _ => forall_congr' fun u => by rw [hmem]
  have hover : ∀ p ∈ (c.spaces id).sentPackets.entries, p.1 ≤ largestAcked → p.2.timeSent ≤ before →
      p ∈ c.lostPackets now id := fun p hp hle hold =>
    mem_lostPackets.mpr ((overdue_iff hn hb p).mpr ⟨hp, hle, hold⟩)
  refine ⟨hsent, hq.others, ?_, hleast, fun t ht => ?_, fun p hp hle hold m hm => ?_, fun p hp hle hold => ?_⟩
  · rw [htime, List.min?_eq_none_iff, List.eq_nil_iff_forall_not_mem]
    refine ⟨fun hno p hp => Nat.lt_of_not_le fun hle => hno _ ((hmem _).mpr ⟨p, hp, hle, rfl⟩), fun hall t ht => ?_⟩
    obtain ⟨p, hp, hle, -⟩ := (hmem t).mp ht
    exact absurd hle (Nat.not_le.mpr (hall p hp))
  · -- the packet with the least deadline was sent after `before`
    obtain ⟨p, hp, hle, rfl⟩ := ((hleast t).mp ht).1
    have hlt : ¬ p.2.timeSent ≤ before := fun hold => ((hsent p).mp hp).2 ⟨hle, hold⟩
    unfold Instant.checkedSub at hb
    split_ifs at hb
    cases hb
    exact lt_add_of_tsub_lt_right (Nat.not_le.mp hlt)
  · exact StreamsState.retransmits_requeued hq.streams
      (List.mem_flatMap.mpr ⟨p.2, List.mem_map_of_mem (hover p hp hle hold), hm⟩)
  · exact (detectLostPackets_shed h).control p (hover p hp hle hold)

/-- The detection of losses, in any state whose packets in flight are accounted. -/
theorem detects_iff (hc : Accounted c.core) (hn : (c.spaces id).largestAckedPacket = some largestAcked)
    (hb : Instant.checkedSub now c.lossDelay = some before) :
    (∃ c', c.detectLostPackets now id = .ok c' ∧ Detects c c' id largestAcked now before) ↔
      ∀ p ∈ (c.spaces id).sentPackets.entries, p.1 ≤ largestAcked → p.2.timeSent ≤ before →
        ∀ m ∈ p.2.streamFrames, c.streams.Covers m := by
  constructor
  · rintro ⟨c', h, -⟩ p hp hle hold m hm
    have hlost := mem_lostPackets.mpr ((overdue_iff hn hb p).mpr ⟨hp, hle, hold⟩)
    exact StreamsState.retransmits_returns.mp ⟨_, (detectLostPackets_requeues h).streams⟩ m
      (List.mem_flatMap.mpr ⟨p.2, List.mem_map_of_mem hlost, hm⟩)
  · intro hcov
    have hlost : ∀ p ∈ c.lostPackets now id, ∀ m ∈ p.2.streamFrames, c.streams.Covers m := by
      intro p hp
      obtain ⟨hsent, hle, hold⟩ := (overdue_iff hn hb p).mp (mem_lostPackets.mp hp)
      exact hcov p hsent hle hold
    obtain ⟨c', h⟩ := detectLostPackets_returns hc hlost
    exact ⟨c', h, detectLostPackets_detects hn hb h⟩

end Exact

end Connection

open Connection

/-- **The detection of losses is exact.** In every reachable state with an acknowledged packet,
`detect_lost_packets` returns and loses the overdue packets, and no others, exactly if what each of them carried
of a live stream lies within what the stream has sent. -/
theorem losses_exact (start : Instant) (side : Side) (ops : List ConnectionOp) (c : Connection)
    (h : run connectionStep (Connection.new start side) ops = .ok c) (id : SpaceId) (largestAcked : ℕ)
    (hn : (c.spaces id).largestAckedPacket = some largestAcked) (now before : Instant)
    (hb : Instant.checkedSub now c.lossDelay = some before) :
    (∃ c', c.detectLostPackets now id = .ok c' ∧ Detects c c' id largestAcked now before) ↔
      ∀ p ∈ (c.spaces id).sentPackets.entries, p.1 ≤ largestAcked → p.2.timeSent ≤ before →
        ∀ m ∈ p.2.streamFrames, c.streams.Covers m := by
  have hc : Accounted c.core := run_inv (I := fun c => Accounted c.core)
    (fun c op c' hc _ h => packetStep_accounted c (.step op) c' hc h) (accounted_new start side)
    (Meets.trivial connectionStep _ ops) h
  exact detects_iff hc hn hb

/-- The second of two packets with stream data is acknowledged at once, and the first becomes overdue. -/
theorem losses_exact_overdue : ∃ ops c c', run connectionStep (Connection.new 0 .client) ops = .ok c ∧
    (c.spaces .data).sentPackets.entries.map Prod.fst = [0] ∧ (c.spaces .data).lossTime = some 2000000 ∧
    c.detectLostPackets 2000000 .data = .ok c' ∧ Detects c c' .data 1 2000000 1000000 := by
  let ops : List ConnectionOp := [.pollTransmit 1, .sendOne 1, .handleData 2 (initialDatagram 0 [6, 0, 1, 0]),
    .openStream .bi, .write ⟨0⟩ [1, 2], .pollTransmit 1000000, .sendOne 1000000, .sendOne 1000000,
    .write ⟨0⟩ [3], .pollTransmit 1000001, .sendOne 1000001, .handleData 1000002 (shortDatagram 0 [2, 1, 0, 0, 0])]
  obtain ⟨c, hc, hv⟩ := Checked.map_eq_ok.mp (show (fun c : Connection => (
      ((c.spaces .data).sentPackets.entries.map Prod.fst, (c.spaces .data).lossTime),
      ((c.spaces .data).largestAckedPacket, Instant.checkedSub 2000000 c.lossDelay),
      decide (∀ p ∈ (c.spaces .data).sentPackets.entries, ∀ m ∈ p.2.streamFrames, c.streams.Covers m))) <$>
    run connectionStep (Connection.new 0 .client) ops =
      .ok (([0], some 2000000), (some 1, some 1000000), true) by decide +kernel)
  obtain ⟨h1, hv⟩ := Prod.mk.inj hv
  obtain ⟨h2, hcov⟩ := Prod.mk.inj hv
  obtain ⟨hsent, htime⟩ := Prod.mk.inj h1
  obtain ⟨hn, hb⟩ := Prod.mk.inj h2
  obtain ⟨c', h, hd⟩ := (losses_exact 0 .client ops c hc .data 1 hn 2000000 1000000 hb).mpr
    fun p hp _ _ => of_decide_eq_true hcov p hp
  exact ⟨ops, c, c', hc, hsent, htime, h, hd⟩

/-- A client writes two bytes to a stream that it has not opened. It then opens the stream, which replaces its
send half, and writes one byte. The packet with the one byte is acknowledged, and the packet with the two
becomes overdue: the stream has not sent as much, and `detect_lost_packets` panics. -/
theorem losses_panic : ∃ ops c, run connectionStep (Connection.new 0 .client) ops = .ok c ∧
    c.state.isClosed = false ∧ (c.spaces .data).largestAckedPacket = some 1 ∧
    Instant.checkedSub 2000000 c.lossDelay = some 1000000 ∧
    c.detectLostPackets 2000000 .data = .error .assertion ∧
    ¬ ∃ c', c.detectLostPackets 2000000 .data = .ok c' ∧ Detects c c' .data 1 2000000 1000000 := by
  let ops : List ConnectionOp := [.pollTransmit 1, .sendOne 1, .handleData 2 (initialDatagram 0 [6, 0, 1, 0]),
    .write ⟨0⟩ [1, 2], .pollTransmit 1000000, .sendOne 1000000, .sendOne 1000000,
    .openStream .bi, .write ⟨0⟩ [3], .pollTransmit 1000001, .sendOne 1000001,
    .handleData 1000002 (shortDatagram 0 [2, 1, 0, 0, 0])]
  obtain ⟨c, hc, hv⟩ := Checked.map_eq_ok.mp (show (fun c : Connection => (c.state.isClosed,
      ((c.spaces .data).largestAckedPacket, Instant.checkedSub 2000000 c.lossDelay),
      (c.detectLostPackets 2000000 .data).panic?)) <$>
    run connectionStep (Connection.new 0 .client) ops =
      .ok (false, (some 1, some 1000000), some .assertion) by decide +kernel)
  obtain ⟨hopen, hv⟩ := Prod.mk.inj hv
  obtain ⟨h1, hpanic⟩ := Prod.mk.inj hv
  obtain ⟨hn, hb⟩ := Prod.mk.inj h1
  have herr := Checked.panic?_eq_some.mp hpanic
  refine ⟨ops, c, hc, hopen, hn, hb, herr, ?_⟩
  rintro ⟨c', h, -⟩
  rw [herr] at h
  cases h

end MzQuic
