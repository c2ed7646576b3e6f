import MzQuic.Connection.Loss

/-!
# Probe timeouts

When the timer for loss detection fires and no space has a loss time, `on_loss_detection_timeout` runs
`detect_lost_packets` on every space with packets in flight, and does nothing else. A packet that is
above the largest acknowledged one, or too young, is left alone.

* `probeAll_requeues`, `probeAll_returns`: what the timeout queues, and when it returns;
* **`probe_ready`**: it leaves something to send exactly if something was queued before, or an overdue
  packet carries control data, or a frame of a stream that is idle.
-/

namespace MzQuic

open Lib

namespace Connection

/-- The body of the loop of `on_loss_detection_timeout` for a probe timeout. -/
def probe (now : Instant) (c : Connection) (id : SpaceId) : Checked Connection :=
  if (c.spaces id).inFlight > 0 then c.detectLostPackets now id else .ok c

/-- The packets of a space that a probe timeout takes as lost. -/
def probed (c : Connection) (now : Instant) (id : SpaceId) : List SentPacket :=
  if (c.spaces id).inFlight > 0 then (c.lostPackets now id).map Prod.snd else []

section Probe

variable {c c' : Connection} {now : Instant} {id : SpaceId}

theorem mem_probed {p : SentPacket} : p ∈ c.probed now id ↔
    0 < (c.spaces id).inFlight ∧ ∃ n, c.Overdue now id (n, p) := by
  unfold probed
  split_ifs with h
  · simp only [List.mem_map, mem_lostPackets, Prod.exists, exists_eq_right, h, true_and]
  · simp [h]

theorem probed_congr (hs : c'.spaces id = c.spaces id) (hr : c'.path.rtt = c.path.rtt) :
    c'.probed now id = c.probed now id := by
  unfold probed
  rw [hs, lostPackets_congr hs hr]

theorem probe_requeues (h : probe now c id = .ok c') : Requeues c c' id (c.probed now id) := by
  unfold probe at h
  unfold probed
  split_ifs at h ⊢
  · exact detectLostPackets_requeues h
  · cases h
    exact ⟨rfl, by simp, fun _ _ => rfl, rfl⟩

theorem probe_moves (h : probe now c id = .ok c') : Moves c c' := by
  unfold probe at h
  split_ifs at h
  · exact detectLostPackets_moves h
  · cases h
    exact .refl

theorem probe_returns (hc : Accounted c.core)
    (hcov : ∀ p ∈ c.probed now id, ∀ m ∈ p.streamFrames, c.streams.Covers m) :
    ∃ c', probe now c id = .ok c' := by
  unfold probe
  unfold probed at hcov
  split_ifs at hcov ⊢
  · exact detectLostPackets_returns hc fun p hp => hcov p.2 (List.mem_map_of_mem hp)
  · exact ⟨c, rfl⟩

/-- **What a probe timeout queues**: the frames of the packets lost in all the spaces go back to their
streams, the control data of each of them to its space. -/
theorem probeAll_requeues {ids : List SpaceId} (hd : ids.Nodup) (h : run (probe now) c ids = .ok c') :
    run StreamsState.retransmit c.streams (ids.flatMap fun i => (c.probed now i).flatMap SentPacket.streamFrames) =
        .ok c'.streams ∧
      (∀ i ∈ ids, (c'.spaces i).canSend.other =
        ((c.spaces i).canSend.other || (c.probed now i).any SentPacket.carriesControl)) ∧
      ∀ i, i ∉ ids → c'.spaces i = c.spaces i := by
  induction ids generalizing c with
  | nil =>
      cases h
      exact ⟨rfl, fun _ hi => absurd hi List.not_mem_nil, fun _ _ => rfl⟩
  | cons id ids ih =>
      obtain ⟨c₁, h1, h⟩ := Checked.bind_eq_ok.mp h
      obtain ⟨hid, hd⟩ := List.nodup_cons.mp hd
      have hq := probe_requeues h1
      obtain ⟨hs, hown, hothers⟩ := ih hd h
      -- the spaces whose turn comes later are as they were
      have hsame : ∀ i ∈ ids, c₁.spaces i = c.spaces i := fun i hi => hq.others i fun e => hid (e ▸ hi)
      have hprobed : ∀ i ∈ ids, c₁.probed now i = c.probed now i := fun i hi =>
        probed_congr (hsame i hi) hq.rtt
      refine ⟨?_, fun i hi => ?_, fun i hi => ?_⟩
      · rw [List.flatMap_cons, run_append, hq.streams, Checked.ok_bind, ← hs]
        congr 1
        exact (List.flatMap_congr fun i hi => by rw [hprobed i hi]).symm
      · rcases List.mem_cons.mp hi with rfl | hi
        · rw [hothers i hid, hq.own]
        · rw [hown i hi, hsame i hi, hprobed i hi]
      · rw [hothers i fun hm => hi (List.mem_cons_of_mem id hm)]
        exact hq.others i fun e => hi (e ▸ List.mem_cons_self)

/-- **A probe timeout returns** exactly if the streams cover the frames of the lost packets. -/
theorem probeAll_returns {ids : List SpaceId} (hd : ids.Nodup) (hc : Accounted c.core) :
    (∃ c', run (probe now) c ids = .ok c') ↔
      ∀ i ∈ ids, ∀ p ∈ c.probed now i, ∀ m ∈ p.streamFrames, c.streams.Covers m := by
  constructor
  · rintro ⟨c', h⟩ i hi p hp m hm
    refine StreamsState.retransmits_returns.mp ⟨_, (probeAll_requeues hd h).1⟩ m ?_
    exact List.mem_flatMap.mpr ⟨i, hi, List.mem_flatMap.mpr ⟨p, hp, hm⟩⟩
  · intro hcov
    induction ids generalizing c with
    | nil => exact ⟨c, rfl⟩
    | cons id ids ih =>
        obtain ⟨hid, hd⟩ := List.nodup_cons.mp hd
        obtain ⟨c₁, h1⟩ := probe_returns hc (hcov id List.mem_cons_self)
        have hq := probe_requeues h1
        have hacc : Accounted c₁.core :=
          Moves.inv (I := fun c => Accounted c.core) (fun _ _ hm => hm.accounted) (probe_moves h1) hc
        obtain ⟨c', h⟩ := ih hd hacc fun i hi p hp m hm => by
          rw [probed_congr (hq.others i fun e => hid (e ▸ hi)) hq.rtt] at hp
          exact (StreamsState.retransmits_covers hq.streams m).mpr
            (hcov i (List.mem_cons_of_mem id hi) p hp m hm)
        exact ⟨c', by rw [run_cons, h1]; exact h⟩

end Probe

/-- A probe timeout does not panic and has something to send: of the spaces with packets in flight, one
has something queued already, or an overdue packet with control data, or it is the data space and an
overdue packet carries a frame of an idle stream. -/
structure ProbeReady (c : Connection) (now : Instant) : Prop where
  covered : ∀ id p, 0 < (c.spaces id).inFlight → c.Overdue now id p →
    ∀ m ∈ p.2.streamFrames, c.streams.Covers m
  ready : ∃ id, 0 < (c.spaces id).inFlight ∧ ((c.spaceCanSend id).other = true ∨
    (∃ p, c.Overdue now id p ∧ p.2.carriesControl = true) ∨
    (id = .data ∧ ∃ i p, 0 < (c.spaces i).inFlight ∧ c.Overdue now i p ∧
      ∃ m ∈ p.2.streamFrames, c.streams.wakes m = true))

section Timeout

variable {c c' : Connection} {now : Instant}

theorem onLossDetectionTimeout_eq (h : ∀ id, (c.spaces id).lossTime = none) :
    c.onLossDetectionTimeout now = setLossDetectionTimer <$> run (probe now) c SpaceId.variants := by
  have hnone : c.lossTimeAndSpace = none := by
    unfold lossTimeAndSpace
    simp [h]
  unfold onLossDetectionTimeout
  rw [hnone]
  rfl

theorem spaceCanSend_other (c : Connection) (id : SpaceId) : (c.spaceCanSend id).other =
    ((c.spaces id).canSend.other || (decide (id = .data) && c.streams.canSendStreamData)) := by
  unfold spaceCanSend
  by_cases hid : id = .data
  · simp [hid]
  · simp [hid]

/-- What can be sent after a probe timeout. -/
theorem probeAll_other (h : run (probe now) c SpaceId.variants = .ok c') (id : SpaceId) :
    (c'.spaceCanSend id).other = true ↔ (c.spaceCanSend id).other = true ∨
      (∃ p ∈ c.probed now id, p.carriesControl = true) ∨
      (id = .data ∧ ∃ i, ∃ p ∈ c.probed now i, ∃ m ∈ p.streamFrames, c.streams.wakes m = true) := by
  obtain ⟨hs, hown, -⟩ := probeAll_requeues (by decide) h
  rw [spaceCanSend_other, spaceCanSend_other, hown id (SpaceId.mem_variants id), StreamsState.retransmits_canSend hs]
  simp only [Bool.or_eq_true, Bool.and_eq_true, decide_eq_true_eq, List.any_eq_true, List.mem_flatMap,
    SpaceId.mem_variants, true_and, and_or_left]
  constructor
  · rintro ((h | h) | h | ⟨hid, m, ⟨i, p, hp, hm⟩, hw⟩)
    · exact .inl (.inl h)
    · exact .inr (.inl h)
    · exact .inl (.inr h)
    · exact .inr (.inr ⟨hid, i, p, hp, m, hm, hw⟩)
  · rintro ((h | h) | h | ⟨hid, i, p, hp, m, hm, hw⟩)
    · exact .inl (.inl h)
    · exact .inr (.inl h)
    · exact .inl (.inr h)
    · exact .inr (.inr ⟨hid, m, ⟨i, p, hp, hm⟩, hw⟩)

/-- A probe timeout, in any state whose packets in flight are accounted. -/
theorem timeout_ready (hc : Accounted c.core) (hloss : ∀ id, (c.spaces id).lossTime = none) :
    (∃ c', c.onLossDetectionTimeout now = .ok c' ∧
      ∃ id, 0 < (c.spaces id).inFlight ∧ (c'.spaceCanSend id).other = true) ↔ c.ProbeReady now := by
  rw [onLossDetectionTimeout_eq hloss]
  constructor
  · rintro ⟨c₁, h₁, id, hpos, hother⟩
    obtain ⟨c', h, rfl⟩ := Checked.map_eq_ok.mp h₁
    obtain ⟨t, ht⟩ := c'.setLossDetectionTimer_eq
    rw [ht] at hother
    have hcov := (probeAll_returns (by decide) hc).mp ⟨c', h⟩
    refine ⟨fun i p hi hp m hm => hcov i (SpaceId.mem_variants i) p.2 (mem_probed.mpr ⟨hi, p.1, hp⟩) m hm, id, hpos, ?_⟩
    rcases (probeAll_other h id).mp hother with h | ⟨p, hp, h⟩ | ⟨hid, i, p, hp, m, hm, hw⟩
    · exact .inl h
    · obtain ⟨-, n, hover⟩ := mem_probed.mp hp
      exact .inr (.inl ⟨(n, p), hover, h⟩)
    · obtain ⟨hi, n, hover⟩ := mem_probed.mp hp
      exact .inr (.inr ⟨hid, i, (n, p), hi, hover, m, hm, hw⟩)
  · rintro ⟨hcov, id, hpos, hready⟩
    obtain ⟨c', h⟩ := (probeAll_returns (show SpaceId.variants.Nodup by decide) hc).mpr fun i _ p hp m hm => by
      obtain ⟨hi, n, hover⟩ := mem_probed.mp hp
      exact hcov i (n, p) hi hover m hm
    obtain ⟨t, ht⟩ := c'.setLossDetectionTimer_eq
    refine ⟨_, Checked.map_eq_ok.mpr ⟨c', h, rfl⟩, id, hpos, ?_⟩
    rw [ht]
    refine (probeAll_other h id).mpr ?_
    rcases hready with h | ⟨p, hover, h⟩ | ⟨hid, i, p, hi, hover, m, hm, hw⟩
    · exact .inl h
    · exact .inr (.inl ⟨p.2, mem_probed.mpr ⟨hpos, p.1, hover⟩, h⟩)
    · exact .inr (.inr ⟨hid, i, p.2, mem_probed.mpr ⟨hi, p.1, hover⟩, m, hm, hw⟩)

end Timeout

end Connection

open Connection

/-- **When a probe timeout has something to send.** In every reachable state without a loss time, the
timeout leaves ACK-eliciting data queued in a space with packets in flight exactly if the state is
ready for it. -/
theorem probe_ready (start : Instant) (side : Side) (ops : List ConnectionOp) (c : Connection)
    (h : run connectionStep (Connection.new start side) ops = .ok c)
    (hloss : ∀ id, (c.spaces id).lossTime = none) (now : Instant) :
    (∃ c', c.onLossDetectionTimeout now = .ok c' ∧
      ∃ id, 0 < (c.spaces id).inFlight ∧ (c'.spaceCanSend id).other = true) ↔ c.ProbeReady now := by
  have hc : Accounted c.core := run_inv (I := fun c => Accounted c.core)
    (fun c op c' hc _ h => packetStep_accounted c (.step op) c' hc h) (accounted_new start side)
    (Meets.trivial connectionStep _ ops) h
  exact timeout_ready hc hloss

/-- A stream with a frame in flight and more to send. -/
theorem probe_ready_more : ∃ ops c c', run connectionStep (Connection.new 0 .client) ops = .ok c ∧
    c.onLossDetectionTimeout 2000000000 = .ok c' ∧
    ∃ id, 0 < (c.spaces id).inFlight ∧ (c'.spaceCanSend id).other = true := by
  let ops : List ConnectionOp := [.openStream .bi, .write ⟨0⟩ [1], .pollTransmit 1, .sendOne 1, .sendOne 1,
    .write ⟨0⟩ [2]]
  obtain ⟨c, hc, hv⟩ := Checked.map_eq_ok.mp (show (fun c : Connection =>
      (SpaceId.variants.all (fun id => (c.spaces id).lossTime.isNone && (c.lostPackets 2000000000 id).isEmpty),
        decide (0 < (c.spaces .data).inFlight), (c.spaceCanSend .data).other)) <$>
    run connectionStep (Connection.new 0 .client) ops = .ok (true, true, true) by decide +kernel)
  obtain ⟨hnone, hv⟩ := Prod.mk.inj hv
  obtain ⟨hpos, hother⟩ := Prod.mk.inj hv
  have hnone : ∀ id, (c.spaces id).lossTime = none ∧ c.lostPackets 2000000000 id = [] := fun id => by
    have := List.all_eq_true.mp hnone id (by cases id <;> decide)
    simpa using this
  have hready : c.ProbeReady 2000000000 := by
    refine ⟨fun id p _ hp => ?_, .data, of_decide_eq_true hpos, .inl hother⟩
    have := mem_lostPackets.mpr hp
    rw [(hnone id).2] at this
    cases this
  obtain ⟨c', h', hout⟩ := (probe_ready 0 .client ops c hc (fun id => (hnone id).1) 2000000000).mpr hready
  exact ⟨ops, c, c', hc, h', hout⟩

/-- The first packet of a client is lost: nothing has been acknowledged, and the timeout sends nothing
again. -/
theorem probe_silent : ∃ ops c c' t, run connectionStep (Connection.new 0 .client) ops = .ok c ∧
    c.state.isClosed = false ∧ (∀ id, (c.spaces id).lossTime = none) ∧ 0 < (c.spaces .initial).inFlight ∧
    c.timers.data .lossDetection = some t ∧ c.onLossDetectionTimeout t = .ok c' ∧
    ∀ id, (c'.spaceCanSend id).other = false := by
  let ops : List ConnectionOp := [.pollTransmit 1, .sendOne 1]
  obtain ⟨c, hc, hv⟩ := Checked.map_eq_ok.mp (show (fun c : Connection => ((c.state.isClosed,
      SpaceId.variants.all fun id => (c.spaces id).lossTime.isNone),
      (decide (0 < (c.spaces .initial).inFlight), c.timers.data .lossDetection),
      (fun c' : Connection => SpaceId.variants.all fun id => !(c'.spaceCanSend id).other) <$>
        c.onLossDetectionTimeout 1000000001)) <$>
    run connectionStep (Connection.new 0 .client) ops =
      .ok ((false, true), (true, some 1000000001), .ok true) by decide +kernel)
  obtain ⟨h1, hv⟩ := Prod.mk.inj hv
  obtain ⟨hopen, hloss⟩ := Prod.mk.inj h1
  obtain ⟨h2, hv⟩ := Prod.mk.inj hv
  obtain ⟨hpos, htimer⟩ := Prod.mk.inj h2
  obtain ⟨c', hc', hsilent⟩ := Checked.map_eq_ok.mp hv
  refine ⟨ops, c, c', 1000000001, hc, hopen, fun id => ?_, of_decide_eq_true hpos, htimer, hc', fun id => ?_⟩
  · simpa using List.all_eq_true.mp hloss id (SpaceId.mem_variants id)
  · simpa using List.all_eq_true.mp hsilent id (SpaceId.mem_variants id)

end MzQuic
