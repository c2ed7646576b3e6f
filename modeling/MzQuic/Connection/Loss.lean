import MzQuic.Connection.Accounting

/-!
# Lost packets

* `retransmits_returns`, `retransmits_canSend`: when the frames of lost packets are sent again without a
  panic, and which of them put a stream in the queue;
* `Overdue`: the packets that `detect_lost_packets` takes as lost;
* **`detectLostPackets_requeues`**: what it queues to be sent again;
* `detectLostPackets_returns`: if the packets in flight are accounted, then it panics for no other frames
  than those that their streams do not cover.
-/

namespace MzQuic

open Lib

/-! ## Streams that are sent again -/

namespace StreamsState

/-- The stream of the frame is there, is not reset, and has nothing to send. -/
def wakes (s : StreamsState) (m : StreamMeta) : Bool :=
  (s.send m.id).any fun stream => !stream.isReset && !stream.isPending

/-- If the stream of the frame is there and not reset, then it has sent as much as the frame says. -/
def Covers (s : StreamsState) (m : StreamMeta) : Prop :=
  ∀ stream, s.send m.id = some stream → stream.isReset = false → m.offsets.end ≤ stream.pending.unsent

section Retransmit

variable {s s' : StreamsState} {m : StreamMeta}

theorem isEmpty_insert {r : RangeSet} {x : Range} (h : r.isEmpty = false) : (r.insert x).2.isEmpty = false := by
  have hne : r.map.entries ≠ [] := List.isEmpty_eq_false_iff.mp h
  obtain ⟨p, hp⟩ := List.exists_mem_of_ne_nil _ hne
  have hmem : p.1 ∈ (r.insert x).2 :=
    RangeSet.mem_insert.mpr (.inl ⟨p, hp, le_rfl, r.canon.nonempty p hp⟩)
  obtain ⟨q, hq, -⟩ := hmem
  unfold RangeSet.isEmpty
  rw [List.isEmpty_eq_false_iff]
  exact List.ne_nil_of_mem hq

/-- The stream of the frame, after `retransmit`. -/
def again (stream : Send) (m : StreamMeta) : Send :=
  { stream with pending := { stream.pending with
    retransmits := (stream.pending.retransmits.insert m.offsets).2 } }

theorem isPending_again {stream : Send} (h : stream.isPending = true) : (again stream m).isPending = true := by
  simp only [Send.isPending, SendBuffer.hasUnsentData, again, Bool.or_eq_true, Bool.not_eq_true'] at h ⊢
  rcases h with (h | h) | h
  · exact .inl (.inl h)
  · exact .inl (.inr (isEmpty_insert h))
  · exact .inr h

/-- A retransmission does nothing to a stream that is gone or reset, and to another one if it covers the range. -/
theorem retransmit_again (h : s.retransmit m = .ok s') :
    (s' = s ∧ ∀ stream, s.send m.id = some stream → stream.isReset = true) ∨
      ∃ stream, s.send m.id = some stream ∧ stream.isReset = false ∧
        m.offsets.end ≤ stream.pending.unsent ∧ s' = s.wake m.id stream (again stream m) := by
  obtain ⟨rfl, hno⟩ | ⟨stream, pending, hs, hlive, hp, rfl⟩ := retransmit_cases h
  · exact .inl ⟨rfl, fun stream hstream => by simp [Send.isReset, hno stream hstream]⟩
  · obtain ⟨u, hle, hp⟩ := Checked.bind_eq_ok.mp hp
    cases hp
    exact .inr ⟨stream, hs, by simpa [Send.isReset] using hlive, Checked.assert_eq_ok.mp hle, rfl⟩

theorem retransmit_returns (h : s.Covers m) : ∃ s', s.retransmit m = .ok s' := by
  unfold retransmit
  split
  · exact ⟨s, rfl⟩
  · rename_i stream hs
    by_cases hr : stream.isReset = true
    · exact ⟨s, if_pos hr⟩
    · have hle := h stream hs (by simpa using hr)
      rw [if_neg hr, SendBuffer.retransmit, Checked.assert_of hle]
      exact ⟨_, rfl⟩

/-- A retransmission changes neither which streams are live nor how much they have sent. -/
theorem retransmit_covers (h : s.retransmit m = .ok s') (m' : StreamMeta) : s'.Covers m' ↔ s.Covers m' := by
  rcases retransmit_again h with ⟨rfl, -⟩ | ⟨stream, hs, hr, -, rfl⟩
  · exact Iff.rfl
  · unfold Covers
    rw [wake_send]
    by_cases hid : m'.id = m.id
    · rw [hid, Function.update_self, hs]
      simp [again, Send.isReset]
    · rw [Function.update_of_ne hid]

theorem covers_of_retransmit (h : s.retransmit m = .ok s') : s.Covers m := by
  intro stream hstream hr
  rcases retransmit_again h with ⟨-, hall⟩ | ⟨stream', hs, -, hle, -⟩
  · rw [hall stream hstream] at hr
    cases hr
  · rw [hs] at hstream
    cases hstream
    exact hle

/-- **The frames of lost packets are sent again without a panic** exactly if their streams cover them. -/
theorem retransmits_returns {frames : List StreamMeta} :
    (∃ s', run retransmit s frames = .ok s') ↔ ∀ m ∈ frames, s.Covers m := by
  induction frames generalizing s with
  | nil => simp [run]
  | cons m frames ih =>
      constructor
      · rintro ⟨s', h⟩
        obtain ⟨s₁, h1, h⟩ := Checked.bind_eq_ok.mp h
        intro m' hm'
        rcases List.mem_cons.mp hm' with rfl | hm'
        · exact covers_of_retransmit h1
        · exact (retransmit_covers h1 m').mp (ih.mp ⟨s', h⟩ m' hm')
      · intro h
        obtain ⟨s₁, h1⟩ := retransmit_returns (h m List.mem_cons_self)
        obtain ⟨s', h'⟩ := ih.mpr fun m' hm' =>
          (retransmit_covers h1 m').mpr (h m' (List.mem_cons_of_mem m hm'))
        exact ⟨s', by rw [run_cons, h1]; exact h'⟩

/-- One frame: the queue has something to send if it had before, or if the frame wakes its stream. -/
theorem retransmit_canSend (h : s.retransmit m = .ok s') :
    s'.canSendStreamData = (s.canSendStreamData || s.wakes m) := by
  rcases retransmit_again h with ⟨rfl, hall⟩ | ⟨stream, hs, hr, -, rfl⟩
  · have : s'.wakes m = false := by
      unfold wakes
      cases hs : s'.send m.id with
      | none => rfl
      | some stream => simp [hall stream hs]
    rw [this, Bool.or_false]
  · -- the same streams are live
    have hlive : ∀ i, (((s.wake m.id stream (again stream m)).send i).any fun y => !y.isReset) =
        (s.send i).any fun y => !y.isReset := by
      intro i
      rw [wake_send]
      by_cases hi : i = m.id
      · rw [hi, Function.update_self, hs]
        rfl
      · rw [Function.update_of_ne hi]
    have hw : s.wakes m = !stream.isPending := by simp [wakes, hs, hr]
    unfold canSendStreamData
    simp only [hlive, wake_pending, hw]
    cases hp : stream.isPending with
    | true => simp
    | false => simp [PendingStreamsQueue.entries, PendingStreamsQueue.pushPending, hs, hr]

/-- A frame that wakes no stream leaves the others as they are. -/
theorem retransmit_wakes (h : s.retransmit m = .ok s') (hm : s.wakes m = false) (m' : StreamMeta) :
    s'.wakes m' = s.wakes m' := by
  rcases retransmit_again h with ⟨rfl, -⟩ | ⟨stream, hs, hr, -, rfl⟩
  · rfl
  · have hp : stream.isPending = true := by simpa [wakes, hs, hr] using hm
    unfold wakes
    rw [wake_send]
    by_cases hid : m'.id = m.id
    · rw [hid, Function.update_self, hs]
      simp [hp, isPending_again hp]
    · rw [Function.update_of_ne hid]

/-- **All frames of lost packets**: the queue has something to send if it had before, or if one of the
frames wakes its stream. -/
theorem retransmits_canSend {frames : List StreamMeta} (h : run retransmit s frames = .ok s') :
    s'.canSendStreamData = (s.canSendStreamData || frames.any s.wakes) := by
  induction frames generalizing s with
  | nil =>
      cases h
      simp
  | cons m frames ih =>
      obtain ⟨s₁, h1, h⟩ := Checked.bind_eq_ok.mp h
      rw [ih h, retransmit_canSend h1, List.any_cons, ← Bool.or_assoc]
      cases hw : s.wakes m with
      | true => simp
      | false =>
          have : s₁.wakes = s.wakes := funext (retransmit_wakes h1 hw)
          rw [this]

theorem retransmits_covers {frames : List StreamMeta} (h : run retransmit s frames = .ok s') (m : StreamMeta) :
    s'.Covers m ↔ s.Covers m := by
  induction frames generalizing s with
  | nil =>
      cases h
      exact Iff.rfl
  | cons m' frames ih =>
      obtain ⟨s₁, h1, h⟩ := Checked.bind_eq_ok.mp h
      exact (ih h).trans (retransmit_covers h1 m)

end Retransmit

end StreamsState

/-! ## Overdue packets -/

/-- A packet that carries something to be sent again, apart from stream data. -/
def SentPacket.carriesControl (p : SentPacket) : Bool := p.retransmits.any fun r => !r.isEmpty

namespace Connection

/-- How long `detect_lost_packets` waits for an acknowledgement. -/
def lossDelay (c : Connection) : Duration := max (c.path.rtt.conservative * 9 / 8) timerGranularity

/-- A packet in flight that is at or below the largest acknowledged one, and was sent too long ago. -/
structure Overdue (c : Connection) (now : Instant) (id : SpaceId) (p : ℕ × SentPacket) : Prop where
  sent : p ∈ (c.spaces id).sentPackets.entries
  passed : ∃ n, (c.spaces id).largestAckedPacket = some n ∧ p.1 ≤ n
  old : p.2.timeSent ≤ (Instant.checkedSub now c.lossDelay).getD now

/-- The packets that `detect_lost_packets` collects. -/
def lostPackets (c : Connection) (now : Instant) (id : SpaceId) : List (ℕ × SentPacket) :=
  match (c.spaces id).largestAckedPacket with
  | none => []
  | some largestAcked =>
    ((c.spaces id).sentPackets.entries.takeWhile fun p => p.1 ≤ largestAcked).filter fun p =>
      p.2.timeSent ≤ (Instant.checkedSub now c.lossDelay).getD now

/-- The loss time that `detect_lost_packets` computes, over the packets it has not collected. -/
def nextLossTime (c : Connection) (now : Instant) (id : SpaceId) : Option Instant :=
  match (c.spaces id).largestAckedPacket with
  | none => none
  | some largestAcked =>
    ((((c.spaces id).sentPackets.entries.takeWhile fun p => p.1 ≤ largestAcked).filter fun p =>
      (Instant.checkedSub now c.lossDelay).getD now < p.2.timeSent).map fun p => p.2.timeSent + c.lossDelay).min?

section Overdue

variable {c c' : Connection} {now : Instant} {id : SpaceId} {p : ℕ × SentPacket}

/-- The packets are in the order of their numbers, so the loop misses none when it breaks. -/
theorem mem_takeWhile_le {entries : List (ℕ × SentPacket)} {n : ℕ}
    (hs : entries.Pairwise fun p q => p.1 < q.1) :
    p ∈ entries.takeWhile (fun p => p.1 ≤ n) ↔ p ∈ entries ∧ p.1 ≤ n := by
  induction entries with
  | nil => simp
  | cons q entries ih =>
      obtain ⟨hq, hs⟩ := List.pairwise_cons.mp hs
      rw [List.takeWhile_cons]
      split_ifs with hle
      · rw [List.mem_cons, List.mem_cons, ih hs, or_and_right]
        refine or_congr_left ⟨fun e => ⟨e, ?_⟩, And.left⟩
        rw [e]
        exact of_decide_eq_true hle
      · simp only [List.not_mem_nil, List.mem_cons, false_iff, not_and]
        rintro (rfl | hp) hpn
        · exact hle (decide_eq_true hpn)
        · exact hle (decide_eq_true ((hq p hp).le.trans hpn))

theorem mem_lostPackets : p ∈ c.lostPackets now id ↔ c.Overdue now id p := by
  unfold lostPackets
  cases hn : (c.spaces id).largestAckedPacket with
  | none =>
      refine ⟨fun h => absurd h List.not_mem_nil, fun h => ?_⟩
      obtain ⟨n, h, -⟩ := h.passed
      rw [hn] at h
      cases h
  | some n =>
      simp only [List.mem_filter, mem_takeWhile_le (c.spaces id).sentPackets.sorted, decide_eq_true_eq]
      refine ⟨fun ⟨⟨h1, h2⟩, h3⟩ => ⟨h1, ⟨n, hn, h2⟩, h3⟩, fun h => ?_⟩
      obtain ⟨m, hm, hle⟩ := h.passed
      rw [hn] at hm
      cases hm
      exact ⟨⟨h.sent, hle⟩, h.old⟩

theorem lostPackets_sorted : (c.lostPackets now id).Pairwise fun p q => p.1 < q.1 := by
  unfold lostPackets
  split
  · exact .nil
  · exact ((c.spaces id).sentPackets.sorted.sublist (List.takeWhile_sublist _)).filter _

theorem lostPackets_congr (hs : c'.spaces id = c.spaces id) (hr : c'.path.rtt = c.path.rtt) :
    c'.lostPackets now id = c.lostPackets now id := by
  unfold lostPackets lossDelay
  rw [hs, hr]

/-- `detect_lost_packets` sets the loss time, and loses the packets it has collected. -/
theorem detectLostPackets_eq (c : Connection) (now : Instant) (id : SpaceId) : c.detectLostPackets now id =
    if (c.lostPackets now id).isEmpty then .ok (c.modifySpace id fun s => { s with lossTime := c.nextLossTime now id })
    else setLossDetectionTimer <$> run (loseOne now id)
      (c.modifySpace id fun s => { s with lossTime := c.nextLossTime now id }) (c.lostPackets now id) := by
  unfold detectLostPackets lostPackets nextLossTime
  cases (c.spaces id).largestAckedPacket with
  | none => rfl
  | some n => rfl

end Overdue

/-! ## What a timeout queues -/

/-- The packets were lost in a space: what they carried is queued again, and nothing else. -/
structure Requeues (c c' : Connection) (id : SpaceId) (packets : List SentPacket) : Prop where
  streams : run StreamsState.retransmit c.streams (packets.flatMap SentPacket.streamFrames) = .ok c'.streams
  own : (c'.spaces id).canSend.other = ((c.spaces id).canSend.other || packets.any SentPacket.carriesControl)
  others : ∀ i, i ≠ id → c'.spaces i = c.spaces i
  rtt : c'.path.rtt = c.path.rtt

section Requeues

variable {c c' c'' : Connection} {now : Instant} {id : SpaceId} {packets packets' : List SentPacket}

theorem Requeues.trans (h : Requeues c c' id packets) (h' : Requeues c' c'' id packets') :
    Requeues c c'' id (packets ++ packets') where
  streams := by
    rw [List.flatMap_append, run_append, h.streams]
    exact h'.streams
  own := by rw [h'.own, h.own, List.any_append, Bool.or_assoc]
  others i hi := (h'.others i hi).trans (h.others i hi)
  rtt := h'.rtt.trans h.rtt

theorem requeues_modifySpace (c : Connection) (id : SpaceId) (f : PacketSpace → PacketSpace)
    (h : (f (c.spaces id)).canSend.other = (c.spaces id).canSend.other) :
    Requeues c (c.modifySpace id f) id [] where
  streams := rfl
  own := by
    simp only [modifySpace, Function.update_self, List.any_nil, Bool.or_false]
    exact h
  others _ hi := Function.update_of_ne hi ..
  rtt := rfl

theorem isEmpty_bitorAssign (r r' : Retransmits) :
    (r.bitorAssign r').isEmpty = (r.isEmpty && r'.isEmpty) := by
  obtain ⟨h1, rs1, ss1, a1, d1⟩ := r
  obtain ⟨h2, rs2, ss2, a2, d2⟩ := r'
  have happend : ∀ {α : Type} (xs ys : List α), (xs ++ ys).isEmpty = (xs.isEmpty && ys.isEmpty) :=
    fun xs ys => by cases xs <;> rfl
  simp only [Retransmits.isEmpty, Retransmits.bitorAssign, Bool.not_or, happend]
  ac_rfl

theorem requeue_other (s : PacketSpace) (packet : SentPacket) :
    (s.requeue packet).canSend.other = (s.canSend.other || packet.carriesControl) := by
  unfold PacketSpace.requeue SentPacket.carriesControl
  cases packet.retransmits with
  | none => simp
  | some r =>
      simp only [PacketSpace.canSend, isEmpty_bitorAssign, Bool.not_and, Option.any_some]
      ac_rfl

theorem lost_rtt (path : NetworkPath) (b : Bool) (packet : SentPacket) (now : Instant) :
    (path.lost b packet now).rtt = path.rtt := by
  unfold NetworkPath.lost
  split_ifs <;> rfl

theorem loseOne_requeues {p : ℕ × SentPacket} (h : loseOne now id c p = .ok c') :
    Requeues c c' id [p.2] := by
  obtain ⟨s, removed, path, n, hs, hrem, -, rfl⟩ := loseOne_cases h
  refine ⟨by simpa using hs, ?_, fun i hi => Function.update_of_ne hi .., ?_⟩
  · simp only [modifySpace, Function.update_self, List.any_cons, List.any_nil, Bool.or_false]
    exact requeue_other (c.spaces id) p.2
  · dsimp only
    rw [lost_rtt, (removeInFlight_ok hrem).2]

theorem loseAll_requeues {lost : List (ℕ × SentPacket)} (h : run (loseOne now id) c lost = .ok c') :
    Requeues c c' id (lost.map Prod.snd) := by
  induction lost generalizing c with
  | nil =>
      cases h
      exact ⟨rfl, by simp, fun _ _ => rfl, rfl⟩
  | cons p lost ih =>
      obtain ⟨c₁, h1, h⟩ := Checked.bind_eq_ok.mp h
      exact (loseOne_requeues h1).trans (ih h)

theorem requeues_setLossDetectionTimer (h : Requeues c c' id packets) :
    Requeues c c'.setLossDetectionTimer id packets := by
  obtain ⟨t, ht⟩ := setLossDetectionTimer_eq c'
  rw [ht]
  exact ⟨h.streams, h.own, h.others, h.rtt⟩

/-- **What `detect_lost_packets` queues**: what the overdue packets carried. -/
theorem detectLostPackets_requeues (h : c.detectLostPackets now id = .ok c') :
    Requeues c c' id ((c.lostPackets now id).map Prod.snd) := by
  rw [detectLostPackets_eq] at h
  have hstart := requeues_modifySpace c id (fun s => { s with lossTime := c.nextLossTime now id }) rfl
  split_ifs at h with he
  · cases h
    rw [List.isEmpty_iff.mp he]
    exact hstart
  · obtain ⟨c₁, h1, rfl⟩ := Checked.map_eq_ok.mp h
    exact requeues_setLossDetectionTimer (hstart.trans (loseAll_requeues h1))

theorem take_total {space : PacketSpace} {pn : ℕ} {packet : SentPacket}
    (hf : space.sentPackets.find? pn = some packet) (hle : packet.size ≤ space.inFlight) :
    ∃ space', space.take pn = .ok (some packet, space') := by
  unfold PacketSpace.take
  rw [hf]
  dsimp only
  rw [Checked.sub_of_le hle]
  exact ⟨_, rfl⟩

theorem removeInFlight_total (hc : Accounted c.core) {pn n : ℕ} {packet : SentPacket}
    (hp : (pn, packet) ∈ (c.spaces id).sentPackets.entries) :
    ∃ r, c.path.removeInFlight n packet = .ok r := by
  obtain ⟨f, hf⟩ := hc.remove_total (n := n) hp
  have hf : (if c.path.firstPacket.all (· > n) then .ok c.path.inFlight
    else c.path.inFlight.remove packet) = .ok f := hf
  unfold NetworkPath.removeInFlight
  split_ifs at hf ⊢
  · exact ⟨_, rfl⟩
  · rw [hf]
    exact ⟨_, rfl⟩

/-- A lost packet does not panic if the streams cover its frames. -/
theorem loseOne_returns (hc : Accounted c.core) (now : Instant) {p : ℕ × SentPacket}
    (hp : p ∈ (c.spaces id).sentPackets.entries) (hcov : ∀ m ∈ p.2.streamFrames, c.streams.Covers m) :
    ∃ c', loseOne now id c p = .ok c' := by
  obtain ⟨pn, packet⟩ := p
  have hfind : ((c.spaces id).requeue packet).sentPackets.find? pn = some packet := by
    rw [requeue_sentPackets]
    exact OrdMap.find?_eq_some.mpr hp
  have hsize : packet.size ≤ ((c.spaces id).requeue packet).inFlight := by
    rw [requeue_inFlight]
    exact (hc.sum_le (show (pn, packet) ∈ (c.core.sent id).entries from hp)).1
  obtain ⟨space, ht⟩ := take_total hfind hsize
  exact Checked.exists_bind (removeInFlight_total hc hp) fun _ _ =>
    Checked.exists_bind (StreamsState.retransmits_returns.mpr hcov) fun _ _ =>
      Checked.exists_bind ⟨_, ht⟩ fun _ _ => ⟨_, rfl⟩

/-- The packets that are lost are still there when their turn comes. -/
theorem loseAll_returns (hc : Accounted c.core) (now : Instant) {lost : List (ℕ × SentPacket)}
    (hd : lost.Pairwise fun p q => p.1 < q.1) (hl : ∀ p ∈ lost, p ∈ (c.spaces id).sentPackets.entries)
    (hcov : ∀ p ∈ lost, ∀ m ∈ p.2.streamFrames, c.streams.Covers m) :
    ∃ c', run (loseOne now id) c lost = .ok c' := by
  induction lost generalizing c with
  | nil => exact ⟨c, rfl⟩
  | cons p lost ih =>
      obtain ⟨hp, hd⟩ := List.pairwise_cons.mp hd
      obtain ⟨c₁, h1⟩ := loseOne_returns hc now (hl p List.mem_cons_self) (hcov p List.mem_cons_self)
      have hacc : Accounted c₁.core := (Move.lost now id p (hl p List.mem_cons_self) h1).accounted hc
      have hstreams := (loseOne_requeues h1).streams
      obtain ⟨c', h'⟩ := ih hacc hd
        (fun q hq => mem_of_loseOne h1 (hl q (List.mem_cons_of_mem p hq)) (hp q hq).ne')
        fun q hq m hm => (StreamsState.retransmits_covers hstreams m).mpr
          (hcov q (List.mem_cons_of_mem p hq) m hm)
      exact ⟨c', by rw [run_cons, h1]; exact h'⟩

theorem detectLostPackets_returns (hc : Accounted c.core)
    (hcov : ∀ p ∈ c.lostPackets now id, ∀ m ∈ p.2.streamFrames, c.streams.Covers m) :
    ∃ c', c.detectLostPackets now id = .ok c' := by
  rw [detectLostPackets_eq]
  have hq := quiet_modifySpace c id (fun s => { s with lossTime := c.nextLossTime now id }) rfl rfl rfl rfl
  split_ifs with he
  · exact ⟨_, rfl⟩
  · have hacc := hc
    rw [← hq.1] at hacc
    have hmem : ∀ p ∈ c.lostPackets now id, p ∈ ((c.modifySpace id fun s =>
        { s with lossTime := c.nextLossTime now id }).spaces id).sentPackets.entries := by
      intro p hp
      simp only [modifySpace, Function.update_self]
      exact (mem_lostPackets.mp hp).sent
    obtain ⟨c', h'⟩ := loseAll_returns hacc now lostPackets_sorted hmem hcov
    exact ⟨_, Checked.map_eq_ok.mpr ⟨c', h', rfl⟩⟩

end Requeues

end Connection

end MzQuic
