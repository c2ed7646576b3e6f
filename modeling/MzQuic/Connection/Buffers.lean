import MzQuic.Connection.Moves

/-!
# The send buffers know of the frames in flight

* `SendBuffer.Holds F id`: the buffer of stream `id` is well formed, and the frames `F` of the stream
  lie in what was sent from it. A buffer that was freed and made anew would not know of them;
* `receivedAckOf_total`, `retransmit_total`: then no acknowledgement and no loss panics;
* `Buffered`: the buffers of a connection hold the frames of its packets, scheduled or in flight, and
  `Move.buffered`: the moves keep it;
* `Formed`: the buffers are well formed, which every step keeps (`connectionStep_formed`).
-/

namespace MzQuic

open Lib

/-- The buffer of stream `id` is well formed, does not begin with an empty segment at offset 0, and
has sent the frames of the stream. -/
structure SendBuffer.Holds (F : List StreamMeta) (id : StreamId) (b : SendBuffer) : Prop where
  wf : ∃ W, b.WF W
  head : b.base = 0 → b.unackedSegments.head? ≠ some []
  sent : ∀ m ∈ F, m.id = id → m.offsets.end ≤ b.unsent

/-- Every buffer holds the frames of its stream. -/
def Holding (F : List StreamMeta) (buffers : StreamId → Option SendBuffer) : Prop :=
  ∀ id, ∀ b ∈ buffers id, b.Holds F id

section Holding

variable {F : List StreamMeta} {id : StreamId} {b b' : SendBuffer}

theorem SendBuffer.Holds.mono {F' : List StreamMeta} (h : b.Holds F id) (hF : F' ⊆ F) : b.Holds F' id :=
  ⟨h.wf, h.head, fun m hm => h.sent m (hF hm)⟩

theorem Holding.mono {F' : List StreamMeta} {buffers : StreamId → Option SendBuffer}
    (h : Holding F buffers) (hF : F' ⊆ F) : Holding F' buffers :=
  fun id b hb => (h id b hb).mono hF

/-- One buffer is changed or removed. -/
theorem Holding.update {buffers : StreamId → Option SendBuffer} (h : Holding F buffers)
    {x : Option SendBuffer} (hx : ∀ b ∈ x, b.Holds F id) : Holding F (Function.update buffers id x) := by
  intro i b hb
  by_cases hi : i = id
  · subst hi
    rw [Function.update_self] at hb
    exact hx b hb
  · rw [Function.update_of_ne hi] at hb
    exact h i b hb

theorem SendBuffer.Holds.ack_total (h : b.Holds F id) (r : Range) : ∃ b', b.ack r = .ok b' := by
  obtain ⟨W, hW⟩ := h.wf
  exact SendBuffer.ack_total hW fun h0 hs => absurd hs (h.head h0)

theorem SendBuffer.Holds.ack (h : b.Holds F id) {r : Range} (he : b.ack r = .ok b') : b'.Holds F id := by
  obtain ⟨W, hW⟩ := h.wf
  obtain ⟨hwf, hbase, -, hunsent, -, -⟩ := hW.ack he
  refine ⟨⟨W, hwf⟩, fun h0 => ?_, fun m hm hid => by rw [hunsent]; exact h.sent m hm hid⟩
  -- nothing was freed, and an empty segment is not first
  obtain ⟨freed, segs, hd, hle, rfl⟩ := SendBuffer.ack_ok hW he
  obtain ⟨pre, hpre, hf⟩ := drainLoop_ok hd
  have hb0 : b.base = 0 := by omega
  have hlen := hW.len_le
  have hfreed : freed = 0 := by
    simp only [SendBuffer.base] at h0 hb0
    omega
  have hhead := h.head hb0
  rw [hpre] at hhead
  cases pre with
  | nil => exact hhead
  | cons seg pre =>
      have hnil : seg = [] := by
        rw [hfreed, List.flatten_cons, List.length_append] at hf
        exact List.eq_nil_of_length_eq_zero (by omega)
      rw [hnil] at hhead
      exact absurd rfl hhead

theorem SendBuffer.Holds.retransmit (h : b.Holds F id) {m : StreamMeta} (hm : m ∈ F) (hid : m.id = id) :
    ∃ b', b.retransmit m.offsets = .ok b' ∧ b'.Holds F id := by
  have he := SendBuffer.retransmit_total (h.sent m hm hid)
  obtain ⟨W, hW⟩ := h.wf
  exact ⟨_, he, ⟨W, (hW.retransmit he).2.1⟩, h.head, h.sent⟩

/-- What was polled is one more frame. -/
theorem SendBuffer.Holds.polled (h : b.Holds F id) {m : StreamMeta} {maxLen : ℕ} {enc : Bool}
    (hp : b.pollTransmit maxLen = .ok ((m.offsets, enc), b')) : b'.Holds (F ++ [m]) id := by
  obtain ⟨-, hc, hstart, rfl⟩ := SendBuffer.pollTransmit_ok hp
  obtain ⟨h1, h2⟩ := clampNew_ok hc
  obtain ⟨W, hW⟩ := h.wf
  obtain ⟨hwf, hu, hend⟩ := hW.sent h1 h2
  refine ⟨⟨W, hwf⟩, by simpa using h.head, fun q hq hid => ?_⟩
  rcases List.mem_append.mp hq with hq | hq
  · exact (h.sent q hq hid).trans hu
  · rw [List.mem_singleton.mp hq]
    exact hend

theorem SendBuffer.Holds.write (h : b.Holds F id) {data : Bytes} (hd : data = [] → 0 < b.offset) :
    (b.write data).Holds F id := by
  obtain ⟨W, hW⟩ := h.wf
  refine ⟨⟨W ++ data, hW.write data⟩, fun h0 => ?_, h.sent⟩
  have hb0 : b.base = 0 := by
    simp only [SendBuffer.base, SendBuffer.write] at h0 ⊢
    omega
  have hhead := h.head hb0
  show (b.unackedSegments ++ [data]).head? ≠ some []
  cases hs : b.unackedSegments with
  | cons seg segs =>
      rw [hs] at hhead
      exact hhead
  | nil =>
      -- the new segment is the first
      intro he
      have hlen := hW.length
      rw [hs] at hlen
      have hle := hW.len_le
      have hpos := hd (Option.some.inj he)
      simp only [SendBuffer.base, List.flatten_nil, List.length_nil] at hb0 hlen
      omega

theorem SendBuffer.holds_default (h : ∀ m ∈ F, m.id ≠ id) : SendBuffer.default.Holds F id :=
  ⟨⟨[], SendBuffer.WF.default⟩, fun _ => by simp [SendBuffer.default],
    fun m hm hid => absurd hid (h m hm)⟩

end Holding

/-! ## The streams -/

namespace Connection

section Streams

variable {F : List StreamMeta} {s s' : StreamsState}

theorem buffers_setSend {id : StreamId} {x : Option Send} (h : s'.send = Function.update s.send id x) :
    buffers s' = Function.update (buffers s) id (x.map Send.pending) := by
  funext i
  unfold buffers
  rw [h]
  by_cases hi : i = id
  · subst hi
    rw [Function.update_self, Function.update_self]
  · rw [Function.update_of_ne hi, Function.update_of_ne hi]

theorem mem_buffers {id : StreamId} {stream : Send} (h : s.send id = some stream) :
    stream.pending ∈ buffers s id := by
  unfold buffers
  rw [h]
  rfl

/-- An acknowledgement of a frame does not panic. -/
theorem receivedAckOf_total (h : Holding F (buffers s)) (m : StreamMeta) :
    ∃ s', s.receivedAckOf m = .ok s' ∧ Holding F (buffers s') := by
  have hok : ∃ s', s.receivedAckOf m = .ok s' := by
    unfold StreamsState.receivedAckOf
    split
    · exact ⟨s, rfl⟩
    · rename_i stream hs
      split_ifs
      · exact ⟨s, rfl⟩
      · obtain ⟨b, hb⟩ := (h _ _ (mem_buffers hs)).ack_total m.offsets
        unfold Send.ack
        rw [hb, Checked.ok_bind]
        cases stream.state with
        | ready => exact ⟨_, rfl⟩
        | resetSent => exact ⟨_, rfl⟩
        | dataSent finishAcked =>
            dsimp only
            cases (finishAcked || m.fin) && b.isFullyAcked with
            | true => exact ⟨_, rfl⟩
            | false => exact ⟨_, rfl⟩
  obtain ⟨s', hs'⟩ := hok
  refine ⟨s', hs', ?_⟩
  rcases StreamsState.receivedAckOf_send hs' with ⟨rfl, -⟩ | ⟨stream, b, hs, -, hb, ⟨-, e⟩ | e⟩
  · exact h
  · rw [buffers_setSend e]
    exact h.update fun b hb => by cases hb
  · rw [buffers_setSend e]
    refine h.update fun b' hb' => ?_
    cases hb'
    exact (h _ _ (mem_buffers hs)).ack hb

/-- The loss of a frame in flight does not panic. -/
theorem retransmit_total (h : Holding F (buffers s)) {m : StreamMeta} (hm : m ∈ F) :
    ∃ s', s.retransmit m = .ok s' ∧ Holding F (buffers s') := by
  have hok : ∃ s', s.retransmit m = .ok s' := by
    unfold StreamsState.retransmit
    split
    · exact ⟨s, rfl⟩
    · rename_i stream hs
      obtain ⟨b, hb, -⟩ := (h _ _ (mem_buffers hs)).retransmit hm rfl
      rw [hb]
      split_ifs
      · exact ⟨s, rfl⟩
      · exact ⟨_, rfl⟩
      · exact ⟨_, rfl⟩
  obtain ⟨s', hs'⟩ := hok
  refine ⟨s', hs', ?_⟩
  rcases StreamsState.retransmit_send hs' with ⟨rfl, -⟩ | ⟨stream, b, hs, -, hb, e⟩
  · exact h
  · rw [buffers_setSend e]
    refine h.update fun b' hb' => ?_
    cases hb'
    obtain ⟨b₁, hb₁, hh⟩ := (h _ _ (mem_buffers hs)).retransmit hm rfl
    rw [hb] at hb₁
    cases hb₁
    exact hh

/-- All frames of a packet are acknowledged. -/
theorem receivedAcksOf_total (h : Holding F (buffers s)) (ms : List StreamMeta) :
    ∃ s', run StreamsState.receivedAckOf s ms = .ok s' ∧ Holding F (buffers s') :=
  run_total (I := fun s => Holding F (buffers s)) (fun _ m hs _ => receivedAckOf_total hs m) h
    (Meets.trivial _ s ms)

/-- All frames of a packet are lost. -/
theorem retransmits_total (h : Holding F (buffers s)) {ms : List StreamMeta} (hms : ms ⊆ F) :
    ∃ s', run StreamsState.retransmit s ms = .ok s' ∧ Holding F (buffers s') := by
  have hm : Meets StreamsState.retransmit (fun _ m => m ∈ F) s ms := Meets.of_forall fun _ hm => hms hm
  exact run_total (I := fun s => Holding F (buffers s)) (fun _ _ hs hm => retransmit_total hs hm) h hm

/-- One round of the loop of `write_stream_frames`. -/
theorem streamTurn_holding {fair : Bool} {buf buf' : BufMut} {t : StreamsState.Turn}
    (h : Holding F (buffers s)) (ht : StreamsState.streamTurn fair s buf = .ok (t, s', buf')) :
    Holding (F ++ t.metas) (buffers s') := by
  obtain ⟨hmetas, hs⟩ | ⟨m, stream, enc, hp, hms⟩ := StreamsState.streamTurn_polls ht
  · rw [hmetas, List.append_nil, buffers_congr hs]
    exact h
  have hpolled : Holding (F ++ [m]) (buffers s') := by
    intro i b hb
    rw [buffers_setSend hp.send] at hb
    by_cases hi : i = m.id
    · subst hi
      rw [Function.update_self] at hb
      cases hb
      exact (h _ _ (mem_buffers hp.entry)).polled hp.polled
    · rw [Function.update_of_ne hi] at hb
      have hh := h i b hb
      refine ⟨hh.wf, hh.head, fun q hq hid => ?_⟩
      rcases List.mem_append.mp hq with hq | hq
      · exact hh.sent q hq hid
      · rw [List.mem_singleton.mp hq] at hid
        exact absurd hid.symm hi
  obtain hms | ⟨hms, -⟩ := hms
  · rwa [hms]
  · exact hpolled.mono (by simp [hms])

/-- The frames of a packet are held by the buffers they were taken from. -/
theorem Writes.holding {ms : List StreamMeta} (h : Holding F (buffers s)) (hw : Writes s ms s') :
    Holding (F ++ ms) (buffers s') := by
  rcases hw with ⟨rfl, rfl⟩ | ⟨buf, buf', hw⟩
  · exact h.mono (by simp)
  · refine StreamsState.writeStreamFrames_inv (I := fun ms s _ => Holding (F ++ ms) (buffers s))
      (fun ms s buf t s' buf' hI _ ht => ?_) (h.mono (by simp))
      (StreamsState.TurnsMeet.trivial true _ s buf) hw
    rw [← List.append_assoc]
    exact streamTurn_holding hI ht

end Streams

/-! ## The connection -/

/-- The frames of the packets that are scheduled or in flight. -/
def Core.frames (k : Core) : List StreamMeta :=
  k.queue.flatMap SentPacket.streamFrames ++
    SpaceId.variants.flatMap fun id => (k.sent id).entries.flatMap fun p => p.2.streamFrames

theorem Core.mem_frames {k : Core} {m : StreamMeta} : m ∈ k.frames ↔
    (∃ p ∈ k.queue, m ∈ p.streamFrames) ∨ ∃ id, ∃ p ∈ (k.sent id).entries, m ∈ p.2.streamFrames := by
  simp [frames, SpaceId.mem_variants]

/-- The buffers of a connection hold the frames of its packets. -/
def Buffered (k : Core) : Prop := Holding k.frames k.buffers

/-- Packets leave a space. -/
theorem Core.frames_shrink {k k' : Core} {id : SpaceId} {sent : OrdMap SentPacket}
    (hq : k'.queue = k.queue) (hs : k'.sent = Function.update k.sent id sent)
    (hsub : sent.entries ⊆ (k.sent id).entries) : k'.frames ⊆ k.frames := by
  intro m hm
  rcases Core.mem_frames.mp hm with ⟨p, hp, hm⟩ | ⟨i, p, hp, hm⟩
  · rw [hq] at hp
    exact Core.mem_frames.mpr (.inl ⟨p, hp, hm⟩)
  · rw [hs] at hp
    refine Core.mem_frames.mpr (.inr ⟨i, p, ?_, hm⟩)
    by_cases hi : i = id
    · subst hi
      rw [Function.update_self] at hp
      exact hsub hp
    · rwa [Function.update_of_ne hi] at hp

theorem Resolves.frames_mem {c c' : Connection} {id : SpaceId} {pn n : ℕ} {packet : SentPacket}
    {s : StreamsState} (h : Resolves c c' id pn n packet s) : packet.streamFrames ⊆ c.core.frames :=
  fun _ hm => Core.mem_frames.mpr (.inr ⟨id, (pn, packet), OrdMap.find?_eq_some.mp h.found, hm⟩)

/-- The streams after a packet was resolved. -/
theorem Resolves.buffered {c c' : Connection} {id : SpaceId} {pn n : ℕ} {packet : SentPacket}
    {s : StreamsState} (h : Resolves c c' id pn n packet s) (hs : Holding c.core.frames (buffers s)) :
    Buffered c'.core := by
  unfold Buffered
  rw [h.core]
  exact Holding.mono hs (Core.frames_shrink rfl rfl fun p hp => (OrdMap.mem_erase.mp hp).1)

theorem Move.buffered {c c' : Connection} (h : Move c c') (hc : Buffered c.core) :
    Buffered c'.core := by
  cases h with
  | quiet h => rwa [h.1]
  | received id n now h _ => rwa [h]
  | acked id pn h =>
      rcases ackOne_ok h with ⟨rfl, -⟩ | ⟨packet, s, hr, hs, -⟩
      · exact hc
      · obtain ⟨s', hs', hh⟩ := receivedAcksOf_total hc packet.streamFrames
        rw [hs] at hs'
        cases hs'
        exact hr.buffered hh
  | lost now id p hp h =>
      obtain ⟨s, hr, hs, -⟩ := loseOne_ok hp h
      obtain ⟨s', hs', hh⟩ := retransmits_total hc hr.frames_mem
      rw [hs] at hs'
      cases hs'
      exact hr.buffered hh
  | discarded id h =>
      obtain ⟨-, h2, -⟩ := discardSpace_ok h
      unfold Buffered
      rw [h2]
      exact Holding.mono hc (Core.frames_shrink rfl rfl (List.nil_subset _))
  | composed now close id ackEliciting h =>
      obtain ⟨p, -, -, -, hw, hk, -⟩ := composePacket_ok h
      unfold Buffered
      rw [hk]
      refine Holding.mono (Writes.holding hc hw) fun m hm => List.mem_append.mpr ?_
      rcases Core.mem_frames.mp hm with ⟨q, hq, hm⟩ | hs
      · rcases List.mem_append.mp hq with hq | hq
        · exact .inl (Core.mem_frames.mpr (.inl ⟨q, hq, hm⟩))
        · rw [List.mem_singleton.mp hq] at hm
          exact .inr hm
      · exact .inl (Core.mem_frames.mpr (.inr hs))
  | sent t =>
      rcases c.sendOne_ok t with ⟨-, e⟩ | ⟨p, queue, hq, hk, -⟩
      · rwa [e]
      · unfold Buffered
        rw [hk]
        have hp : p ∈ c.core.queue := by rw [hq]; exact List.mem_cons_self
        refine Holding.mono hc fun m hm => ?_
        rcases Core.mem_frames.mp hm with ⟨q, hq', hm⟩ | ⟨i, q, hq', hm⟩
        · refine Core.mem_frames.mpr (.inl ⟨q, ?_, hm⟩)
          rw [hq]
          exact List.mem_cons_of_mem p hq'
        · have hq' : q ∈ (Function.update c.core.sent p.spaceId
              ((c.core.sent p.spaceId).insert p.number { p with timeSent := t }) i).entries := hq'
          by_cases hi : i = p.spaceId
          · subst hi
            rw [Function.update_self] at hq'
            rcases OrdMap.mem_insert.mp hq' with rfl | ⟨hq', -⟩
            · exact Core.mem_frames.mpr (.inl ⟨p, hp, hm⟩)
            · exact Core.mem_frames.mpr (.inr ⟨p.spaceId, q, hq', hm⟩)
          · rw [Function.update_of_ne hi] at hq'
            exact Core.mem_frames.mpr (.inr ⟨i, q, hq', hm⟩)

/-! ## Well-formed buffers

Whatever the application and the peer do, each buffer holds the end of some string. -/

/-- Each buffer holds the end of some string. -/
def Formed (buffers : StreamId → Option SendBuffer) : Prop := ∀ id, ∃ W, ∀ b ∈ buffers id, b.WF W

section Formed

variable {s s' : StreamsState}

theorem Formed.update {B : StreamId → Option SendBuffer} (h : Formed B) {id : StreamId}
    {x : Option SendBuffer} (hx : ∃ W, ∀ b ∈ x, b.WF W) : Formed (Function.update B id x) :=
  (Function.forall_update_iff B fun _ x => ∃ W, ∀ b ∈ x, b.WF W).mpr ⟨hx, fun i _ => h i⟩

/-- One send half is replaced by one whose buffer is well formed. -/
theorem Formed.setSend (h : Formed (buffers s)) {id : StreamId} {stream : Send} {W : Bytes}
    (hs : s'.send = Function.update s.send id (some stream)) (hW : stream.pending.WF W) :
    Formed (buffers s') := by
  rw [buffers_setSend hs]
  exact h.update ⟨W, fun b hb => by cases hb; exact hW⟩

theorem Formed.removeSend (h : Formed (buffers s)) {id : StreamId}
    (hs : s'.send = Function.update s.send id none) : Formed (buffers s') := by
  rw [buffers_setSend hs]
  exact h.update ⟨[], fun b hb => by cases hb⟩

theorem Formed.send (h : Formed (buffers s)) (id : StreamId) :
    ∃ W, ∀ stream ∈ s.send id, stream.pending.WF W := by
  obtain ⟨W, hW⟩ := h id
  exact ⟨W, fun stream hs => hW _ (mem_buffers hs)⟩

theorem receivedAckOf_formed {m : StreamMeta} (h : Formed (buffers s)) (he : s.receivedAckOf m = .ok s') :
    Formed (buffers s') := by
  rcases StreamsState.receivedAckOf_send he with ⟨rfl, -⟩ | ⟨stream, b, hs, -, hb, ⟨-, e⟩ | e⟩
  · exact h
  · exact h.removeSend e
  · obtain ⟨W, hW⟩ := h.send m.id
    exact h.setSend e ((hW stream hs).ack hb).1

theorem retransmit_formed {m : StreamMeta} (h : Formed (buffers s)) (he : s.retransmit m = .ok s') :
    Formed (buffers s') := by
  rcases StreamsState.retransmit_send he with ⟨rfl, -⟩ | ⟨stream, b, hs, -, hb, e⟩
  · exact h
  · obtain ⟨W, hW⟩ := h.send m.id
    exact h.setSend e ((hW stream hs).retransmit hb).2.1

theorem streamTurn_formed {fair : Bool} {buf buf' : BufMut} {t : StreamsState.Turn}
    (h : Formed (buffers s)) (ht : StreamsState.streamTurn fair s buf = .ok (t, s', buf')) :
    Formed (buffers s') := by
  choose wrote hwrote using h.send
  intro id
  refine ⟨wrote id, fun b hb => ?_⟩
  obtain ⟨stream, hs, rfl⟩ := Option.map_eq_some_iff.mp hb
  exact StreamsState.streamTurn_buffers ht hwrote id stream hs

theorem Writes.formed {ms : List StreamMeta} (h : Formed (buffers s)) (hw : Writes s ms s') :
    Formed (buffers s') := by
  rcases hw with ⟨-, rfl⟩ | ⟨buf, buf', hw⟩
  · exact h
  · exact StreamsState.writeStreamFrames_inv (I := fun _ s _ => Formed (buffers s))
      (fun _ _ _ _ _ _ hI _ ht => streamTurn_formed hI ht) h
      (StreamsState.TurnsMeet.trivial true _ s buf) hw

end Formed

theorem Move.formed {c c' : Connection} (h : Move c c') (hc : Formed c.core.buffers) :
    Formed c'.core.buffers := by
  cases h with
  | quiet h => rwa [h.1]
  | received id n now h _ => rwa [h]
  | acked id pn h =>
      rcases ackOne_ok h with ⟨rfl, -⟩ | ⟨packet, s, hr, hs, -⟩
      · exact hc
      · rw [hr.core]
        exact run_inv (I := fun s => Formed (buffers s)) (fun _ _ _ h _ he => receivedAckOf_formed h he) hc
          (Meets.trivial _ _ _) hs
  | lost now id p hp h =>
      obtain ⟨s, hr, hs, -⟩ := loseOne_ok hp h
      rw [hr.core]
      exact run_inv (I := fun s => Formed (buffers s)) (fun _ _ _ h _ he => retransmit_formed h he) hc
        (Meets.trivial _ _ _) hs
  | discarded id h => rwa [(discardSpace_ok h).2.1]
  | composed now close id ackEliciting h =>
      obtain ⟨p, -, -, -, hw, hk, -⟩ := composePacket_ok h
      rw [hk]
      exact Writes.formed hc hw
  | sent t =>
      rcases c.sendOne_ok t with ⟨-, e⟩ | ⟨p, queue, -, hk, -⟩
      · rwa [e]
      · rwa [hk]

end Connection

open Connection

/-- **Every step keeps the buffers well formed.** -/
theorem connectionStep_formed (c : Connection) (op : ConnectionOp) (c' : Connection)
    (hc : Formed c.core.buffers) (h : connectionStep c op = .ok c') : Formed c'.core.buffers := by
  by_cases hop : op.creates = false
  · exact Moves.inv (I := fun x => Formed x.core.buffers) (fun _ _ hm => hm.formed)
      (connectionStep_moves hop h) hc
  have hc : Formed (buffers c.streams) := hc
  cases op with
  | openStream dir =>
      obtain ⟨⟨id, c₁⟩, h1, h⟩ := Checked.bind_eq_ok.mp h
      cases h
      unfold openStream at h1
      split_ifs at h1
      cases h1
      exact hc.setSend (c.streams.open_send dir) SendBuffer.WF.default
  | write id data =>
      obtain ⟨u, -, h⟩ := Checked.bind_eq_ok.mp h
      cases h
      obtain ⟨W, hW⟩ : ∃ W, ((c.streams.send id).getD Send.default).pending.WF W := by
        cases hs : c.streams.send id with
        | none => exact ⟨[], SendBuffer.WF.default⟩
        | some stream =>
            obtain ⟨W, hW⟩ := hc.send id
            exact ⟨W, hW stream hs⟩
      rcases StreamsState.write_send (Prod.eta _).symm with ⟨-, e | e⟩ | ⟨-, -, e⟩
      · show Formed (buffers _)
        rw [buffers_congr e]
        exact hc
      · exact hc.setSend e hW
      · exact hc.setSend e (hW.write data)
  | _ => exact absurd rfl hop

theorem formed_new (now : Instant) (side : Side) : Formed (Connection.new now side).core.buffers := by
  intro id
  refine ⟨[], fun b hb => ?_⟩
  cases side <;> cases hb

end MzQuic
