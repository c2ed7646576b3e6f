import MzQuic.Stream.Moves

/-!
# The queue of the streams with something to send (`core/src/connection/stream/state.rs`)

A stream is queued when it begins to have something to send, by a test of `is_pending` before each
change; `write_stream_frames` takes an entry off the queue and puts it back if its stream has more.

* `Queued`: every stream that is ready has an entry in the queue;
* `Feeds`: an operation keeps the entries, and makes one for each stream that it makes ready. Every
  operation does but `write_stream_frames`;
* `streamTurn_queued`: one round of `write_stream_frames` keeps `Queued`, and its assertions hold;
* **`ready_streams_queued`**: in every run no stream that is ready is forgotten.
-/

namespace MzQuic

open Lib Checked

namespace StreamsState

variable {s s' : StreamsState} {id : StreamId}

/-! ## Entries -/

/-- The stream has an entry in the queue. -/
def HasEntry (s : StreamsState) (id : StreamId) : Prop := ∃ x ∈ s.pending.entries, x.id = id

/-- Every stream with something to send has an entry. -/
def Queued (s : StreamsState) : Prop := ∀ id, s.ready id = true → s.HasEntry id

theorem PendingStreamsQueue.mem_pushPending {q : PendingStreamsQueue} {priority : ℤ} {x : PendingStream} :
    x ∈ (q.pushPending id priority).entries ↔ x = ⟨priority, q.recency - 1, id⟩ ∨ x ∈ q.entries := by
  simp only [PendingStreamsQueue.pushPending, PendingStreamsQueue.entries, List.mem_append, List.mem_cons]
  exact or_left_comm

theorem hasEntry_pushPending (priority : ℤ) {i : StreamId} :
    (s.pushPending id priority).HasEntry i ↔ i = id ∨ s.HasEntry i := by
  constructor
  · rintro ⟨x, hx, rfl⟩
    rcases PendingStreamsQueue.mem_pushPending.mp hx with rfl | hx
    · exact .inl rfl
    · exact .inr ⟨x, hx, rfl⟩
  · rintro (rfl | ⟨x, hx, rfl⟩)
    · exact ⟨_, PendingStreamsQueue.mem_pushPending.mpr (.inl rfl), rfl⟩
    · exact ⟨x, PendingStreamsQueue.mem_pushPending.mpr (.inr hx), rfl⟩

/-- Taking an entry off the queue takes the entry of no other stream. -/
theorem hasEntry_of_pop {x : PendingStream} {q : PendingStreamsQueue} (h : s.pending.pop = some (x, q))
    (hne : id ≠ x.id) (hid : s.HasEntry id) : HasEntry { s with pending := q } id := by
  obtain ⟨y, hy, rfl⟩ := hid
  rcases List.mem_cons.mp ((PendingStreamsQueue.pop_perm h).mem_iff.mp hy) with rfl | hy
  · exact absurd rfl hne
  · exact ⟨y, hy, rfl⟩

/-- What `reinsert_pending` asserts holds after every `pop`. -/
theorem PendingStreamsQueue.pop_next {q q' : PendingStreamsQueue} {x : PendingStream}
    (h : q.pop = some (x, q')) : q'.next = none := by
  unfold PendingStreamsQueue.pop at h
  cases hn : q.next with
  | some y =>
      rw [hn] at h
      cases h
      rfl
  | none =>
      rw [hn] at h
      obtain ⟨p, -, he⟩ := Option.map_eq_some_iff.mp h
      cases he
      rfl

/-- **A ready stream with an entry is seen by `can_send_stream_data`.** -/
theorem Queued.canSend (h : s.Queued) (hid : s.ready id = true) : s.canSendStreamData = true := by
  obtain ⟨x, hx, rfl⟩ := h id hid
  obtain ⟨stream, hs, hr, -⟩ := ready_eq_true.mp hid
  unfold canSendStreamData
  rw [List.any_eq_true]
  exact ⟨x, hx, by simp [hs, hr]⟩

/-! ## The operations other than `write_stream_frames` -/

/-- The entries stay, and a stream that becomes ready gets one. -/
structure Feeds (s s' : StreamsState) : Prop where
  kept : ∀ id, s.HasEntry id → s'.HasEntry id
  woken : ∀ id, s'.ready id = true → s.ready id = true ∨ s'.HasEntry id

theorem Feeds.queued (h : s.Feeds s') (hq : s.Queued) : s'.Queued := by
  intro id hid
  rcases h.woken id hid with hr | he
  · exact h.kept id (hq id hr)
  · exact he

theorem Feeds.of_eq (hs : s'.send = s.send) (hq : s'.pending = s.pending) : s.Feeds s' where
  kept id hid := by
    unfold HasEntry
    rw [hq]
    exact hid
  woken id hid := by
    unfold ready at hid
    rw [hs] at hid
    exact .inl hid

theorem Feeds.refl (s : StreamsState) : s.Feeds s := .of_eq rfl rfl

theorem SameSend.feeds (h : s.SameSend s') : s.Feeds s' := .of_eq h.send h.pending

/-- A send half is replaced by one that is not ready, unless its stream was. -/
theorem Feeds.replace {e : Option Send} (hs : s'.send = Function.update s.send id e)
    (hq : s'.pending = s.pending)
    (he : ∀ stream ∈ e, stream.isReset = false → stream.isPending = true → s.ready id = true) :
    s.Feeds s' where
  kept i hi := by
    unfold HasEntry
    rw [hq]
    exact hi
  woken i hi := by
    obtain ⟨stream, hst, hr, hp⟩ := ready_eq_true.mp hi
    rw [hs] at hst
    left
    by_cases h : i = id
    · subst h
      rw [Function.update_self] at hst
      exact he stream hst hr hp
    · rw [Function.update_of_ne h] at hst
      exact ready_eq_true.mpr ⟨stream, hst, hr, hp⟩

/-- **The test before a change**: the stream is queued unless it was pending, so that it is queued in
any case. -/
theorem Feeds.wake {stream stream' : Send} (hst : stream = (s.send id).getD Send.default)
    (hr : stream.isReset = false) : s.Feeds (s.wake id stream stream') := by
  unfold StreamsState.wake
  cases hp : stream.isPending with
  | false =>
      have hentry : ∀ i, ((s.setSend id (some stream')).pushPending id stream'.priority).HasEntry i ↔
          i = id ∨ s.HasEntry i := fun i => hasEntry_pushPending stream'.priority
      refine ⟨fun i hi => (hentry i).mpr (.inr hi), fun i hi => ?_⟩
      by_cases h : i = id
      · exact .inr ((hentry i).mpr (.inl h))
      · have hi' : ((s.setSend id (some stream')).send i).any (fun x => !x.isReset && x.isPending) = true := hi
        rw [setSend_send, Function.update_of_ne h] at hi'
        exact .inl hi'
  | true =>
      refine Feeds.replace rfl rfl fun _ _ _ _ => ?_
      cases hs : s.send id with
      | none =>
          rw [hst, hs] at hp
          cases hp
      | some x =>
          rw [hs, Option.getD_some] at hst
          subst hst
          exact ready_eq_true.mpr ⟨stream, hs, hr, hp⟩

theorem open_feeds (s : StreamsState) (dir : Dir) : s.Feeds (s.open dir).2 := by
  refine Feeds.replace (s.open_send dir) ?_ fun stream hs _ hp => ?_
  · unfold «open»
    cases dir <;> rfl
  · cases hs
    cases hp

theorem write_feeds (s : StreamsState) (closed : Bool) (id : StreamId) (data : Bytes) :
    s.Feeds (s.write closed id data).2 := by
  obtain ⟨-, h | h⟩ | ⟨-, -, hst, h⟩ := write_cases (Prod.eta (s.write closed id data)).symm
  · rw [h]
    exact .refl s
  · rw [h]
    refine Feeds.replace rfl rfl fun stream hs hr hp => ?_
    cases hs
    cases hs : s.send id with
    | none =>
        rw [hs] at hp
        cases hp
    | some stream =>
        rw [hs] at hr hp
        exact ready_eq_true.mpr ⟨stream, hs, hr, hp⟩
  · rw [h]
    exact .wake rfl (by rw [Send.isReset, hst]; rfl)

theorem finish_feeds (s : StreamsState) (id : StreamId) : s.Feeds (s.finish id).2 := by
  obtain ⟨-, h⟩ | ⟨stream, -, hs, hst, -, h⟩ := finish_cases (Prod.eta (s.finish id)).symm
  · rw [h]
    exact .refl s
  · rw [h]
    exact .wake (by rw [hs, Option.getD_some]) (by rw [Send.isReset, hst]; rfl)

theorem reset_feeds (s : StreamsState) (pending : Retransmits) (errorCode : ℕ) :
    s.Feeds (s.reset pending id errorCode).2.1 := by
  obtain h | ⟨stream, -, h⟩ := s.reset_cases pending id errorCode
  · rw [h]
    exact .refl s
  · rw [h]
    refine Feeds.replace rfl rfl fun x hx hr _ => ?_
    cases hx
    cases hr

theorem resetAcked_feeds (s : StreamsState) : s.Feeds (s.resetAcked id) := by
  obtain h | ⟨stream, -, -, h⟩ := s.resetAcked_cases id
  · rw [h]
    exact .refl s
  · rw [h]
    exact Feeds.replace rfl rfl fun x hx => by cases hx

theorem setPriority_feeds (s : StreamsState) (priority : ℤ) : s.Feeds (s.setPriority id priority).2 := by
  obtain h | ⟨stream, hs, h⟩ := s.setPriority_cases id priority
  · rw [h]
    exact .refl s
  · rw [h]
    refine Feeds.replace rfl rfl fun x hx hr hp => ?_
    cases hx
    exact ready_eq_true.mpr ⟨stream, hs, hr, hp⟩

theorem receivedStopSending_feeds (s : StreamsState) (frame : StopSending) :
    s.Feeds (s.receivedStopSending frame).2 := by
  obtain ⟨-, -, h⟩ | ⟨-, -, ⟨-, h⟩ | ⟨stream, hs, ⟨-, h⟩ | ⟨code, -, h⟩⟩⟩ := s.receivedStopSending_cases frame
  · exact .of_eq (by rw [h]) (by rw [h])
  · exact .of_eq (by rw [h]; rfl) (by rw [h]; rfl)
  · rw [h]
    refine Feeds.replace rfl rfl fun x hx hr hp => ?_
    cases hx
    exact ready_eq_true.mpr ⟨stream, hs, hr, hp⟩
  · rw [h]
    refine Feeds.replace rfl rfl fun x hx hr hp => ?_
    cases hx
    exact ready_eq_true.mpr ⟨stream, hs, hr, hp⟩

/-- An acknowledgement leaves alone what is still to be sent. -/
theorem ack_hasUnsentData {b b' : SendBuffer} {r : Range} (h : b.ack r = .ok b') :
    b'.hasUnsentData = b.hasUnsentData := by
  unfold SendBuffer.ack at h
  obtain ⟨base, -, h⟩ := Checked.bind_eq_ok.mp h
  obtain ⟨⟨freed, segs⟩, -, h⟩ := Checked.bind_eq_ok.mp h
  obtain ⟨n, -, h⟩ := Checked.bind_eq_ok.mp h
  cases h
  rfl

theorem receivedAckOf_feeds {m : StreamMeta} (h : s.receivedAckOf m = .ok s') : s.Feeds s' := by
  obtain ⟨rfl, -⟩ | ⟨stream, pending, hs, hlive, hp, ⟨-, rfl⟩ | rfl⟩ := receivedAckOf_cases h
  · exact .refl s'
  · exact .replace rfl rfl fun x hx => by cases hx
  · refine .replace rfl rfl fun x hx hr hpend => ?_
    cases hx
    refine ready_eq_true.mpr ⟨stream, hs, by simpa [Send.isReset] using hlive, ?_⟩
    unfold Send.isPending at hpend ⊢
    rwa [ack_hasUnsentData hp] at hpend

theorem retransmit_feeds {m : StreamMeta} (h : s.retransmit m = .ok s') : s.Feeds s' := by
  obtain ⟨rfl, -⟩ | ⟨stream, pending, hs, hlive, -, rfl⟩ := retransmit_cases h
  · exact .refl s'
  · exact .wake (by rw [hs, Option.getD_some]) (by simpa [Send.isReset] using hlive)

/-! ## `write_stream_frames` -/

/-- The stream whose entry was taken off the queue gets it back if it has more to send. -/
theorem sendTurn_queued {fair : Bool} {buf buf' : BufMut} {t : Turn} {stream : Send}
    (hq : ∀ i ≠ id, s.ready i = true → s.HasEntry i) (h : sendTurn fair s buf id stream = .ok (t, s', buf')) :
    s'.Queued := by
  -- every other stream is as before
  have hother : ∀ {stream' : Send} {i : StreamId}, i ≠ id → (s.setSend id (some stream')).ready i = true →
      s.HasEntry i := by
    intro stream' i hi hr
    refine hq i hi ?_
    unfold ready at hr ⊢
    rwa [setSend_send, Function.update_of_ne hi] at hr
  unfold sendTurn at h
  obtain ⟨⟨⟨range, enc⟩, pending⟩, -, h⟩ := Checked.bind_eq_ok.mp h
  dsimp only at h
  have hpush : ∀ (stream' : Send) (priority : ℤ),
      ((s.setSend id (some stream')).pushPending id priority).Queued := by
    intro stream' priority i hi
    refine (hasEntry_pushPending priority).mpr ?_
    by_cases hne : i = id
    · exact .inl hne
    · exact .inr (hother hne hi)
  by_cases hstop : (range.isEmpty &&
      !(stream.finPending && decide (range.end = pending.offset))) = true
  · rw [if_pos hstop] at h
    cases h
    exact hpush _ _
  · rw [if_neg hstop] at h
    obtain ⟨buf₁, -, h⟩ := Checked.bind_eq_ok.mp h
    obtain ⟨buf₂, -, h⟩ := Checked.bind_eq_ok.mp h
    split_ifs at h with hmore hfair
    · cases h
      intro i hi
      by_cases hne : i = id
      · subst hne
        obtain ⟨x, hx, -, hp⟩ := ready_eq_true.mp hi
        rw [setSend_send, Function.update_self] at hx
        cases hx
        rw [hp] at hmore
        cases hmore
      · exact hother hne hi
    · cases h
      exact hpush _ _
    · obtain ⟨q, hre, h⟩ := Checked.bind_eq_ok.mp h
      cases h
      obtain ⟨u, hnext, hre⟩ := Checked.bind_eq_ok.mp hre
      cases hre
      intro i hi
      by_cases hne : i = id
      · exact ⟨_, List.mem_append_left _ (List.mem_singleton.mpr rfl), hne.symm⟩
      · obtain ⟨x, hx, hid⟩ := hother hne hi
        have hnone : s.pending.next = none := Option.isNone_iff_eq_none.mp (Checked.assert_eq_ok.mp hnext)
        refine ⟨x, List.mem_append_right _ ?_, hid⟩
        rwa [PendingStreamsQueue.entries, hnone] at hx

/-- **One round keeps every ready stream in the queue.** -/
theorem streamTurn_queued {fair : Bool} {buf buf' : BufMut} {t : Turn} (hq : s.Queued)
    (h : streamTurn fair s buf = .ok (t, s', buf')) : s'.Queued := by
  unfold streamTurn at h
  by_cases hroom : buf.remainingMut < Stream.sizeBound
  · rw [if_pos hroom] at h
    cases h
    exact hq
  rw [if_neg hroom] at h
  cases hp : s.pending.pop with
  | none =>
      rw [hp] at h
      cases h
      exact hq
  | some p =>
      obtain ⟨x, q⟩ := p
      rw [hp] at h
      dsimp only at h
      have hother : ∀ i ≠ x.id, ready { s with pending := q } i = true → HasEntry { s with pending := q } i :=
        fun i hi hr => hasEntry_of_pop hp hi (hq i hr)
      -- a stream that is skipped is not ready
      have hskip : s.ready x.id = false → Queued { s with pending := q } := by
        intro hx i hi
        refine hother i (fun hne => ?_) hi
        subst hne
        exact absurd (hx.symm.trans hi) Bool.false_ne_true
      cases hs : s.send x.id with
      | none =>
          rw [hs] at h
          cases h
          exact hskip (by simp [ready, hs])
      | some stream =>
          rw [hs] at h
          dsimp only at h
          split_ifs at h with hr hpend
          · cases h
            exact hskip (by simp [ready, hs, hr])
          · cases h
            exact hskip (by simpa [ready, hs] using fun _ => by simpa using hpend)
          · exact sendTurn_queued hother h

/-! `write_stream_frames` polls with room for a frame, and puts an entry back only after taking one off:
its assertions hold. -/

theorem streamMeta_asserts (m : StreamMeta) (length : Bool) (out : BufMut) :
    Avoids .assertion (m.encode length out) fun _ => True := by
  have hput : ∀ (v : ℕ) (out : BufMut), Avoids .assertion (putVarint v out) fun _ => True := by
    intro v out
    by_cases hv : v < 2 ^ 62
    · exact (appends_putVarint hv).avoids (by decide) out
    · rw [putVarint_eq_error (by omega)]
      exact .error (by decide)
  unfold StreamMeta.encode
  refine (hput _ _).bind fun out₁ _ => (hput _ _).bind fun out₂ _ => ?_
  refine Avoids.bind (Q := fun _ => True) (.ite (fun _ => hput _ _) fun _ => .ok trivial) fun out₃ _ => ?_
  exact .ite (fun _ => (avoids_sub (by decide) _ _).bind fun _ _ => hput _ _) fun _ => .ok trivial

theorem sendTurn_asserts {fair : Bool} {buf : BufMut} {stream : Send}
    (hroom : Stream.sizeBound ≤ buf.remainingMut) (hnext : s.pending.next = none) :
    Avoids .assertion (sendTurn fair s buf id stream) fun _ => True := by
  have hm : 16 ≤ buf.remainingMut := le_trans (by decide) hroom
  unfold sendTurn
  refine (SendBuffer.pollTransmit_avoids (by decide) (by decide) hm).and_eq.bind
    fun ⟨⟨range, enc⟩, pending⟩ hp => ?_
  obtain ⟨-, hclamp, hstart, -⟩ := SendBuffer.pollTransmit_ok hp.2
  have hse : range.start ≤ range.end := by
    rw [hstart]
    exact (clampNew_ok hclamp).1
  refine .ite (fun _ => .ok trivial) fun _ => (streamMeta_asserts _ _ _).bind fun buf₁ _ => ?_
  refine Avoids.bind (Q := fun _ => True) ?_ fun buf₂ _ => ?_
  · refine .ite (fun _ => .ok trivial) fun _ => (SendBuffer.get_avoids (by decide) hse).bind fun data _ => ?_
    exact (appends_putSlice data).avoids (by decide) buf₁
  · refine .ite (fun _ => .ok trivial) fun _ => .ite (fun _ => .ok trivial) fun _ => ?_
    unfold PendingStreamsQueue.reinsertPending
    have hnone : (s.setSend id (some { stream with
        pending := pending
        finPending := stream.finPending && !(stream.finPending && decide (range.end = pending.offset)) })
          ).pending.next.isNone := Option.isNone_iff_eq_none.mpr hnext
    rw [Checked.assert_of hnone]
    exact .ok trivial

theorem writeStreamFrames_asserts (fair : Bool) (s : StreamsState) (buf : BufMut) :
    Avoids .assertion (s.writeStreamFrames buf fair) fun _ => True :=
  writeStreamFrames_avoids (fun _ _ _ => streamTurn_avoids fun hroom _ _ hpop _ _ _ _ =>
    sendTurn_asserts hroom (PendingStreamsQueue.pop_next hpop)) (TurnsMeet.trivial ..)

end StreamsState

/-! ## Runs -/

/-- **One operation keeps every ready stream in the queue.** -/
theorem streamsStep_queued (r : StreamsRun) (op : StreamsOp) (r' : StreamsRun) (hq : r.state.Queued)
    (_ : True) (h : streamsStep r op = .ok r') : r'.state.Queued := by
  cases op with
  | «open» dir =>
      cases h
      exact (r.state.open_feeds dir).queued hq
  | write closed id data =>
      rw [streamsStep_write h]
      exact (r.state.write_feeds closed id data).queued hq
  | finish id =>
      rw [streamsStep_finish h]
      exact (r.state.finish_feeds id).queued hq
  | reset id errorCode =>
      cases h
      exact (r.state.reset_feeds {} errorCode).queued hq
  | setPriority id priority =>
      cases h
      exact (r.state.setPriority_feeds priority).queued hq
  | read | stop | takeReset | received | receivedReset => exact (streamsStep_sameSend h rfl).feeds.queued hq
  | receivedStopSending frame =>
      cases h
      exact (r.state.receivedStopSending_feeds frame).queued hq
  | resetAcked id =>
      cases h
      exact r.state.resetAcked_feeds.queued hq
  | writeStreamFrames buf fair =>
      obtain ⟨⟨metas, s, buf'⟩, hw, h⟩ := Checked.bind_eq_ok.mp h
      cases h
      exact StreamsState.writeStreamFrames_inv (I := fun _ s _ => s.Queued)
        (fun _ _ _ _ _ _ hI _ ht => StreamsState.streamTurn_queued hI ht) hq
        (StreamsState.TurnsMeet.trivial ..) hw
  | receivedAckOf m =>
      obtain ⟨s, hs, h⟩ := Checked.bind_eq_ok.mp h
      cases h
      exact (StreamsState.receivedAckOf_feeds hs).queued hq
  | retransmit m =>
      obtain ⟨s, hs, h⟩ := Checked.bind_eq_ok.mp h
      cases h
      exact (StreamsState.retransmit_feeds hs).queued hq

/-- **No stream with something to send is forgotten.** In every state of every run, each stream that is
not reset and has unsent data, a retransmission or a FIN to send has an entry in the queue, so that
`can_send_stream_data` is true; and no assertion fails in `write_stream_frames`. -/
theorem ready_streams_queued (side : Side) (ops : List StreamsOp) {r : StreamsRun}
    (h : run streamsStep (StreamsRun.new side) ops = .ok r) :
    (∀ id, ∀ stream ∈ r.state.send id, stream.isReset = false → stream.isPending = true →
      (∃ x ∈ r.state.pending.entries, x.id = id) ∧ r.state.canSendStreamData = true) ∧
    ∀ buf fair, r.state.writeStreamFrames buf fair ≠ .error .assertion := by
  have hq : r.state.Queued := by
    refine run_inv streamsStep_queued (fun id hid => ?_) (Meets.trivial _ _ _) h
    cases hid
  refine ⟨fun id stream hs hr hp => ?_, fun buf fair => ?_⟩
  · have hready : r.state.ready id = true := StreamsState.ready_eq_true.mpr ⟨stream, hs, hr, hp⟩
    exact ⟨hq id hready, hq.canSend hready⟩
  · exact (StreamsState.writeStreamFrames_asserts fair r.state buf).1

/-- A stream that does not fit as a whole is put back at the front; when its rest is sent and its first
part is lost, it is queued again. -/
theorem ready_streams_queued_lost : ∃ ops r, run streamsStep (StreamsRun.new .client) ops = .ok r ∧
    .retransmit ⟨⟨2⟩, ⟨0, 22⟩, false⟩ ∈ ops ∧ r.state.ready ⟨2⟩ = true ∧
    (∀ id, ∀ stream ∈ r.state.send id, stream.isReset = false → stream.isPending = true →
      (∃ x ∈ r.state.pending.entries, x.id = id) ∧ r.state.canSendStreamData = true) ∧
    ∀ buf fair, r.state.writeStreamFrames buf fair ≠ .error .assertion := by
  let ops : List StreamsOp := [.open .uni, .write false ⟨2⟩ (List.replicate 25 7),
    .writeStreamFrames (.withCapacity 30) false, .writeStreamFrames (.withCapacity 100) false,
    .retransmit ⟨⟨2⟩, ⟨0, 22⟩, false⟩]
  exact ⟨ops, _, rfl, by simp [ops], by decide, ready_streams_queued .client ops rfl⟩

end MzQuic
