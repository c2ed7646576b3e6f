import MzQuic.Stream.Moves

/-!
# What the streams send, along whole runs

* **`fin_kept`**: the FIN of a finished stream is pending, in flight or acknowledged, as long as no
  frame with a FIN is lost;
* **`stream_frames_carry`**: `write_stream_frames` writes frames that are read back with the bytes
  the application wrote, as long as no range it sends crosses the border of two writes.
-/

namespace MzQuic

open Lib

/-! ## The FIN -/

/-- The FIN of each finished stream that is not reset is somewhere. -/
def StreamsRun.FinKept (r : StreamsRun) : Prop :=
  ∀ id ∈ r.finished, ∀ stream, r.state.send id = some stream → stream.state ≠ .resetSent →
    stream.finPending = true ∨ (∃ m ∈ r.flight, m.id = id ∧ m.fin = true) ∨
      stream.state = .dataSent true

/-- A lost frame with a FIN belongs to a stream that is gone or reset. -/
def StreamsOp.KeepsFin (r : StreamsRun) : StreamsOp → Prop
  | .retransmit m => m.fin = true → ∀ stream ∈ r.state.send m.id, stream.state = .resetSent
  | _ => True

instance (r : StreamsRun) : ∀ op : StreamsOp, Decidable (op.KeepsFin r)
  | .retransmit m => inferInstanceAs
      (Decidable (m.fin = true → ∀ stream ∈ r.state.send m.id, stream.state = .resetSent))
  | .open _ | .write .. | .finish _ | .reset .. | .setPriority .. | .read .. | .stop ..
  | .takeReset _ | .received .. | .receivedReset _ | .receivedStopSending _ | .resetAcked _
  | .writeStreamFrames .. | .receivedAckOf _ => .isTrue trivial

/-- What the invariant says of the entry `e` of the stream `id`. -/
structure FinAt (flight : List StreamMeta) (finished : List StreamId) (id : StreamId)
    (e : Option Send) : Prop where
  fin : ∀ stream ∈ e, ∀ fa, stream.state = .dataSent fa →
    stream.finPending = true ∨ fa = true ∨ ∃ m ∈ flight, m.id = id ∧ m.fin = true
  done : id ∈ finished → ∃ stream ∈ e, stream.state ≠ .ready

section FinAt

variable {flight flight' : List StreamMeta} {finished finished' : List StreamId} {id : StreamId}
  {e : Option Send}

theorem FinAt.mono (h : FinAt flight finished id e)
    (hf : ∀ m ∈ flight, m.id = id → m.fin = true → m ∈ flight') (hd : finished' ⊆ finished) :
    FinAt flight' finished' id e where
  fin stream hs fa hfa := by
    rcases h.fin stream hs fa hfa with h | h | ⟨m, hm, h1, h2⟩
    · exact .inl h
    · exact .inr (.inl h)
    · exact .inr (.inr ⟨m, hf m hm h1 h2, h1, h2⟩)
  done hid := h.done (hd hid)

/-- An entry may be changed in anything but its state and its FIN. -/
theorem FinAt.congr {stream stream' : Send} (h : FinAt flight finished id (some stream))
    (hst : stream'.state = stream.state) (hf : stream'.finPending = stream.finPending) :
    FinAt flight finished id (some stream') where
  fin x hx fa hfa := by
    cases hx
    rw [hf]
    exact h.fin stream rfl fa (by rw [← hst, hfa])
  done hid := by
    obtain ⟨x, hx, hne⟩ := h.done hid
    cases hx
    exact ⟨stream', rfl, by rwa [hst]⟩

theorem FinAt.reset {stream : Send} :
    FinAt flight finished id (some { stream with state := .resetSent }) where
  fin x hx fa hfa := by
    cases hx
    cases hfa
  done _ := ⟨_, rfl, by simp⟩

theorem FinAt.fresh (hid : id ∉ finished) (stream : Send) (hs : stream.state = .ready) :
    FinAt flight finished id (some stream) where
  fin x hx fa hfa := by
    cases hx
    rw [hs] at hfa
    cases hfa
  done h := absurd h hid

theorem mem_erase_of_fin {m x : StreamMeta} (hm : m.fin = false) (hx : x ∈ flight)
    (hf : x.fin = true) : x ∈ flight.erase m :=
  (List.mem_erase_of_ne fun h => by rw [h, hm] at hf; cases hf).mpr hx

/-- The acknowledgement of a FIN is recorded in the state. -/
theorem FinAt.acked {stream : Send} {m : StreamMeta} {pending : SendBuffer}
    (h : FinAt flight finished id (some stream)) (hd : finished' ⊆ finished) :
    FinAt (flight.erase m) finished' id (some (stream.acked m pending)) where
  fin x hx fa hfa := by
    cases hx
    unfold Send.acked at hfa ⊢
    cases hst : stream.state with
    | ready => simp [hst] at hfa
    | resetSent => simp [hst] at hfa
    | dataSent a =>
        obtain rfl : (a || m.fin) = fa := by simpa [hst] using hfa
        cases hm : m.fin with
        | true => exact .inr (.inl (by simp))
        | false =>
            rcases h.fin stream rfl a hst with h | rfl | ⟨x, hx, h1, h2⟩
            · exact .inl h
            · exact .inr (.inl rfl)
            · exact .inr (.inr ⟨x, mem_erase_of_fin hm hx h2, h1, h2⟩)
  done hid := by
    obtain ⟨x, hx, hne⟩ := h.done (hd hid)
    cases hx
    refine ⟨_, rfl, ?_⟩
    cases hst : stream.state with
    | ready => exact absurd hst hne
    | resetSent => simp [Send.acked, hst]
    | dataSent a => simp [Send.acked, hst]

/-- The invariant asks nothing of an entry that is reset. -/
theorem FinAt.of_reset (h : FinAt flight finished id e) (hr : ∀ stream ∈ e, stream.state = .resetSent)
    (hd : finished' ⊆ finished) : FinAt flight' finished' id e where
  fin stream hs fa hfa := by
    rw [hr stream hs] at hfa
    cases hfa
  done hid := h.done (hd hid)

theorem FinAt.gone (hid : id ∉ finished) : FinAt flight finished id none where
  fin x hx := by cases hx
  done h := absurd h hid

/-- A table in which the invariant holds of every entry, with one entry replaced. -/
theorem FinAt.update {f : StreamId → Option Send} (h : ∀ i, FinAt flight finished i (f i))
    (he : FinAt flight finished id e) (i : StreamId) :
    FinAt flight finished i (Function.update f id e i) :=
  (Function.forall_update_iff f fun i x => FinAt flight finished i x).mpr ⟨he, fun i _ => h i⟩ i

end FinAt

/-- The invariant. -/
def StreamsRun.FinInv (r : StreamsRun) : Prop :=
  ∀ id, FinAt r.flight r.finished id (r.state.send id)

theorem StreamsRun.FinInv.entry {r : StreamsRun} (hI : r.FinInv) {id : StreamId} {stream : Send}
    (he : r.state.send id = some stream) : FinAt r.flight r.finished id (some stream) := by
  rw [← he]
  exact hI id

theorem mem_present {s : StreamsState} {l : List StreamId} {id : StreamId} :
    id ∈ s.present l ↔ id ∈ l ∧ (s.send id).isSome := List.mem_filter

/-- A send half that is gone leaves the list of the finished streams. -/
theorem notMem_present {f : StreamId → Option Send} {s : StreamsState} {id : StreamId} {l : List StreamId}
    (hs : s.send = Function.update f id none) : id ∉ s.present l := by
  intro hid
  rw [mem_present, hs, Function.update_self] at hid
  exact absurd hid.2 (by simp)

theorem mem_erase_of_id {flight : List StreamMeta} {i : StreamId} {m : StreamMeta} (hi : i ≠ m.id)
    (x : StreamMeta) (hx : x ∈ flight) (hid : x.id = i) (_ : x.fin = true) : x ∈ flight.erase m :=
  (List.mem_erase_of_ne fun h => hi (by rw [← hid, h])).mpr hx

/-- A round of the loop moves a FIN from the stream to a frame in flight, or leaves it. -/
theorem streamTurn_finAt {fair : Bool} {s s' : StreamsState} {buf buf' : BufMut}
    {t : StreamsState.Turn} {flight : List StreamMeta} {finished : List StreamId}
    (h : StreamsState.streamTurn fair s buf = .ok (t, s', buf'))
    (hI : ∀ id, FinAt flight finished id (s.send id)) (id : StreamId) :
    FinAt (flight ++ t.metas) finished id (s'.send id) := by
  obtain ⟨hmetas, hs⟩ | ⟨m, stream, enc, hp, hms⟩ := StreamsState.streamTurn_polls h
  · rw [hmetas, List.append_nil, hs]
    exact hI id
  · -- the FIN goes to `m` if it goes
    have hm : m.fin = true → m ∈ t.metas := by
      intro hf
      obtain hms | ⟨-, hf'⟩ := hms
      · rw [hms]
        exact List.mem_singleton_self m
      · rw [hf] at hf'
        cases hf'
    rw [hp.send]
    refine FinAt.update (fun i => (hI i).mono (fun x hx _ _ => List.mem_append_left _ hx)
      (List.Subset.refl _)) ⟨fun x hx fa hfa => ?_, fun hid => ?_⟩ id
    · cases hx
      cases hf : m.fin with
      | true => exact .inr (.inr ⟨m, List.mem_append_right _ (hm hf), rfl, hf⟩)
      | false =>
          rcases (hI m.id).fin stream hp.entry fa hfa with h | h | ⟨m', h, h1, h2⟩
          · exact .inl (by simp [Send.polled, h])
          · exact .inr (.inl h)
          · exact .inr (.inr ⟨m', List.mem_append_left _ h, h1, h2⟩)
    · obtain ⟨x, hx, hne⟩ := (hI m.id).done hid
      rw [hp.entry] at hx
      cases hx
      exact ⟨_, rfl, hne⟩

namespace StreamsRun.FinInv

variable {r : StreamsRun} {s : StreamsState} {id : StreamId} {stream : Send} {m : StreamMeta}

/-- One entry is replaced. -/
theorem put {e : Option Send} (hI : r.FinInv) (hs : s.send = Function.update r.state.send id e)
    (he : FinAt r.flight r.finished id e) (i : StreamId) : FinAt r.flight r.finished i (s.send i) := by
  rw [hs]
  exact FinAt.update hI he i

theorem opened (hI : r.FinInv) (dir : Dir) (i : StreamId) : FinAt r.flight
    (r.finished.filter (· ≠ (r.state.open dir).1)) i ((r.state.open dir).2.send i) := by
  rw [StreamsState.open_send]
  refine FinAt.update (fun i => (hI i).mono (fun m hm _ _ => hm) (List.filter_subset_self _)) ?_ i
  exact FinAt.fresh (by simp) _ rfl

/-- The entry that a write finds or makes; no finished stream has one that it makes. -/
theorem getD (hI : r.FinInv) (id : StreamId) :
    FinAt r.flight r.finished id (some ((r.state.send id).getD Send.default)) := by
  cases he : r.state.send id with
  | some stream =>
      rw [Option.getD_some, ← he]
      exact hI id
  | none =>
      refine FinAt.fresh (fun hid => ?_) _ rfl
      obtain ⟨x, hx, -⟩ := (hI id).done hid
      rw [he] at hx
      cases hx

theorem finish (hI : r.FinInv) (hs : s.send = Function.update r.state.send id
      (some { stream with state := .dataSent false, finPending := true })) (i : StreamId) :
    FinAt r.flight (id :: r.finished) i (s.send i) := by
  rw [hs]
  by_cases hi : i = id
  · subst hi
    rw [Function.update_self]
    exact ⟨fun x hx fa _ => by cases hx; exact .inl rfl, fun _ => ⟨_, rfl, by simp⟩⟩
  · rw [Function.update_of_ne hi]
    exact ⟨(hI i).fin, fun hid => (hI i).done ((List.mem_cons.mp hid).resolve_left hi)⟩

theorem dropped (hI : r.FinInv) (hs : s.send = Function.update r.state.send id none) (i : StreamId) :
    FinAt r.flight (s.present r.finished) i (s.send i) := by
  have hgone : id ∉ s.present r.finished := notMem_present hs
  rw [hs]
  exact FinAt.update (fun i => (hI i).mono (fun m hm _ _ => hm) (List.filter_subset_self _)) (.gone hgone) i

theorem sent (hI : r.FinInv) {buf buf' : BufMut} {fair : Bool} {metas : List StreamMeta}
    (hw : r.state.writeStreamFrames buf fair = .ok (metas, s, buf')) (i : StreamId) :
    FinAt (r.flight ++ metas) r.finished i (s.send i) := by
  refine StreamsState.writeStreamFrames_inv
    (I := fun ms s _ => ∀ id, FinAt (r.flight ++ ms) r.finished id (s.send id))
    (fun ms s b t s' b' hI _ ht => ?_) (fun id => by simpa using hI id)
    (StreamsState.TurnsMeet.trivial ..) hw i
  rw [← List.append_assoc]
  exact streamTurn_finAt ht hI

section Resolved

variable {finished : List StreamId} (hI : r.FinInv) (hf : finished ⊆ r.finished)
include hI hf

/-- A frame leaves the flight, and the entry of its stream is replaced. -/
theorem resolved {e : Option Send} (hs : s.send = Function.update r.state.send m.id e)
    (he : FinAt (r.flight.erase m) finished m.id e) (i : StreamId) :
    FinAt (r.flight.erase m) finished i (s.send i) := by
  rw [hs]
  exact (Function.forall_update_iff _ _).mpr ⟨he, fun i hi => (hI i).mono (mem_erase_of_id hi) hf⟩ i

/-- A frame of a stream that is gone or reset leaves the flight. -/
theorem ignored (hg : r.state.Gone m.id) (i : StreamId) :
    FinAt (r.flight.erase m) finished i (r.state.send i) := by
  by_cases hi : i = m.id
  · subst hi
    exact (hI m.id).of_reset hg hf
  · exact (hI i).mono (mem_erase_of_id hi) hf

end Resolved

/-- A frame of a live stream is lost, so it has no FIN. -/
theorem lost {pending : SendBuffer} (hI : r.FinInv) (hk : (StreamsOp.retransmit m).KeepsFin r)
    (he : r.state.send m.id = some stream) (hlive : stream.state ≠ .resetSent) :
    FinAt (r.flight.erase m) r.finished m.id (some { stream with pending := pending }) := by
  have hf : m.fin = false := by
    by_contra hf
    exact hlive (hk (by simpa using hf) _ he)
  exact ((hI.entry he).mono (fun x hx _ hxf => mem_erase_of_fin hf hx hxf) (List.Subset.refl _)).congr rfl rfl

end StreamsRun.FinInv

/-- **One operation keeps the invariant**, unless it loses a FIN. -/
theorem streamsStep_finInv (r : StreamsRun) (op : StreamsOp) (r' : StreamsRun) (hI : r.FinInv)
    (hk : op.KeepsFin r) (h : streamsStep r op = .ok r') : r'.FinInv := by
  cases streamsStep_move h with
  | same hop hs hf =>
      intro i
      dsimp only
      rw [hs]
      exact (hI i).mono (fun m hm _ _ => hm) hf
  | tuned id hop he hs hst hp hfin => exact hI.put hs ((hI.entry he).congr hst hfin)
  | opened dir => exact hI.opened dir
  | written id data hst hs => exact hI.put hs ((hI.getD id).congr rfl rfl)
  | finished id hok he hst hs => exact hI.finish hs
  | reset id errorCode he hs => exact hI.put hs .reset
  | dropped id hs => exact hI.dropped hs
  | sent buf fair hw => exact hI.sent hw
  | acked m he hlive hp hs =>
      rcases hs with hs | hs
      · exact hI.resolved (List.filter_subset_self _) hs (.gone (notMem_present hs))
      · exact hI.resolved (List.filter_subset_self _) hs ((hI.entry he).acked (List.filter_subset_self _))
  | ackIgnored m hg => exact hI.ignored (List.filter_subset_self _) hg
  | lost m he hlive hp hs => exact hI.resolved (List.Subset.refl _) hs (hI.lost hk he hlive)
  | lossIgnored m hg => exact hI.ignored (List.Subset.refl _) hg

theorem StreamsRun.finInv_new (side : Side) : (StreamsRun.new side).FinInv :=
  fun _ => .gone List.not_mem_nil

theorem StreamsRun.FinInv.kept {r : StreamsRun} (hI : r.FinInv) : r.FinKept := by
  intro id hid stream he hr
  obtain ⟨x, hx, hne⟩ := (hI id).done hid
  rw [he] at hx
  cases hx
  cases hst : stream.state with
  | ready => exact absurd hst hne
  | resetSent => exact absurd hst hr
  | dataSent fa =>
      rcases (hI id).fin stream he fa hst with h | rfl | h
      · exact .inl h
      · exact .inr (.inr rfl)
      · exact .inr (.inl h)

/-- **A FIN is not lost** along any run in which no frame with a FIN is declared lost while its
stream is still to be delivered: it is pending, in a frame in flight, or acknowledged. -/
theorem fin_kept (side : Side) (ops : List StreamsOp) {r : StreamsRun}
    (hk : Meets streamsStep (fun r op => op.KeepsFin r) (StreamsRun.new side) ops)
    (h : run streamsStep (StreamsRun.new side) ops = .ok r) : r.FinKept :=
  (run_inv streamsStep_finInv (StreamsRun.finInv_new side) hk h).kept

/-- One stream of the client: its data is lost and its FIN is acknowledged. -/
theorem fin_kept_lost_data : ∃ ops r, run streamsStep (StreamsRun.new .client) ops = .ok r ∧
    .retransmit ⟨⟨2⟩, ⟨0, 2⟩, false⟩ ∈ ops ∧ ⟨2⟩ ∈ r.finished ∧ r.FinKept := by
  let ops : List StreamsOp := [.open .uni, .write false ⟨2⟩ [1, 2],
    .writeStreamFrames (.withCapacity 100) false, .finish ⟨2⟩,
    .writeStreamFrames (.withCapacity 100) false, .retransmit ⟨⟨2⟩, ⟨0, 2⟩, false⟩,
    .receivedAckOf ⟨⟨2⟩, ⟨2, 2⟩, true⟩]
  exact ⟨ops, _, rfl, by simp [ops], by decide, fin_kept .client ops (by decide) rfl⟩

/-- A frame with the FIN is lost: `retransmit` puts its range back into the buffer and forgets the
FIN. -/
theorem fin_lost : ∃ ops, Meets streamsStep (fun r op => op.Legal r) (StreamsRun.new .client) ops ∧
    ∃ r, run streamsStep (StreamsRun.new .client) ops = .ok r ∧ ¬ r.FinKept := by
  refine ⟨[.open .uni, .write false ⟨2⟩ [1, 2], .finish ⟨2⟩,
    .writeStreamFrames (.withCapacity 100) false, .retransmit ⟨⟨2⟩, ⟨0, 2⟩, true⟩], by decide, _, rfl,
    fun h => ?_⟩
  have := h ⟨2⟩ (by decide) _ rfl (by decide)
  revert this
  decide

/-! ## The bytes on the wire -/

/-- Each send half buffers the end of what was written on its stream. -/
def StreamsRun.Buffers (r : StreamsRun) : Prop :=
  ∀ id, ∀ stream ∈ r.state.send id, stream.pending.WF (r.wrote id)

/-- A send half is made only for a stream on which nothing was written yet. -/
def StreamsOp.Fresh (r : StreamsRun) : StreamsOp → Prop
  | .open dir => r.wrote (r.state.open dir).1 = []
  | .write _ id _ => r.state.send id = none → r.wrote id = []
  | _ => True

instance (r : StreamsRun) : ∀ op : StreamsOp, Decidable (op.Fresh r)
  | .open dir => inferInstanceAs (Decidable (r.wrote (r.state.open dir).1 = []))
  | .write _ id _ =>
      decidable_of_iff ((r.state.send id).isNone → r.wrote id = []) (by simp [StreamsOp.Fresh])
  | .finish _ | .reset .. | .setPriority .. | .read .. | .stop .. | .takeReset _ | .received ..
  | .receivedReset _ | .receivedStopSending _ | .resetAcked _ | .writeStreamFrames ..
  | .receivedAckOf _ | .retransmit _ => .isTrue trivial

/-- The range that the next round sends ends in the segment in which it begins. -/
def StreamsState.Whole (s : StreamsState) (buf : BufMut) : Prop :=
  Stream.sizeBound ≤ buf.remainingMut → ∀ p ∈ s.pending.pop, ∀ stream ∈ s.send p.1.id,
    stream.state ≠ .resetSent →
      (clamped stream.pending.nextRange.start stream.pending.nextRange.end buf.remainingMut).1 ≤
        stream.pending.nextRange.start + stream.pending.rest stream.pending.nextRange.start

instance (s : StreamsState) (buf : BufMut) : Decidable (s.Whole buf) := by
  unfold StreamsState.Whole; infer_instance

/-- The frame parser reads `bytes` as one STREAM frame for each of `metas`, with the bytes that were
written at its offsets. -/
def Carries (wrote : StreamId → Bytes) (metas : List StreamMeta) (bytes : Bytes) : Prop :=
  (metas = [] ∧ bytes = []) ∨ ∃ p items, FrameParser.new bytes = .ok p ∧
    p.exhaust (bytes.length + 1) = .ok (items, true) ∧
    items.map Prod.fst = metas.map fun m => .ok (.stream (m.frame (wrote m.id)))

/-- **What a round writes**: a header with a length, and all bytes of the range. -/
theorem sent_bytes {s s' : StreamsState} {buf buf₁ buf' : BufMut} {m : StreamMeta} {stream : Send}
    {enc : Bool} {data W : Bytes} (hp : StreamsState.Polls s buf m stream enc s')
    (he : m.encode enc buf = .ok buf₁)
    (hd : StreamsState.rangeData (stream.polled m.offsets.end m.fin) m.offsets = .ok data)
    (hput : buf₁.putSlice data = .ok buf') (hW : stream.pending.WF W)
    (hwhole : (clamped stream.pending.nextRange.start stream.pending.nextRange.end
      buf.remainingMut).1 ≤
        stream.pending.nextRange.start + stream.pending.rest stream.pending.nextRange.start) :
    (m.header true ++ data).length ≤ buf.remainingMut ∧ buf' = buf.append (m.header true ++ data) ∧
      (m.frame W).data = data ∧ m.offsets.end - m.offsets.start = data.length ∧ data.length < 2 ^ 62 ∧
      m.id.val < 2 ^ 62 ∧ m.offsets.start < 2 ^ 62 ∧
      m.offsets.start ≤ m.offsets.end ∧ m.offsets.end ≤ W.length := by
  obtain ⟨hid, hs, hlen, hroom, rfl⟩ := StreamMeta.encode_ok he
  obtain ⟨hdroom, rfl⟩ := (appends_putSlice data).eq_ok hput
  obtain ⟨h16, hc, hstart, -⟩ := SendBuffer.pollTransmit_ok hp.polled
  obtain ⟨hb1, hb2⟩ := SendBuffer.nextRange_bounds hW
  obtain ⟨hse, hee⟩ := clampNew_ok hc
  rw [clampNew_eq hb1 h16 (by omega)] at hc
  have hcl := Except.ok.inj hc
  rw [hcl] at hwhole
  dsimp only at hwhole
  have hrd : data = (W.drop m.offsets.start).take (m.offsets.end - m.offsets.start) := by
    unfold StreamsState.rangeData at hd
    split_ifs at hd with hemp
    · have : m.offsets.end - m.offsets.start = 0 := by
        have := Range.isEmpty_iff.mp hemp
        omega
      rw [← Except.ok.inj hd, this, List.take_zero]
    · obtain ⟨hwf, -, -⟩ := hW.sent hse hee
      have hbase := SendBuffer.base_le_of_get hd
      rw [Send.polled, SendBuffer.get_spec hwf hbase (by omega), SendBuffer.sent_rest] at hd
      rw [← Except.ok.inj hd, hstart, Nat.min_eq_left (by omega)]
  have hdl : data.length = m.offsets.end - m.offsets.start := by
    rw [hrd, List.length_take, List.length_drop, ← hW.offset]
    omega
  -- a range without a length takes all the room that is left, and its header does not fit
  have henc : enc = true := by
    by_contra henc
    have hf : enc = false := by simpa using henc
    subst hf
    have hpos := varintSize_pos (m.ty false)
    have hoff : (if m.offsets.start ≠ 0 then varintBytes m.offsets.start else []).length =
        offsetSize m.offsets.start := by
      unfold offsetSize
      split_ifs <;> first | contradiction | simp
    have hle := offsetSize_le m.offsets.start
    unfold clamped at hcl
    split_ifs at hcl
    · simp at hcl
    · have hend := (Prod.mk.inj hcl).1
      simp only [BufMut.append, StreamMeta.header, List.length_append, length_varintBytes,
        hoff] at hdroom hroom
      rw [← hstart] at hend
      omega
  subst henc
  refine ⟨?_, BufMut.append_append .., hrd.symm, hdl.symm, by rw [hdl]; exact hlen rfl, hid, hs, by omega,
    by rw [← hW.offset]; omega⟩
  simp only [BufMut.append] at hdroom
  rw [List.length_append]
  omega

theorem streamsStep_buffers (r : StreamsRun) (op : StreamsOp) (r' : StreamsRun) (hI : r.Buffers)
    (hf : op.Fresh r) (h : streamsStep r op = .ok r') : r'.Buffers := by
  cases streamsStep_move h with
  | same hop hs hd =>
      intro i
      dsimp only
      rw [hs]
      exact hI i
  | tuned id hop he hs hst hp hfin =>
      intro i
      dsimp only
      rw [hs]
      exact StreamsState.wf_update hI (fun x hx => by cases hx; rw [hp]; exact hI id _ he) i
  | opened dir =>
      intro i
      dsimp only
      rw [StreamsState.open_send]
      refine StreamsState.wf_update hI (fun x hx => ?_) i
      cases hx
      rw [show r.wrote _ = [] from hf]
      exact SendBuffer.WF.default
  | written id data hst hs =>
      have hnew : ((r.state.send id).getD Send.default).pending.WF (r.wrote id) := by
        cases he : r.state.send id with
        | some stream => exact hI id stream he
        | none =>
            rw [hf he]
            exact SendBuffer.WF.default
      intro i stream hx
      dsimp only at hx ⊢
      rw [hs] at hx
      by_cases hi : i = id
      · subst hi
        rw [Function.update_self] at hx ⊢
        cases hx
        exact hnew.write data
      · rw [Function.update_of_ne hi] at hx ⊢
        exact hI i stream hx
  | @finished _ id stream hok he hst hs | @reset _ id errorCode stream he hs =>
      intro i
      dsimp only
      rw [hs]
      refine StreamsState.wf_update hI (fun x hx => ?_) i
      cases hx
      exact hI id stream he
  | dropped id hs =>
      intro i
      dsimp only
      rw [hs]
      exact StreamsState.wf_update hI (fun x hx => by cases hx) i
  | sent buf fair hw =>
      exact StreamsState.writeStreamFrames_inv
        (I := fun _ s _ => ∀ id, ∀ stream ∈ s.send id, stream.pending.WF (r.wrote id))
        (fun _ _ _ _ _ _ hI _ ht => StreamsState.streamTurn_buffers ht hI) hI
        (StreamsState.TurnsMeet.trivial ..) hw
  | acked m he hlive hp hs =>
      intro i
      dsimp only
      rcases hs with hs | hs
      · rw [hs]
        exact StreamsState.wf_update hI (fun x hx => by cases hx) i
      · rw [hs]
        exact StreamsState.wf_update hI (fun x hx => by cases hx; exact ((hI m.id _ he).ack hp).1) i
  | lost m he hlive hp hs =>
      intro i
      dsimp only
      rw [hs]
      exact StreamsState.wf_update hI (fun x hx => by cases hx; exact ((hI m.id _ he).retransmit hp).2.1) i
  | ackIgnored m hg | lossIgnored m hg => exact hI

/-- The frames `ms` have been written since `start`, with bytes that were written to their streams. -/
structure SentSince (wrote : StreamId → Bytes) (start : BufMut) (ms : List StreamMeta)
    (s : StreamsState) (buf : BufMut) : Prop where
  buffers : ∀ id, ∀ stream ∈ s.send id, stream.pending.WF (wrote id)
  frames : FrameParser.Wrote (ms.map fun m => .stream (m.frame (wrote m.id))) start buf
  ranges : ∀ m ∈ ms, m.offsets.start ≤ m.offsets.end ∧ m.offsets.end ≤ (wrote m.id).length

theorem streamTurn_sentSince {wrote : StreamId → Bytes} {start : BufMut} {fair : Bool}
    {ms : List StreamMeta} {s s' : StreamsState} {buf buf' : BufMut} {t : StreamsState.Turn}
    (hI : SentSince wrote start ms s buf) (hw : s.Whole buf)
    (h : StreamsState.streamTurn fair s buf = .ok (t, s', buf')) :
    SentSince wrote start (ms ++ t.metas) s' buf' := by
  have hb := StreamsState.streamTurn_buffers h hI.buffers
  rcases StreamsState.streamTurn_cases h with ⟨rfl, rfl, -⟩ | ⟨rfl, rfl, -⟩ |
    ⟨m, stream, enc, data, buf₁, rfl, ⟨x, q, hpop, hx⟩, hp, he, hd, hput, -⟩
  · rw [StreamsState.Turn.metas, List.append_nil]
    exact ⟨hb, hI.frames, hI.ranges⟩
  · rw [StreamsState.Turn.metas, List.append_nil]
    exact ⟨hb, hI.frames, hI.ranges⟩
  · have hentry : stream ∈ s.send x.id := by rw [hx]; exact hp.entry
    obtain ⟨hroom, rfl, hdata, hlen, hd62, hid, hs62, hle, hend⟩ := sent_bytes hp he hd hput
      (hI.buffers m.id stream hp.entry) (hw hp.room (x, q) hpop stream hentry hp.live)
    refine ⟨hb, ?_, fun m' hm' => ?_⟩
    · rw [StreamsState.Turn.metas, List.map_append]
      refine hI.frames.append (.single hroom fun ty tail => ⟨some ⟨m.ty true⟩, ?_⟩)
      rw [List.append_assoc, FrameParser.tryNext_stream hid hs62 hd62 hlen (.inl rfl), ← hdata]
      rfl
    · rcases List.mem_append.mp hm' with hm' | hm'
      · exact hI.ranges m' hm'
      · rw [List.mem_singleton.mp hm']
        exact ⟨hle, hend⟩

/-- **All rounds of the loop.** -/
theorem writeStreamFrames_sentSince {wrote : StreamId → Bytes} {fair : Bool} {s s' : StreamsState}
    {buf buf' : BufMut} {metas : List StreamMeta}
    (hI : ∀ id, ∀ stream ∈ s.send id, stream.pending.WF (wrote id))
    (hw : StreamsState.TurnsMeet fair StreamsState.Whole (s.writeFuel buf) s buf)
    (h : s.writeStreamFrames buf fair = .ok (metas, s', buf')) : SentSince wrote buf metas s' buf' :=
  StreamsState.writeStreamFrames_inv (fun _ _ _ _ _ _ hI hw ht => streamTurn_sentSince hI hw ht)
    ⟨hI, .nil buf, fun _ hm => absurd hm List.not_mem_nil⟩ hw h

/-- A call writes frames that are read back with the bytes written to their streams. -/
theorem writeStreamFrames_carries {wrote : StreamId → Bytes} {fair : Bool} {s s' : StreamsState}
    {buf buf' : BufMut} {metas : List StreamMeta}
    (hI : ∀ id, ∀ stream ∈ s.send id, stream.pending.WF (wrote id))
    (hw : StreamsState.TurnsMeet fair StreamsState.Whole (s.writeFuel buf) s buf)
    (h : s.writeStreamFrames buf fair = .ok (metas, s', buf')) :
    ∃ bytes, buf'.written = buf.written ++ bytes ∧ Carries wrote metas bytes := by
  obtain ⟨bytes, rfl, hspell⟩ := (writeStreamFrames_sentSince hI hw h).frames.spells
  refine ⟨bytes, rfl, ?_⟩
  by_cases hnil : bytes = []
  · refine .inl ⟨?_, hnil⟩
    by_contra hm
    exact hspell.ne_nil (by simpa using hm) hnil
  · obtain ⟨items, hi, hm⟩ := FrameParser.exhaust_frames hspell (Nat.lt_succ_self _) none
    refine .inr ⟨⟨bytes, none⟩, items, ?_, hi, by rw [hm, List.map_map]; rfl⟩
    rw [FrameParser.new, if_neg (by simpa using hnil)]

theorem run_buffers {side : Side} {ops : List StreamsOp} {r : StreamsRun}
    (hf : Meets streamsStep (fun r op => op.Fresh r) (StreamsRun.new side) ops)
    (h : run streamsStep (StreamsRun.new side) ops = .ok r) : r.Buffers :=
  run_inv streamsStep_buffers (fun id x hx => by cases hx) hf h

/-- **What is put on the wire is what the application wrote**, in every reachable state in which no
send half was made for a stream already written to, if each range that is sent ends in the segment
in which it begins. -/
theorem stream_frames_carry (side : Side) (ops : List StreamsOp) {r : StreamsRun}
    (hf : Meets streamsStep (fun r op => op.Fresh r) (StreamsRun.new side) ops)
    (h : run streamsStep (StreamsRun.new side) ops = .ok r) (buf : BufMut) (fair : Bool)
    (hw : StreamsState.TurnsMeet fair StreamsState.Whole (r.state.writeFuel buf) r.state buf)
    {metas : List StreamMeta} {s' : StreamsState} {buf' : BufMut}
    (he : r.state.writeStreamFrames buf fair = .ok (metas, s', buf')) :
    ∃ bytes, buf'.written = buf.written ++ bytes ∧ Carries r.wrote metas bytes :=
  writeStreamFrames_carries (run_buffers hf h) hw he

/-- Two streams share a packet; the second is finished. -/
theorem stream_frames_carry_two : ∃ ops r metas s' buf',
    run streamsStep (StreamsRun.new .client) ops = .ok r ∧
    r.state.writeStreamFrames (.withCapacity 100) true = .ok (metas, s', buf') ∧
    metas = [⟨⟨2⟩, ⟨0, 3⟩, false⟩, ⟨⟨6⟩, ⟨0, 1⟩, true⟩] ∧
    ∃ bytes, buf'.written = [] ++ bytes ∧ Carries r.wrote metas bytes := by
  let ops : List StreamsOp := [.open .uni, .write false ⟨2⟩ [1, 2, 3], .open .uni,
    .write false ⟨6⟩ [9], .finish ⟨6⟩]
  exact ⟨ops, _, _, _, _, rfl, rfl, by decide, stream_frames_carry .client ops (by decide) rfl
    (.withCapacity 100) true (by decide) rfl⟩

/-- Two writes of one byte are sent as a range of two bytes, of which `get` returns only the first:
the frame announces two bytes and carries one. -/
theorem stream_frame_cut : ∃ ops,
    Meets streamsStep (fun r op => op.Legal r) (StreamsRun.new .client) ops ∧
    ∃ r metas s' buf', run streamsStep (StreamsRun.new .client) ops = .ok r ∧
      r.state.writeStreamFrames (.withCapacity 100) false = .ok (metas, s', buf') ∧
      ¬ Carries r.wrote metas buf'.written := by
  refine ⟨[.open .uni, .write false ⟨2⟩ [1], .write false ⟨2⟩ [2]], by decide, _, _, _, _, rfl, rfl,
    ?_⟩
  rintro (⟨h, -⟩ | ⟨p, items, hp, hi, hm⟩)
  · exact absurd h (by decide)
  · cases hp
    cases hi
    simp at hm

end MzQuic
