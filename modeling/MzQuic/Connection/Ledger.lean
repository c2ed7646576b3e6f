import MzQuic.Connection.Refinement
import MzQuic.Stream.Places

/-!
# Every byte of a connection is in one place

The bytes that the application has written to a stream are in its send buffer, never sent or to be sent again, or
in the record of a packet, scheduled or in flight, or they were acknowledged.

* `StreamsOp.MakesSend`, `StreamsRun.acknowledged`: the frames that a run acknowledges, those of each stream since its
  send half was made;
* `StreamsRun.Ledger`: the books of the live streams, each of which is a run of its send buffer (`SendRun.Placed`);
* `actStep_ledger`: every act keeps them, if no send half is made while frames of an older one are in flight;
* **`bytes_in_one_place`**: in every reachable state of a connection, each byte of a live stream is in exactly
  one place.
-/

namespace MzQuic

open Lib

/-! ## The books of a stream -/

/-- The ranges of the frames of a stream. -/
def rangesOf (id : StreamId) (frames : List StreamMeta) : List Range :=
  (frames.filter fun m => m.id = id).map StreamMeta.offsets

section Ranges

variable {id : StreamId} {m : StreamMeta} {frames frames' : List StreamMeta}

theorem rangesOf_append : rangesOf id (frames ++ frames') = rangesOf id frames ++ rangesOf id frames' := by
  unfold rangesOf
  rw [List.filter_append, List.map_append]

theorem rangesOf_perm (h : frames.Perm frames') : (rangesOf id frames).Perm (rangesOf id frames') :=
  (h.filter _).map _

theorem rangesOf_self (m : StreamMeta) : rangesOf m.id [m] = [m.offsets] := by
  unfold rangesOf
  rw [List.filter_cons_of_pos (by simp)]
  rfl

theorem rangesOf_of_ne (h : m.id ≠ id) : rangesOf id [m] = [] := by
  unfold rangesOf
  rw [List.filter_cons_of_neg (by simpa using h)]
  rfl

theorem rangesOf_eq_nil (h : ∀ m ∈ frames, m.id ≠ id) : rangesOf id frames = [] := by
  unfold rangesOf
  rw [List.filter_eq_nil_iff.mpr fun m hm => by simpa using h m hm]
  rfl

/-- A frame leaves the flight. -/
theorem rangesOf_erase (h : m ∈ frames) :
    (rangesOf m.id (frames.erase m)).Perm ((rangesOf m.id frames).erase m.offsets) := by
  have hall : (rangesOf m.id frames).Perm (m.offsets :: rangesOf m.id (frames.erase m)) := by
    refine (rangesOf_perm (List.perm_cons_erase h)).trans ?_
    rw [← List.singleton_append, rangesOf_append, rangesOf_self]
    exact .refl _
  exact (List.cons_perm_iff_perm_erase.mp hall.symm).2

theorem rangesOf_erase_of_ne (h : m.id ≠ id) : rangesOf id (frames.erase m) = rangesOf id frames := by
  by_cases hm : m ∈ frames
  · obtain ⟨l, r, -, rfl, he⟩ := List.exists_erase_eq hm
    rw [he, rangesOf_append, rangesOf_append, ← List.singleton_append, rangesOf_append, rangesOf_of_ne h]
    rfl
  · rw [List.erase_of_not_mem hm]

theorem countP_rangesOf (x : ℕ) :
    (rangesOf id frames).countP (x ∈ ·) = frames.countP fun m => m.id = id ∧ x ∈ m.offsets := by
  unfold rangesOf
  rw [List.countP_map, List.countP_filter]
  refine List.countP_congr fun m _ => ?_
  simp [and_comm]

end Ranges

/-- The order of the frames does not matter. -/
theorem SendRun.Placed.perm {b : SendBuffer} {W : Bytes} {flight flight' acked acked' : List Range}
    (h : SendRun.Placed ⟨b, W, flight, acked⟩) (hf : flight'.Perm flight) (ha : acked'.Perm acked) :
    SendRun.Placed ⟨b, W, flight', acked'⟩ where
  wf := h.wf
  resolved := fun x => by
    have hx := h.resolved x
    unfold SendRun.resolved at hx ⊢
    dsimp only at hx ⊢
    rw [hf.countP_eq, ha.countP_eq]
    exact hx

theorem SendRun.placed_default : SendRun.Placed ⟨SendBuffer.default, [], [], []⟩ where
  wf := SendBuffer.WF.default
  resolved := fun x => by
    unfold SendRun.resolved
    rw [if_neg (show x ∉ SendBuffer.default.retransmits from RangeSet.notMem_new x)]
    rfl

/-- The buffer of the entry `e` of the stream `id` is well formed, and its bytes are placed unless the stream is
reset. -/
def BytesPlaced (flight acked : List StreamMeta) (id : StreamId) (e : Option Send) : Prop :=
  ∀ stream ∈ e, ∃ W, stream.pending.WF W ∧ (stream.state ≠ .resetSent →
    SendRun.Placed ⟨stream.pending, W, rangesOf id flight, rangesOf id acked⟩)

section BytesPlaced

variable {flight flight' acked acked' : List StreamMeta} {id : StreamId} {e : Option Send} {stream stream' : Send}

/-- The frames of other streams do not matter. -/
theorem BytesPlaced.mono (h : BytesPlaced flight acked id e) (hf : (rangesOf id flight').Perm (rangesOf id flight))
    (ha : (rangesOf id acked').Perm (rangesOf id acked)) : BytesPlaced flight' acked' id e := by
  intro stream hs
  obtain ⟨W, hW, hp⟩ := h stream hs
  exact ⟨W, hW, fun hlive => (hp hlive).perm hf ha⟩

/-- An entry may be changed in everything but its buffer. -/
theorem BytesPlaced.congr (h : BytesPlaced flight acked id (some stream)) (hp : stream'.pending = stream.pending)
    (hlive : stream'.state ≠ .resetSent → stream.state ≠ .resetSent) :
    BytesPlaced flight acked id (some stream') := by
  rintro _ ⟨⟩
  obtain ⟨W, hW, hplaced⟩ := h stream rfl
  rw [hp]
  exact ⟨W, hW, fun hl => hplaced (hlive hl)⟩

theorem BytesPlaced.gone : BytesPlaced flight acked id none := nofun

/-- The frames of a stream that is reset do not matter. -/
theorem BytesPlaced.of_reset (h : BytesPlaced flight acked id e) (hr : ∀ stream ∈ e, stream.state = .resetSent) :
    BytesPlaced flight' acked' id e := by
  intro stream hs
  obtain ⟨W, hW, -⟩ := h stream hs
  exact ⟨W, hW, fun hl => absurd (hr stream hs) hl⟩

/-- A new send half has nothing in flight, and nothing acknowledged. -/
theorem BytesPlaced.fresh (hf : ∀ m ∈ flight, m.id ≠ id) (ha : ∀ m ∈ acked, m.id ≠ id) :
    BytesPlaced flight acked id (some Send.default) := by
  rintro _ ⟨⟩
  refine ⟨[], SendBuffer.WF.default, fun _ => ?_⟩
  rw [rangesOf_eq_nil hf, rangesOf_eq_nil ha]
  exact SendRun.placed_default

/-- More data. -/
theorem BytesPlaced.write (h : BytesPlaced flight acked id (some stream)) (data : Bytes) :
    BytesPlaced flight acked id (some { stream with pending := stream.pending.write data }) := by
  rintro _ ⟨⟩
  obtain ⟨W, hW, hp⟩ := h stream rfl
  exact ⟨W ++ data, hW.write data, fun hlive => ⟨(hp hlive).wf.write data, (hp hlive).resolved⟩⟩

/-- A range is polled, and its frame is in flight. -/
theorem BytesPlaced.polled {s s' : StreamsState} {buf : BufMut} {m : StreamMeta} {enc : Bool}
    (h : BytesPlaced flight acked m.id (some stream)) (hp : StreamsState.Polls s buf m stream enc s') :
    BytesPlaced (flight ++ [m]) acked m.id (some (stream.polled m.offsets.end m.fin)) := by
  rintro _ ⟨⟩
  obtain ⟨W, -, hplaced⟩ := h stream rfl
  have hsent := sendStep_placed _ (.pollTransmit buf.remainingMut) _ (hplaced hp.live) hp.room
    (Checked.bind_eq_ok.mpr ⟨_, hp.polled, rfl⟩)
  refine ⟨W, hsent.wf, fun _ => hsent.perm ?_ (.refl _)⟩
  rw [rangesOf_append, rangesOf_self]
  exact List.perm_append_singleton _ _

theorem mem_rangesOf {m : StreamMeta} (hm : m ∈ flight) : m.offsets ∈ rangesOf m.id flight :=
  List.mem_map_of_mem (List.mem_filter.mpr ⟨hm, by simp⟩)

/-- A frame in flight is acknowledged. -/
theorem BytesPlaced.acknowledged {m : StreamMeta} {pending : SendBuffer}
    (h : BytesPlaced flight acked m.id (some stream)) (hlive : stream.state ≠ .resetSent) (hm : m ∈ flight)
    (ha : stream.pending.ack m.offsets = .ok pending) :
    BytesPlaced (flight.erase m) (acked ++ [m]) m.id (some (stream.acked m pending)) := by
  rintro _ ⟨⟩
  obtain ⟨W, -, hplaced⟩ := h stream rfl
  have hacked := sendStep_placed _ (.ack m.offsets) _ (hplaced hlive) (mem_rangesOf hm)
    (Checked.bind_eq_ok.mpr ⟨_, ha, rfl⟩)
  refine ⟨W, hacked.wf, fun _ => hacked.perm (rangesOf_erase hm) ?_⟩
  rw [rangesOf_append, rangesOf_self]
  exact List.perm_append_singleton _ _

/-- A frame in flight is lost. -/
theorem BytesPlaced.lost {m : StreamMeta} {pending : SendBuffer} (h : BytesPlaced flight acked m.id (some stream))
    (hlive : stream.state ≠ .resetSent) (hm : m ∈ flight)
    (hr : stream.pending.retransmit m.offsets = .ok pending) :
    BytesPlaced (flight.erase m) acked m.id (some { stream with pending := pending }) := by
  rintro _ ⟨⟩
  obtain ⟨W, -, hplaced⟩ := h stream rfl
  have hlost := sendStep_placed _ (.retransmit m.offsets) _ (hplaced hlive) (mem_rangesOf hm)
    (Checked.bind_eq_ok.mpr ⟨_, hr, rfl⟩)
  exact ⟨W, hlost.wf, fun _ => hlost.perm (rangesOf_erase hm) (.refl _)⟩

end BytesPlaced

/-! ## One act -/

/-- A round sends the range that it polls. -/
theorem StreamsState.streamTurn_sends {s s' : StreamsState} {fair : Bool} {buf buf' : BufMut} {t : Turn}
    (hb : ∀ id, ∃ W, ∀ stream ∈ s.send id, stream.pending.WF W) (h : streamTurn fair s buf = .ok (t, s', buf')) :
    (t.metas = [] ∧ s'.send = s.send) ∨ ∃ m stream enc, Polls s buf m stream enc s' ∧ t.metas = [m] := by
  rcases streamTurn_polls h with hsame | ⟨m, stream, enc, hp, hm | ⟨hnil, -⟩⟩
  · exact .inl hsame
  · exact .inr ⟨m, stream, enc, hp, hm⟩
  · refine .inl ⟨hnil, ?_⟩
    cases hpop : s.pending.pop with
    | none =>
        unfold streamTurn at h
        rw [if_neg (Nat.not_lt.mpr hp.room), hpop] at h
        cases h
        rfl
    | some x =>
        rcases streamTurn_pops hb hp.room hpop h with ⟨-, m', rfl⟩ | ⟨-, -, rfl, -⟩
        · cases hnil
        · rfl

/-- The operation makes the send half of the stream `id`. -/
def StreamsOp.MakesSend (s : StreamsState) (id : StreamId) : StreamsOp → Prop
  | .open dir => id = (s.open dir).1
  | .write closed i _ => id = i ∧ closed = false ∧ s.send i = none
  | _ => False

instance (s : StreamsState) (id : StreamId) : ∀ op : StreamsOp, Decidable (op.MakesSend s id)
  | .open dir => inferInstanceAs (Decidable (id = (s.open dir).1))
  | .write closed i _ => inferInstanceAs (Decidable (id = i ∧ closed = false ∧ s.send i = none))
  | .finish _ | .reset .. | .setPriority .. | .read .. | .stop .. | .takeReset _ | .received .. | .receivedReset _
  | .receivedStopSending _ | .resetAcked _ | .writeStreamFrames .. | .receivedAckOf _ | .retransmit _ =>
    .isFalse fun h => h

/-- The frames that an operation acknowledges. -/
def StreamsOp.acks : StreamsOp → List StreamMeta
  | .receivedAckOf m => [m]
  | _ => []

/-- The frames acknowledged so far, after an operation. When a send half is made, those of its stream are of an older
one, and are forgotten. -/
def StreamsOp.acknowledged (s : StreamsState) (acked : List StreamMeta) (op : StreamsOp) : List StreamMeta :=
  acked.filter (fun m => ¬ op.MakesSend s m.id) ++ op.acks

/-- A send half is made only if no frame of the stream is in flight. -/
def StreamsOp.Unused (r : StreamsRun) (op : StreamsOp) : Prop := ∀ m ∈ r.flight, ¬ op.MakesSend r.state m.id

/-- The books of all streams, with the frames that were acknowledged. -/
def StreamsRun.Ledger (r : StreamsRun) (acked : List StreamMeta) : Prop :=
  ∀ id, BytesPlaced r.flight acked id (r.state.send id)

section Ledger

variable {r r' : StreamsRun} {acked : List StreamMeta} {op : StreamsOp}

/-- The frames of a stream whose send half is not made now are not forgotten. -/
theorem StreamsOp.rangesOf_acknowledged {s : StreamsState} {id : StreamId} (hm : ¬ op.MakesSend s id)
    (ha : ∀ m ∈ op.acks, m.id ≠ id) : rangesOf id (op.acknowledged s acked) = rangesOf id acked := by
  rw [acknowledged, rangesOf_append, rangesOf_eq_nil ha, List.append_nil]
  unfold rangesOf
  rw [List.filter_filter]
  refine congrArg _ (List.filter_congr fun m _ => ?_)
  by_cases hid : m.id = id
  · simp [hid, hm]
  · simp [hid]

/-- An operation that makes no send half forgets none. -/
theorem StreamsOp.acknowledged_of_not (s : StreamsState) (acked : List StreamMeta) (hm : ∀ id, ¬ op.MakesSend s id) :
    op.acknowledged s acked = acked ++ op.acks := by
  rw [acknowledged, List.filter_eq_self.mpr fun m _ => by simp [hm]]

theorem StreamsOp.forgets {s : StreamsState} {id : StreamId} (hm : op.MakesSend s id) (ha : op.acks = []) :
    ∀ m ∈ op.acknowledged s acked, m.id ≠ id := by
  rw [acknowledged, ha, List.append_nil]
  rintro m hmem rfl
  simpa [hm] using (List.mem_filter.mp hmem).2

/-- One entry changes. -/
theorem BytesPlaced.update {f : StreamId → Option Send} {flight flight' acked acked' : List StreamMeta} {id : StreamId}
    {e : Option Send} (h : ∀ i, BytesPlaced flight acked i (f i))
    (hf : ∀ i, i ≠ id → (rangesOf i flight').Perm (rangesOf i flight))
    (ha : ∀ i, i ≠ id → (rangesOf i acked').Perm (rangesOf i acked))
    (he : BytesPlaced flight' acked' id e) (i : StreamId) :
    BytesPlaced flight' acked' i (Function.update f id e i) :=
  (Function.forall_update_iff f fun i e => BytesPlaced flight' acked' i e).mpr
    ⟨he, fun i hi => (h i).mono (hf i hi) (ha i hi)⟩ i

theorem StreamsRun.Ledger.entry {stream : Send} (h : r.Ledger acked) {id : StreamId}
    (he : r.state.send id = some stream) : BytesPlaced r.flight acked id (some stream) := he ▸ h id

/-- A send half is made in one stream. -/
theorem StreamsOp.MakesSend.unique {s : StreamsState} {id i : StreamId} (h : op.MakesSend s id)
    (hi : op.MakesSend s i) : i = id := by
  cases op with
  | «open» dir => exact Eq.trans hi (Eq.symm h)
  | write closed j data => exact hi.1.trans h.1.symm
  | _ => cases h

/-- The send half that is made is a new one, with what is written to it. -/
theorem streamsStep_makesSend {id : StreamId} (h : op.MakesSend r.state id) (hstep : streamsStep r op = .ok r') :
    r'.flight = r.flight ∧ op.acks = [] ∧ ∃ stream, r'.state.send = Function.update r.state.send id (some stream) ∧
      (stream = Send.default ∨ ∃ data, stream = { Send.default with pending := Send.default.pending.write data }) := by
  cases op with
  | «open» dir =>
      obtain rfl := h
      cases hstep
      exact ⟨rfl, rfl, _, r.state.open_send dir, .inl rfl⟩
  | write closed i data =>
      obtain ⟨rfl, rfl, hnone⟩ := h
      have hw : Send.default.write data = .ok { Send.default with pending := Send.default.pending.write data } := rfl
      simp only [streamsStep, StreamsState.write, hnone, Option.getD_none, Bool.false_eq_true, if_false, hw] at hstep
      cases hstep
      refine ⟨rfl, rfl, _, ?_, .inr ⟨data, rfl⟩⟩
      dsimp only
      split_ifs <;> rfl
  | _ => cases h

/-- **An operation that makes a send half keeps the books.** -/
theorem streamsStep_ledger_makesSend {id : StreamId} (h : r.Ledger acked) (hm : op.MakesSend r.state id)
    (hu : op.Unused r) (hstep : streamsStep r op = .ok r') : r'.Ledger (op.acknowledged r.state acked) := by
  obtain ⟨hflight, hacks, stream, hs, hstream⟩ := streamsStep_makesSend hm hstep
  have hfresh : BytesPlaced r.flight (op.acknowledged r.state acked) id (some Send.default) :=
    .fresh (fun m hmem he => hu m hmem (he ▸ hm)) (StreamsOp.forgets hm hacks)
  have hnew : BytesPlaced r.flight (op.acknowledged r.state acked) id (some stream) := by
    rcases hstream with rfl | ⟨data, rfl⟩
    · exact hfresh
    · exact hfresh.write data
  intro i
  rw [hflight, hs]
  refine BytesPlaced.update h (fun _ _ => .refl _) (fun i hi => ?_) hnew i
  rw [StreamsOp.rangesOf_acknowledged (fun hmi => hi (hm.unique hmi)) (by rw [hacks]; exact nofun)]

namespace StreamsRun.Ledger

variable {s : StreamsState} {m : StreamMeta} {acked' : List StreamMeta}

/-- One entry is replaced. -/
theorem put (h : r.Ledger acked) {id : StreamId} {e : Option Send} (hs : s.send = Function.update r.state.send id e)
    (he : BytesPlaced r.flight acked id e) (i : StreamId) : BytesPlaced r.flight acked i (s.send i) := by
  rw [hs]
  exact BytesPlaced.update h (fun _ _ => .refl _) (fun _ _ => .refl _) he i

/-- The ranges that are polled are in flight. -/
theorem sent (h : r.Ledger acked) {buf buf' : BufMut} {fair : Bool} {metas : List StreamMeta}
    (hw : r.state.writeStreamFrames buf fair = .ok (metas, s, buf')) (i : StreamId) :
    BytesPlaced (r.flight ++ metas) acked i (s.send i) := by
  refine StreamsState.writeStreamFrames_inv
    (I := fun ms s _ => ∀ id, BytesPlaced (r.flight ++ ms) acked id (s.send id))
    (fun ms s buf t s' buf' hI _ ht => ?_) (fun id => by rw [List.append_nil]; exact h id) (.trivial fair _ _ _) hw i
  have hb : ∀ id, ∃ W, ∀ stream ∈ s.send id, stream.pending.WF W := by
    intro id
    cases he : s.send id with
    | none => exact ⟨[], nofun⟩
    | some stream =>
        obtain ⟨W, hW, -⟩ := hI id stream he
        exact ⟨W, by rintro _ ⟨⟩; exact hW⟩
  rcases StreamsState.streamTurn_sends hb ht with ⟨hm, hs⟩ | ⟨m, stream, enc, hp, hm⟩
  · rw [hm, hs, List.append_nil]
    exact hI
  · rw [hm, hp.send, ← List.append_assoc]
    refine BytesPlaced.update hI (fun i hi => ?_) (fun _ _ => .refl _)
      (BytesPlaced.polled (hp.entry ▸ hI m.id) hp)
    rw [rangesOf_append, rangesOf_of_ne (Ne.symm hi), List.append_nil]

/-- A frame leaves the flight, and the entry of its stream is replaced. -/
theorem resolved (h : r.Ledger acked) {e : Option Send} (hs : s.send = Function.update r.state.send m.id e)
    (ha : ∀ i, i ≠ m.id → (rangesOf i acked').Perm (rangesOf i acked))
    (he : BytesPlaced (r.flight.erase m) acked' m.id e) (i : StreamId) :
    BytesPlaced (r.flight.erase m) acked' i (s.send i) := by
  rw [hs]
  refine BytesPlaced.update h (fun i hi => ?_) ha he i
  rw [rangesOf_erase_of_ne (Ne.symm hi)]

/-- A frame of a stream that is gone or reset leaves the flight. -/
theorem ignored (h : r.Ledger acked) (hg : r.state.Gone m.id)
    (ha : ∀ i, i ≠ m.id → (rangesOf i acked').Perm (rangesOf i acked)) (i : StreamId) :
    BytesPlaced (r.flight.erase m) acked' i (r.state.send i) := by
  by_cases hi : i = m.id
  · rw [hi]
    exact (h m.id).of_reset hg
  · refine (h i).mono ?_ (ha i hi)
    rw [rangesOf_erase_of_ne (Ne.symm hi)]

end StreamsRun.Ledger

/-- **Any other operation keeps the books.** -/
theorem streamsStep_ledger_keeps (h : r.Ledger acked) (hl : op.Legal r) (hm : ∀ id, ¬ op.MakesSend r.state id)
    (hstep : streamsStep r op = .ok r') : r'.Ledger (acked ++ op.acks) := by
  have hnone : op.acks = [] → r'.Ledger acked → r'.Ledger (acked ++ op.acks) := fun ha hr => by
    rwa [ha, List.append_nil]
  have hquiet : op.Quiet r → op.acks = [] := fun hq => by cases op <;> first | rfl | cases hq
  have hmore : ∀ (m : StreamMeta) (i : StreamId), i ≠ m.id →
      (rangesOf i (acked ++ [m])).Perm (rangesOf i acked) := fun m i hi => by
    rw [rangesOf_append, rangesOf_of_ne (Ne.symm hi), List.append_nil]
  cases streamsStep_move hstep with
  | same hop hs hf => exact hnone (hquiet hop) fun id => hs ▸ h id
  | tuned id hop he hs hst hp hfin =>
      exact hnone (hquiet hop) (h.put hs ((h.entry he).congr hp fun hl => hst ▸ hl))
  | opened dir => exact absurd rfl (hm (r.state.open dir).1)
  | written id data hst hs =>
      cases he : r.state.send id with
      | none => exact absurd ⟨rfl, rfl, he⟩ (hm id)
      | some stream =>
          rw [he, Option.getD_some] at hs
          exact hnone rfl (h.put hs ((h.entry he).write data))
  | finished id hok he hst hs =>
      refine hnone rfl (h.put hs ((h.entry he).congr rfl fun _ => ?_))
      rw [hst]
      exact nofun
  | reset id errorCode he hs => exact hnone rfl (h.put hs ((h.entry he).congr rfl fun hl => absurd rfl hl))
  | dropped id hs => exact hnone rfl (h.put hs .gone)
  | sent buf fair hw => exact hnone rfl (h.sent hw)
  | acked m he hlive hp hs =>
      rcases hs with hs | hs
      · exact h.resolved hs (hmore m) .gone
      · exact h.resolved hs (hmore m) ((h.entry he).acknowledged hlive hl hp)
  | ackIgnored m hg => exact h.ignored hg (hmore m)
  | lost m he hlive hp hs => exact hnone rfl (h.resolved hs (fun _ _ => .refl _) ((h.entry he).lost hlive hl hp))
  | lossIgnored m hg => exact hnone rfl (h.ignored hg fun _ _ => .refl _)

/-- **One operation keeps the books.** -/
theorem streamsStep_ledger (h : r.Ledger acked) (hl : op.Legal r) (hu : op.Unused r)
    (hstep : streamsStep r op = .ok r') : r'.Ledger (op.acknowledged r.state acked) := by
  by_cases hm : ∃ id, op.MakesSend r.state id
  · obtain ⟨id, hm⟩ := hm
    exact streamsStep_ledger_makesSend h hm hu hstep
  · rw [op.acknowledged_of_not r.state acked fun id hid => hm ⟨id, hid⟩]
    exact streamsStep_ledger_keeps h hl (fun id hid => hm ⟨id, hid⟩) hstep

/-- An act acknowledges what its operation does; an event of the connection leaves the streams alone. -/
def StreamsAct.acknowledged (s : StreamsState) (acked : List StreamMeta) : StreamsAct → List StreamMeta
  | .op o => o.acknowledged s acked
  | .told _ => acked

def StreamsAct.Unused (r : StreamsRun) : StreamsAct → Prop
  | .op o => o.Unused r
  | .told _ => True

theorem actStep_ledger {a : StreamsAct} (h : r.Ledger acked) (hl : a.Legal r) (hu : a.Unused r)
    (hstep : actStep r a = .ok r') : r'.Ledger (a.acknowledged r.state acked) := by
  cases a with
  | op o => exact streamsStep_ledger h hl hu hstep
  | told e =>
      cases hstep
      exact h

/-- The frames that were acknowledged after a run, those of each stream since its send half was made. -/
def StreamsRun.acknowledged : StreamsRun → List StreamMeta → List StreamsAct → List StreamMeta
  | _, acked, [] => acked
  | r, acked, a :: acts =>
    match actStep r a with
    | .ok r' => r'.acknowledged (a.acknowledged r.state acked) acts
    | .error _ => acked

/-- **All acts of a run.** -/
theorem run_ledger {acts : List StreamsAct} (h : r.Ledger acked)
    (hm : Meets actStep (fun r a => a.Legal r ∧ a.Unused r) r acts) (hr : run actStep r acts = .ok r') :
    r'.Ledger (r.acknowledged acked acts) := by
  induction acts generalizing r acked with
  | nil =>
      cases hr
      exact h
  | cons a acts ih =>
      rw [run_cons] at hr
      obtain ⟨r₁, h1, hr⟩ := Checked.bind_eq_ok.mp hr
      rw [StreamsRun.acknowledged, h1]
      exact ih (actStep_ledger h hm.1.1 hm.1.2 h1) (hm.2 r₁ h1) hr

end Ledger

theorem StreamsRun.ledger_new (side : Side) : (StreamsRun.new side).Ledger [] := fun _ => .gone

/-! ## Runs of a connection -/

/-- A step makes a send half only if no packet carries a frame of the stream. -/
def ConnectionOp.Unused (c : Connection) (op : ConnectionOp) : Prop :=
  ∀ o ∈ op.call c, ∀ m ∈ c.core.frames, ¬ o.MakesSend c.streams m.id

instance ConnectionOp.decidableUnused (c : Connection) (op : ConnectionOp) : Decidable (op.Unused c) :=
  inferInstanceAs (Decidable (∀ o ∈ op.call c, ∀ m ∈ c.core.frames, ¬ o.MakesSend c.streams m.id))

/-- What such a step does to the streams makes no other send half. -/
theorem ConnectionOp.Does.unused {c : Connection} {r : StreamsRun} {op : ConnectionOp} {a : StreamsAct}
    (h : op.Does c r a) (hu : op.Unused c) : a.Unused r := by
  have hpacket : ∀ {p : Packet}, p.Does c a → a.Unused r := fun hp => by
    cases hp with
    | told => exact trivial
    | _ => exact fun _ _ h => h
  cases h with
  | sent | lost => exact fun _ _ h => h
  | packet _ h => exact hpacket h
  | first h => exact hpacket h
  | call h hr =>
      intro m hm
      rw [hr.state]
      exact hu _ h m (hr.flight.mem_iff.mp hm)

theorem Explains.unused {c : Connection} {r : StreamsRun} {ops : List ConnectionOp} {acts : List StreamsAct}
    (h : Explains c r ops acts) (hu : Meets connectionStep (fun c op => op.Unused c) c ops) :
    Meets actStep (fun r a => a.Legal r ∧ a.Unused r) r acts := by
  induction h with
  | nil => exact trivial
  | cons hs ha hr _ ih =>
      refine Meets.append (ha.mono fun r a h => ⟨h.1, h.2.unused hu.1⟩) hr (ih (hu.2 _ hs))

/-- In how many places of a connection the byte at offset `x` of a stream is: never sent, to be sent again, or in a
STREAM frame that a packet, scheduled or in flight, has in its record. -/
def Connection.copies (c : Connection) (id : StreamId) (b : SendBuffer) (x : ℕ) : ℕ :=
  (if b.unsent ≤ x then 1 else 0) + (if x ∈ b.retransmits then 1 else 0) +
    c.core.frames.countP fun m => m.id = id ∧ x ∈ m.offsets

/-- The books say where each byte of a stream that is not reset is. -/
theorem StreamsRun.Ledger.places {r : StreamsRun} {acked : List StreamMeta} {c : Connection} {id : StreamId}
    {stream : Send} (h : r.Ledger acked) (hp : Projects c r) (hs : c.streams.send id = some stream)
    (hlive : stream.state ≠ .resetSent) : stream.pending.unsent ≤ stream.pending.offset ∧
      ∀ x < stream.pending.offset,
        c.copies id stream.pending x + acked.countP (fun m => m.id = id ∧ x ∈ m.offsets) = 1 := by
  rw [← hp.state] at hs
  obtain ⟨W, hW, hplaced⟩ := h.entry hs stream rfl
  refine ⟨hW.unsent_le, fun x _ => ?_⟩
  have hx := (hplaced hlive).resolved x
  unfold SendRun.resolved at hx
  dsimp only at hx
  rw [countP_rangesOf, countP_rangesOf, hp.flight.countP_eq] at hx
  unfold Connection.copies
  rw [add_assoc, add_assoc, ← add_assoc (if x ∈ _ then 1 else 0), hx]
  split_ifs <;> omega

/-- **Each byte of a stream that is not reset is in exactly one place**, in every state that a connection reaches if
no send half is made while frames of an older one are on the way: in its send buffer, never sent or to be sent again;
in one STREAM frame that a packet, scheduled or in flight, has in its record; or in one STREAM frame that was
acknowledged since the send half was made. -/
theorem bytes_in_one_place (now : Instant) (side : Side) (ops : List ConnectionOp) (c : Connection)
    (hu : Meets connectionStep (fun c op => op.Unused c) (Connection.new now side) ops)
    (h : run connectionStep (Connection.new now side) ops = .ok c) :
    ∃ acts r, Explains (Connection.new now side) (StreamsRun.new side) ops acts ∧
      run actStep (StreamsRun.new side) acts = .ok r ∧ r.state = c.streams ∧ r.flight.Perm c.core.frames ∧
      ∀ id stream, c.streams.send id = some stream → stream.state ≠ .resetSent →
        stream.pending.unsent ≤ stream.pending.offset ∧ ∀ x < stream.pending.offset,
          c.copies id stream.pending x +
            ((StreamsRun.new side).acknowledged [] acts).countP (fun m => m.id = id ∧ x ∈ m.offsets) = 1 := by
  obtain ⟨acts, r, he, hr, hp⟩ :=
    run_explained (Connection.accounted_new now side) (Connection.framed_new now side) (projects_new now side) h
  have hledger := run_ledger (StreamsRun.ledger_new side) (he.unused hu) hr
  exact ⟨acts, r, he, hr, hp.state, hp.flight, fun id stream hs hlive => hledger.places hp hs hlive⟩

/-- Three bytes, in one packet. -/
theorem bytes_in_one_place_write : ∃ (c : Connection) (stream : Send) (acts : List StreamsAct) (r : StreamsRun),
    run actStep (StreamsRun.new .client) acts = .ok r ∧ r.state = c.streams ∧ r.flight.Perm c.core.frames ∧
    c.streams.send ⟨0⟩ = some stream ∧ stream.pending.offset = 3 ∧
    ∀ x < stream.pending.offset, c.copies ⟨0⟩ stream.pending x +
      ((StreamsRun.new .client).acknowledged [] acts).countP (fun m => m.id = ⟨0⟩ ∧ x ∈ m.offsets) = 1 := by
  let ops : List ConnectionOp := [.openStream .bi, .write ⟨0⟩ [1, 2, 3], .pollTransmit 1, .sendOne 1, .sendOne 1]
  obtain ⟨c, hc, hv⟩ := Checked.map_eq_ok.mp (show (fun c : Connection =>
      (c.streams.send ⟨0⟩).map fun stream => (stream.state, stream.pending.offset)) <$>
    run connectionStep (Connection.new 0 .client) ops = .ok (some (.ready, 3)) by decide +kernel)
  obtain ⟨stream, hs, hv⟩ := Option.map_eq_some_iff.mp hv
  obtain ⟨hstate, hoffset⟩ := Prod.mk.inj hv
  obtain ⟨acts, r, -, hr, hst, hflight, hplaces⟩ := bytes_in_one_place 0 .client ops c (by decide +kernel) hc
  exact ⟨c, stream, acts, r, hr, hst, hflight, hs, hoffset, (hplaces ⟨0⟩ stream hs (by rw [hstate]; exact nofun)).2⟩

end MzQuic
