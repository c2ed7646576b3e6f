import MzQuic.Stream.Moves

/-!
# When a stream is finished

`received_ack_of` gives a stream up once its FIN is acknowledged and nothing is left in its buffer.

* `drainLoop_all`, `SendBuffer.ack_flushes`: if everything is acknowledged, then the buffer is empty,
  unless an empty segment is stuck in front of the data;
* `FinishAt`: what the state of a send half says of the frames that were acknowledged;
* **`finished_complete`**: along every run in which each acknowledgement frees acknowledged data only
  and is not stuck, and in which no stream gets a second send half, a stream is given up exactly if
  it was finished, its FIN was acknowledged, and so was every byte of it.
-/

namespace MzQuic

open Lib

/-! ## An empty buffer -/

/-- If everything that is buffered is acknowledged, then the loop goes to the end, unless it begins at an
empty segment with data behind it. -/
theorem drainLoop_all {A : RangeSet} {base freed f : ℕ} {segs rest : List Bytes}
    (h : drainLoop A base freed segs = .ok (f, rest))
    (hall : ∀ x, base + freed ≤ x → x < base + freed + segs.flatten.length → x ∈ A)
    (hstart : segs.flatten.length = 0 ∨ segs.head? ≠ some [] ∨
      (1 ≤ base + freed ∧ base + freed - 1 ∈ A)) : f = freed + segs.flatten.length := by
  induction segs generalizing freed with
  | nil =>
      cases h
      rfl
  | cons seg segs ih =>
      rw [List.flatten_cons, List.length_append] at hall hstart ⊢
      unfold drainLoop at h
      dsimp only at h
      by_cases hend : seg.length + segs.flatten.length = 0
      · -- only empty segments are left, and it does not matter where the loop ends
        have hnil : seg.length = 0 ∧ segs.flatten.length = 0 := by omega
        split_ifs at h
        · obtain ⟨last, -, h⟩ := Checked.bind_eq_ok.mp h
          split_ifs at h
          · rw [ih h (fun x h1 h2 => absurd h2 (by omega)) (.inl hnil.2)]
            omega
          · cases h
            omega
        · cases h
          omega
      · have hfirst : base + freed ∈ A := hall _ le_rfl (by omega)
        have hlast : 1 ≤ base + freed + seg.length ∧ base + freed + seg.length - 1 ∈ A := by
          by_cases hseg : seg.length = 0
          · obtain h0 | h0 | h0 := hstart
            · omega
            · exact absurd (by rw [List.eq_nil_of_length_eq_zero hseg]; rfl) h0
            · rwa [hseg, Nat.add_zero]
          · exact ⟨by omega, hall _ (by omega) (by omega)⟩
        rw [if_pos (RangeSet.contains_iff.mpr hfirst), Checked.sub_of_le hlast.1, Checked.ok_bind,
          if_pos (RangeSet.contains_iff.mpr hlast.2)] at h
        rw [ih h (fun x h1 h2 => hall x (by omega) (by omega))
          (.inr (.inr ⟨by omega, by rw [← Nat.add_assoc]; exact hlast.2⟩))]
        omega

namespace SendBuffer

variable {b b' : SendBuffer} {W : Bytes} {r : Range}

/-- No empty segment is in front of the data when the last of it is acknowledged. -/
def Flushes (b : SendBuffer) (r : Range) : Prop :=
  (∀ x, b.base ≤ x → x < b.offset → x ∈ (b.acks.insert r).2) →
    b.unackedLen = 0 ∨ b.unackedSegments.head? ≠ some []

instance (b : SendBuffer) (r : Range) : Decidable (b.Flushes r) :=
  decidable_of_iff ((∀ x < b.offset, b.base ≤ x → x ∈ (b.acks.insert r).2) →
      b.unackedLen = 0 ∨ b.unackedSegments.head? ≠ some [])
    ⟨fun h hall => h fun x hx hb => hall x hb hx, fun h hall => h fun x hb hx => hall x hx hb⟩

/-- **Everything is acknowledged**: nothing is left in the buffer. -/
theorem ack_flushes (h : b.WF W) (hf : b.Flushes r) (he : b.ack r = .ok b')
    (hall : ∀ x, b.base ≤ x → x < b.offset → x ∈ (b.acks.insert r).2) : b'.unackedLen = 0 := by
  obtain ⟨freed, segs, hd, -, rfl⟩ := ack_ok h he
  have hlen := h.length
  have hle := h.len_le
  have hend : b.base + b.unackedLen = b.offset := by unfold base; omega
  have hfreed : freed = 0 + b.unackedSegments.flatten.length := by
    refine drainLoop_all hd (fun x h1 h2 => hall x (by omega) (by omega)) ?_
    rcases hf hall with h0 | h0
    · exact .inl (by omega)
    · exact .inr (.inl h0)
  dsimp only
  omega

end SendBuffer

/-! ## Runs with acknowledgements -/

/-- A run that also keeps the frames that were acknowledged, and the streams on which `finish` has
succeeded. -/
structure FinishRun extends StreamsRun where
  acked : List StreamMeta
  done : List StreamId

/-- A fresh connection. -/
def FinishRun.new (side : Side) : FinishRun := ⟨StreamsRun.new side, [], []⟩

/-- One operation. -/
def finishStep (r : FinishRun) (op : StreamsOp) : Checked FinishRun := do
  let r' ← streamsStep r.toStreamsRun op
  return {
    toStreamsRun := r'
    acked := match op with
      | .receivedAckOf m => m :: r.acked
      | _ => r.acked
    done := match op with
      | .finish id =>
        match (r.state.finish id).1 with
        | .ok () => id :: r.done
        | .error _ => r.done
      | _ => r.done }

/-- Nothing was written on the stream, no frame of it was sent, and it was not finished. -/
def FinishRun.Unused (r : FinishRun) (id : StreamId) : Prop :=
  r.wrote id = [] ∧ id ∉ r.done ∧ ∀ m ∈ r.flight ++ r.acked, m.id ≠ id

instance (r : FinishRun) (id : StreamId) : Decidable (r.Unused id) := by
  unfold FinishRun.Unused
  infer_instance

/-- A send half is made only for a stream that is unused; an acknowledgement on a live stream frees
only segments that are acknowledged as a whole, and finds no empty segment in front of the data when
it is the last one. -/
def StreamsOp.Tidy (r : FinishRun) : StreamsOp → Prop
  | .open dir => r.Unused (r.state.open dir).1
  | .write closed id _ => closed = false → r.state.send id = none → r.Unused id
  | .receivedAckOf m => ∀ stream ∈ r.state.send m.id, stream.state ≠ .resetSent →
      AckSafe (stream.pending.acks.insert m.offsets).2 stream.pending.base stream.pending.unackedSegments ∧
      stream.pending.Flushes m.offsets
  | _ => True

instance (r : FinishRun) : ∀ op : StreamsOp, Decidable (op.Tidy r)
  | .open dir => inferInstanceAs (Decidable (r.Unused (r.state.open dir).1))
  | .write closed id _ => decidable_of_iff (closed = false → (r.state.send id).isNone → r.Unused id)
      (by simp [StreamsOp.Tidy])
  | .receivedAckOf m => inferInstanceAs (Decidable (∀ stream ∈ r.state.send m.id,
      stream.state ≠ .resetSent → AckSafe _ _ _ ∧ stream.pending.Flushes m.offsets))
  | .finish _ | .reset .. | .setPriority .. | .read .. | .stop .. | .takeReset _ | .received ..
  | .receivedReset _ | .receivedStopSending _ | .resetAcked _ | .writeStreamFrames ..
  | .retransmit _ => .isTrue trivial

/-- An acknowledged frame of the stream holds `x`. -/
def Acked (acked : List StreamMeta) (id : StreamId) (x : ℕ) : Prop :=
  ∃ m ∈ acked, m.id = id ∧ x ∈ m.offsets

/-- What the history says of the send half of the stream `id`, on which `W` was written. -/
structure FinishAt (flight acked : List StreamMeta) (done : List StreamId) (W : Bytes) (id : StreamId)
    (stream : Send) : Prop where
  wf : stream.pending.WF W
  sent : ∀ m ∈ flight ++ acked, m.id = id → m.offsets.end ≤ stream.pending.unsent
  acks : stream.state ≠ .resetSent → stream.pending.AckInv (Acked acked id)
  ready : stream.state = .ready → stream.finPending = false ∧ id ∉ done ∧
    ∀ m ∈ flight ++ acked, m.id = id → m.fin = false
  dataSent : ∀ fa, stream.state = .dataSent fa → id ∈ done ∧
    (fa = true ↔ ∃ m ∈ acked, m.id = id ∧ m.fin = true)

section FinishAt

variable {flight flight' acked acked' : List StreamMeta} {done done' : List StreamId} {W : Bytes}
  {id : StreamId} {stream stream' : Send} {m : StreamMeta}

/-- Only the history of the stream itself matters, and frames in flight may be forgotten. -/
theorem FinishAt.history (h : FinishAt flight acked done W id stream)
    (hf : ∀ m ∈ flight', m.id = id → m ∈ flight) (ha : ∀ m, m.id = id → (m ∈ acked' ↔ m ∈ acked))
    (hd : id ∈ done' ↔ id ∈ done) : FinishAt flight' acked' done' W id stream := by
  have hmem : ∀ m ∈ flight' ++ acked', m.id = id → m ∈ flight ++ acked := by
    intro m hm hid
    rcases List.mem_append.mp hm with hm | hm
    · exact List.mem_append_left _ (hf m hm hid)
    · exact List.mem_append_right _ ((ha m hid).mp hm)
  have hacked : Acked acked' id = Acked acked id := by
    funext x
    refine propext ⟨fun ⟨m, hm, hid, hx⟩ => ⟨m, (ha m hid).mp hm, hid, hx⟩,
      fun ⟨m, hm, hid, hx⟩ => ⟨m, (ha m hid).mpr hm, hid, hx⟩⟩
  refine ⟨h.wf, fun m hm hid => h.sent m (hmem m hm hid) hid, ?_, fun hst => ?_, fun fa hst => ?_⟩
  · rw [hacked]
    exact h.acks
  · obtain ⟨h1, h2, h3⟩ := h.ready hst
    exact ⟨h1, fun hid => h2 (hd.mp hid), fun m hm hid => h3 m (hmem m hm hid) hid⟩
  · obtain ⟨h1, h2⟩ := h.dataSent fa hst
    refine ⟨hd.mpr h1, h2.trans ⟨fun ⟨m, hm, hid, hx⟩ => ⟨m, (ha m hid).mpr hm, hid, hx⟩,
      fun ⟨m, hm, hid, hx⟩ => ⟨m, (ha m hid).mp hm, hid, hx⟩⟩⟩

/-- A send half that agrees in its state and its data. -/
theorem FinishAt.congr (h : FinishAt flight acked done W id stream) (hst : stream'.state = stream.state)
    (hp : stream'.pending = stream.pending) (hfin : stream'.finPending = stream.finPending) :
    FinishAt flight acked done W id stream' := by
  refine ⟨?_, ?_, ?_, ?_, ?_⟩
  · rw [hp]
    exact h.wf
  · rw [hp]
    exact h.sent
  · rw [hst, hp]
    exact h.acks
  · rw [hst, hfin]
    exact h.ready
  · rw [hst]
    exact h.dataSent

theorem finishAt_default (hd : id ∉ done) (hm : ∀ m ∈ flight ++ acked, m.id ≠ id) :
    FinishAt flight acked done [] id Send.default where
  wf := SendBuffer.WF.default
  sent m hmem hid := absurd hid (hm m hmem)
  acks _ := ⟨fun x hx => absurd hx (Nat.not_lt_zero x), fun x hx => absurd hx (RangeSet.notMem_new x),
    fun _ _ ⟨m, hmem, hid, _⟩ => absurd hid (hm m (List.mem_append_right _ hmem))⟩
  ready _ := ⟨rfl, hd, fun m hmem hid => absurd hid (hm m hmem)⟩
  dataSent fa h := by cases h

theorem FinishAt.write (h : FinishAt flight acked done W id stream) (data : Bytes) :
    FinishAt flight acked done (W ++ data) id { stream with pending := stream.pending.write data } := by
  have hbase : (stream.pending.write data).base = stream.pending.base := by
    simp only [SendBuffer.write, SendBuffer.base]
    omega
  refine ⟨h.wf.write data, h.sent, fun hlive => ?_, h.ready, h.dataSent⟩
  obtain ⟨h1, h2, h3⟩ := h.acks hlive
  exact ⟨fun x hx => h1 x (by rwa [hbase] at hx), h2, fun x hx => h3 x (by rwa [hbase] at hx)⟩

theorem FinishAt.finish (h : FinishAt flight acked done W id stream) (hst : stream.state = .ready) :
    FinishAt flight acked (id :: done) W id { stream with state := .dataSent false, finPending := true } := by
  obtain ⟨-, -, hfin⟩ := h.ready hst
  refine ⟨h.wf, h.sent, fun _ => h.acks (by rw [hst]; simp), fun hr => (by cases hr), fun fa hfa => ?_⟩
  cases hfa
  refine ⟨List.mem_cons_self, iff_of_false Bool.false_ne_true ?_⟩
  rintro ⟨m, hm, hid, hf⟩
  rw [hfin m (List.mem_append_right _ hm) hid] at hf
  cases hf

/-- Once a stream is reset, only its bounds matter. -/
theorem FinishAt.reset (h : FinishAt flight acked done W id stream)
    (hsub : ∀ m ∈ flight' ++ acked', m.id = id → m ∈ flight ++ acked) :
    FinishAt flight' acked' done' W id { stream with state := .resetSent } where
  wf := h.wf
  sent m hm hid := h.sent m (hsub m hm hid) hid
  acks hne := absurd rfl hne
  ready hst := by cases hst
  dataSent fa hst := by cases hst

theorem FinishAt.retransmit (h : FinishAt flight acked done W id stream) {pending : SendBuffer} {r : Range}
    (hp : stream.pending.retransmit r = .ok pending) :
    FinishAt flight acked done W id { stream with pending := pending } := by
  obtain ⟨-, hwf, rfl⟩ := h.wf.retransmit hp
  exact ⟨hwf, h.sent, fun hlive => ⟨(h.acks hlive).freed, (h.acks hlive).sound, (h.acks hlive).known⟩,
    h.ready, h.dataSent⟩

/-- A round of `write_stream_frames` polls the stream; the frame goes to `ms` if it is sent. -/
theorem FinishAt.polled {W : Bytes} {s s' : StreamsState} {buf : BufMut} {enc : Bool} {ms : List StreamMeta}
    (h : FinishAt flight acked done W m.id stream) (hp : StreamsState.Polls s buf m stream enc s')
    (hms : ms = [] ∨ ms = [m]) :
    FinishAt (flight ++ ms) acked done W m.id (stream.polled m.offsets.end m.fin) := by
  obtain ⟨-, hc, -, -⟩ := SendBuffer.pollTransmit_ok hp.polled
  obtain ⟨h1, h2⟩ := clampNew_ok hc
  obtain ⟨hwf, hu, hend⟩ := h.wf.sent h1 h2
  have hmem : ∀ m' ∈ flight ++ ms ++ acked, m' ∈ flight ++ acked ∨ m' = m := by
    intro m' hm'
    simp only [List.mem_append] at hm' ⊢
    rcases hm' with (hm' | hm') | hm'
    · exact .inl (.inl hm')
    · rcases hms with rfl | rfl
      · cases hm'
      · exact .inr (List.mem_singleton.mp hm')
    · exact .inl (.inr hm')
  refine ⟨hwf, fun m' hm' hid => ?_, fun hlive => ?_, fun hst => ?_, h.dataSent⟩
  · rcases hmem m' hm' with hm' | rfl
    · exact (h.sent m' hm' hid).trans hu
    · exact hend
  · have ha := h.acks hlive
    refine ⟨fun x hx => ha.freed x ?_, fun x hx => ha.sound x ?_, fun x hb hx => ?_⟩
    · simpa [Send.polled] using hx
    · simpa [Send.polled] using hx
    · have := ha.known x (by simpa [Send.polled] using hb) hx
      simpa [Send.polled] using this
  · -- a stream that was not finished has no FIN to send
    obtain ⟨hf, hd, hfin⟩ := h.ready hst
    refine ⟨by simp [Send.polled, hf], hd, fun m' hm' hid => ?_⟩
    rcases hmem m' hm' with hm' | rfl
    · exact hfin m' hm' hid
    · rw [hp.fin, hf, Bool.false_and]

/-- A frame in flight is acknowledged. -/
theorem FinishAt.ack (h : FinishAt flight acked done W m.id stream) (hm : m ∈ flight)
    (hlive : stream.state ≠ .resetSent) {pending : SendBuffer}
    (hsafe : AckSafe (stream.pending.acks.insert m.offsets).2 stream.pending.base
      stream.pending.unackedSegments)
    (hp : stream.pending.ack m.offsets = .ok pending) :
    FinishAt (flight.erase m) (m :: acked) done W m.id (stream.acked m pending) := by
  obtain ⟨hwf, -, -, hu, -, -⟩ := h.wf.ack hp
  have hmem : ∀ m' ∈ flight.erase m ++ m :: acked, m' ∈ flight ++ acked := by
    intro m' hm'
    simp only [List.mem_append, List.mem_cons] at hm' ⊢
    rcases hm' with hm' | rfl | hm'
    · exact .inl (List.mem_of_mem_erase hm')
    · exact .inl hm
    · exact .inr hm'
  refine ⟨hwf, fun m' hm' hid => ?_, fun _ => ?_, fun hst => ?_, fun fa hst => ?_⟩
  · exact (h.sent m' (hmem m' hm') hid).trans hu.ge
  · refine (h.acks hlive).ack h.wf (fun x => ?_) hsafe hp
    simp only [Acked, List.mem_cons, exists_eq_or_imp, true_and]
    exact or_comm
  · cases hs : stream.state with
    | ready =>
        obtain ⟨h1, h2, h3⟩ := h.ready hs
        exact ⟨h1, h2, fun m' hm' hid => h3 m' (hmem m' hm') hid⟩
    | dataSent a => simp [Send.acked, hs] at hst
    | resetSent => exact absurd hs hlive
  · cases hs : stream.state with
    | ready => simp [Send.acked, hs] at hst
    | resetSent => exact absurd hs hlive
    | dataSent a =>
        obtain ⟨h1, h2⟩ := h.dataSent a hs
        obtain rfl : (a || m.fin) = fa := by simpa [Send.acked, hs] using hst
        refine ⟨h1, ?_⟩
        simp only [Bool.or_eq_true, h2, List.mem_cons, exists_eq_or_imp, true_and]
        exact or_comm

end FinishAt

/-- The invariant. -/
def FinishRun.Inv (r : FinishRun) : Prop :=
  ∀ id, ∀ stream ∈ r.state.send id, FinishAt r.flight r.acked r.done (r.wrote id) id stream

section Step

variable {flight acked : List StreamMeta} {done : List StreamId} {wrote : StreamId → Bytes}

/-- A table in which the invariant holds of every entry but one, which is replaced. -/
theorem finishAt_update {f : StreamId → Option Send} {id : StreamId} {e : Option Send}
    (h : ∀ i, i ≠ id → ∀ stream ∈ f i, FinishAt flight acked done (wrote i) i stream)
    (he : ∀ stream ∈ e, FinishAt flight acked done (wrote id) id stream) (i : StreamId) :
    ∀ stream ∈ Function.update f id e i, FinishAt flight acked done (wrote i) i stream :=
  (Function.forall_update_iff f fun i x => ∀ stream ∈ x, FinishAt flight acked done (wrote i) i stream).mpr
    ⟨he, fun i hi => h i hi⟩ i

theorem streamTurn_finishAt {fair : Bool} {s s' : StreamsState} {buf buf' : BufMut} {t : StreamsState.Turn}
    (h : StreamsState.streamTurn fair s buf = .ok (t, s', buf'))
    (hI : ∀ id, ∀ stream ∈ s.send id, FinishAt flight acked done (wrote id) id stream) :
    ∀ id, ∀ stream ∈ s'.send id, FinishAt (flight ++ t.metas) acked done (wrote id) id stream := by
  obtain ⟨hmetas, hs⟩ | ⟨m, stream, enc, hp, hms⟩ := StreamsState.streamTurn_polls h
  · rwa [hmetas, List.append_nil, hs]
  · have hms : t.metas = [] ∨ t.metas = [m] := hms.symm.imp_left And.left
    rw [hp.send]
    refine finishAt_update (fun i hi x hx => (hI i x hx).history (fun m' hm' hid => ?_) (fun _ _ => Iff.rfl)
      Iff.rfl) fun x hx => ?_
    · rcases List.mem_append.mp hm' with hm' | hm'
      · exact hm'
      · rcases hms with hms | hms
        · rw [hms] at hm'
          cases hm'
        · rw [hms] at hm'
          rw [List.mem_singleton.mp hm'] at hid
          exact absurd hid.symm hi
    · cases hx
      exact (hI m.id stream hp.entry).polled hp hms

theorem finishStep_quiet {r r' : FinishRun} {op : StreamsOp} (hop : op.Quiet r.toStreamsRun)
    (h : finishStep r op = .ok r') : r'.acked = r.acked ∧ r'.done = r.done := by
  obtain ⟨r₁, -, h⟩ := Checked.bind_eq_ok.mp h
  cases h
  cases op with
  | receivedAckOf m => exact hop.elim
  | finish id =>
      refine ⟨rfl, ?_⟩
      dsimp only
      split
      · rename_i hok
        exact absurd hok hop
      · rfl
  | _ => exact ⟨rfl, rfl⟩

end Step

namespace FinishRun.Inv

variable {r : FinishRun} {s : StreamsState} {id : StreamId} {stream : Send} {e : Option Send} {m : StreamMeta}

/-- One entry is replaced. -/
theorem put (hI : r.Inv) (hs : s.send = Function.update r.state.send id e)
    (he : ∀ stream ∈ e, FinishAt r.flight r.acked r.done (r.wrote id) id stream) (i : StreamId) :
    ∀ stream ∈ s.send i, FinishAt r.flight r.acked r.done (r.wrote i) i stream := by
  rw [hs]
  exact finishAt_update (fun i _ => hI i) he i

/-- A new entry is one of a stream that was not used. -/
theorem fresh (hu : r.Unused id) : FinishAt r.flight r.acked r.done (r.wrote id) id Send.default := by
  obtain ⟨hwrote, hdone, hmetas⟩ := hu
  rw [hwrote]
  exact finishAt_default hdone hmetas

/-- The entry that a write finds or makes. -/
theorem getD (hI : r.Inv) (hu : r.state.send id = none → r.Unused id) :
    FinishAt r.flight r.acked r.done (r.wrote id) id ((r.state.send id).getD Send.default) := by
  cases he : r.state.send id with
  | some stream => exact hI id stream he
  | none => exact fresh (hu he)

theorem written (hI : r.Inv) {data : Bytes} (hs : s.send = Function.update r.state.send id (some stream))
    (he : FinishAt r.flight r.acked r.done (r.wrote id ++ data) id stream) (i : StreamId) :
    ∀ stream ∈ s.send i,
      FinishAt r.flight r.acked r.done (Function.update r.wrote id (r.wrote id ++ data) i) i stream := by
  intro x hx
  rw [hs] at hx
  by_cases hi : i = id
  · subst hi
    rw [Function.update_self] at hx ⊢
    cases hx
    exact he
  · rw [Function.update_of_ne hi] at hx ⊢
    exact hI i x hx

theorem finish (hI : r.Inv) (he : r.state.send id = some stream) (hst : stream.state = .ready)
    (hs : s.send = Function.update r.state.send id (some { stream with state := .dataSent false, finPending := true }))
    (i : StreamId) : ∀ stream ∈ s.send i, FinishAt r.flight r.acked (id :: r.done) (r.wrote i) i stream := by
  rw [hs]
  refine finishAt_update (fun i hi x hx => ?_) (fun x hx => ?_) i
  · refine (hI i x hx).history (fun _ hm _ => hm) (fun _ _ => Iff.rfl) ?_
    rw [List.mem_cons]
    exact or_iff_right hi
  · cases hx
    exact (hI id _ he).finish hst

theorem sent (hI : r.Inv) {buf buf' : BufMut} {fair : Bool} {metas : List StreamMeta}
    (hw : r.state.writeStreamFrames buf fair = .ok (metas, s, buf')) :
    ∀ i, ∀ stream ∈ s.send i, FinishAt (r.flight ++ metas) r.acked r.done (r.wrote i) i stream := by
  refine StreamsState.writeStreamFrames_inv
    (I := fun ms s _ => ∀ id, ∀ stream ∈ s.send id,
      FinishAt (r.flight ++ ms) r.acked r.done (r.wrote id) id stream)
    (fun ms s b t s' b' hI _ ht => ?_) (fun id => by simpa using hI id)
    (StreamsState.TurnsMeet.trivial ..) hw
  rw [← List.append_assoc]
  exact streamTurn_finishAt ht hI

/-- A frame in flight leaves the history of every other stream alone. -/
theorem other (hI : r.Inv) (m : StreamMeta) (acked : List StreamMeta)
    (ha : acked = r.acked ∨ acked = m :: r.acked) (i : StreamId) (hi : i ≠ m.id) (stream : Send)
    (hx : stream ∈ r.state.send i) :
    FinishAt (r.flight.erase m) acked r.done (r.wrote i) i stream := by
  refine (hI i stream hx).history (fun m' hm' _ => List.mem_of_mem_erase hm') (fun m' hid => ?_) Iff.rfl
  rcases ha with rfl | rfl
  · exact Iff.rfl
  · rw [List.mem_cons]
    exact or_iff_right fun e => hi (by rw [← hid, e])

/-- A frame is acknowledged, and the entry of its stream is replaced. -/
theorem acked (hI : r.Inv) (hs : s.send = Function.update r.state.send m.id e)
    (he : ∀ stream ∈ e, FinishAt (r.flight.erase m) (m :: r.acked) r.done (r.wrote m.id) m.id stream) (i : StreamId) :
    ∀ stream ∈ s.send i, FinishAt (r.flight.erase m) (m :: r.acked) r.done (r.wrote i) i stream := by
  rw [hs]
  exact finishAt_update (hI.other m _ (.inr rfl)) he i

/-- A frame of a stream that is gone or reset is acknowledged. -/
theorem ackIgnored (hI : r.Inv) (hm : m ∈ r.flight) (hg : r.state.Gone m.id) (i : StreamId) :
    ∀ stream ∈ r.state.send i, FinishAt (r.flight.erase m) (m :: r.acked) r.done (r.wrote i) i stream := by
  intro stream hx
  by_cases hi : i = m.id
  · subst hi
    have hnew : FinishAt (r.flight.erase m) (m :: r.acked) r.done (r.wrote m.id) m.id
        { stream with state := .resetSent } := by
      refine (hI m.id stream hx).reset fun m' hm' _ => ?_
      simp only [List.mem_append, List.mem_cons] at hm' ⊢
      rcases hm' with hm' | rfl | hm'
      · exact .inl (List.mem_of_mem_erase hm')
      · exact .inl hm
      · exact .inr hm'
    rwa [← hg stream hx] at hnew
  · exact hI.other m _ (.inr rfl) i hi stream hx

theorem lost (hI : r.Inv) {pending : SendBuffer} (he : r.state.send m.id = some stream)
    (hp : stream.pending.retransmit m.offsets = .ok pending)
    (hs : s.send = Function.update r.state.send m.id (some { stream with pending := pending })) (i : StreamId) :
    ∀ stream ∈ s.send i, FinishAt (r.flight.erase m) r.acked r.done (r.wrote i) i stream := by
  rw [hs]
  refine finishAt_update (hI.other m _ (.inl rfl)) (fun x hx => ?_) i
  cases hx
  exact ((hI m.id _ he).retransmit hp).history (fun _ hm _ => List.mem_of_mem_erase hm)
    (fun _ _ => Iff.rfl) Iff.rfl

end FinishRun.Inv

/-- **One operation keeps the invariant.** -/
theorem finishStep_inv (r : FinishRun) (op : StreamsOp) (r' : FinishRun) (hI : r.Inv)
    (hop : op.Legal r.toStreamsRun ∧ op.Tidy r) (h : finishStep r op = .ok r') : r'.Inv := by
  obtain ⟨hlegal, htidy⟩ := hop
  have hquiet := fun hq : op.Quiet r.toStreamsRun => finishStep_quiet hq h
  obtain ⟨r₁, h1, h⟩ := Checked.bind_eq_ok.mp h
  cases h
  cases streamsStep_move h1 with
  | same hq hs hf =>
      obtain ⟨ha, hd⟩ := hquiet hq
      dsimp only at ha hd
      intro i stream hx
      dsimp only at hx ⊢
      rw [hs] at hx
      rw [ha, hd]
      exact hI i stream hx
  | tuned id hq he hs hst hp hfin =>
      obtain ⟨ha, hd⟩ := hquiet hq
      dsimp only at ha hd
      unfold FinishRun.Inv
      dsimp only
      rw [ha, hd]
      refine hI.put hs fun x hx => ?_
      cases hx
      exact (hI id _ he).congr hst hp hfin
  | opened dir =>
      refine hI.put (r.state.open_send dir) fun x hx => ?_
      cases hx
      exact FinishRun.Inv.fresh htidy
  | written id data hst hs => exact hI.written hs ((hI.getD (htidy rfl)).write data)
  | finished id hok he hst hs =>
      unfold FinishRun.Inv
      dsimp only
      rw [hok]
      exact hI.finish he hst hs
  | reset id errorCode he hs =>
      refine hI.put hs fun x hx => ?_
      cases hx
      exact (hI id _ he).reset fun _ hm _ => hm
  | dropped id hs => exact hI.put hs nofun
  | sent buf fair hw => exact hI.sent hw
  | acked m he hlive hp hs =>
      rcases hs with hs | hs
      · exact hI.acked hs nofun
      · refine hI.acked hs fun x hx => ?_
        cases hx
        exact (hI m.id _ he).ack hlegal hlive (htidy _ he hlive).1 hp
  | ackIgnored m hg => exact hI.ackIgnored hlegal hg
  | lost m he hlive hp hs => exact hI.lost he hp hs
  | lossIgnored m hg =>
      intro i stream hx
      exact (hI i stream hx).history (fun _ hm _ => List.mem_of_mem_erase hm) (fun _ _ => Iff.rfl) Iff.rfl

/-! ## Finished streams -/

/-- With the frame `m` the stream is complete: it was finished, an acknowledged frame has its FIN, and
the acknowledged ranges are the bytes that were written. -/
def FinishRun.Complete (r : FinishRun) (m : StreamMeta) : Prop :=
  m.id ∈ r.done ∧ (∃ a ∈ m :: r.acked, a.id = m.id ∧ a.fin = true) ∧
    ∀ x, Acked (m :: r.acked) m.id x ↔ x < (r.wrote m.id).length

/-- Whether `received_ack_of` gives the stream up. -/
def Send.completes (stream : Send) (m : StreamMeta) (pending : SendBuffer) : Bool :=
  match stream.state with
  | .dataSent finishAcked => (finishAcked || m.fin) && pending.isFullyAcked
  | _ => false

theorem StreamsState.receivedAckOf_eq {s : StreamsState} {m : StreamMeta} {stream : Send} {pending : SendBuffer}
    (he : s.send m.id = some stream) (hlive : stream.state ≠ .resetSent)
    (hp : stream.pending.ack m.offsets = .ok pending) : s.receivedAckOf m = .ok
      (if stream.completes m pending then (s.setSend m.id none).sendEvent (.finished m.id)
        else s.setSend m.id (some (stream.acked m pending))) := by
  unfold receivedAckOf
  rw [he]
  dsimp only
  rw [if_neg (by simpa [Send.isReset] using hlive), Send.ack, hp, Checked.ok_bind]
  unfold Send.completes Send.acked
  cases hst : stream.state with
  | ready => rfl
  | resetSent => exact absurd hst hlive
  | dataSent fa =>
      dsimp only
      by_cases hd : ((fa || m.fin) && pending.isFullyAcked) = true
      · simp only [hd]
        rfl
      · simp only [Bool.not_eq_true _ ▸ hd]
        rfl

/-- The acknowledged ranges are the bytes that were written exactly if nothing is left in the buffer. -/
theorem FinishAt.empty_iff {flight acked : List StreamMeta} {done : List StreamId} {W : Bytes} {m : StreamMeta}
    {stream : Send} (h : FinishAt flight acked done W m.id stream) (hm : m ∈ flight)
    (hlive : stream.state ≠ .resetSent) {pending : SendBuffer}
    (hsafe : AckSafe (stream.pending.acks.insert m.offsets).2 stream.pending.base
      stream.pending.unackedSegments) (hflush : stream.pending.Flushes m.offsets)
    (hp : stream.pending.ack m.offsets = .ok pending) :
    pending.unackedLen = 0 ↔ ∀ x, Acked (m :: acked) m.id x ↔ x < W.length := by
  have hnew := h.ack hm hlive hsafe hp
  have hpend : (stream.acked m pending).pending = pending := rfl
  have hwf : pending.WF W := hnew.wf
  have hacks : pending.AckInv (Acked (m :: acked) m.id) :=
    (h.acks hlive).ack h.wf (fun x => by
      simp only [Acked, List.mem_cons, exists_eq_or_imp, true_and]
      exact or_comm) hsafe hp
  constructor
  · intro h0 x
    constructor
    · rintro ⟨a, ha, hid, hx⟩
      have h1 := hnew.sent a (List.mem_append_right _ ha) hid
      have h2 := hwf.unsent_le
      have h3 := hwf.offset
      have h4 := (Range.mem_iff.mp hx).2
      rw [hpend] at h1
      omega
    · intro hx
      refine hacks.freed x ?_
      rw [SendBuffer.base, h0, hwf.offset]
      exact hx
  · intro hall
    refine SendBuffer.ack_flushes h.wf hflush hp fun x hb hx => ?_
    have hx' : Acked (m :: acked) m.id x := (hall x).mpr (by rw [← h.wf.offset]; exact hx)
    obtain ⟨a, ha, hid, hxa⟩ := hx'
    rcases List.mem_cons.mp ha with rfl | ha
    · exact RangeSet.mem_insert.mpr (.inr hxa)
    · exact RangeSet.mem_insert.mpr (.inl ((h.acks hlive).known x hb ⟨a, ha, hid, hxa⟩))

/-- **Finished means finished.** In every run in which acknowledgements free acknowledged data only and
are not stuck at an empty segment, and no stream gets a second send half, an acknowledgement on a live
stream returns; it gives the stream up and reports it as finished exactly if the stream is complete. -/
theorem finished_complete (side : Side) (ops : List StreamsOp) (r : FinishRun)
    (hl : Meets finishStep (fun r op => op.Legal r.toStreamsRun) (FinishRun.new side) ops)
    (ht : Meets finishStep (fun r op => op.Tidy r) (FinishRun.new side) ops)
    (h : run finishStep (FinishRun.new side) ops = .ok r)
    (m : StreamMeta) (hm : m ∈ r.flight) (htm : (StreamsOp.receivedAckOf m).Tidy r)
    (stream : Send) (he : r.state.send m.id = some stream) (hlive : stream.state ≠ .resetSent) :
    ∃ s', r.state.receivedAckOf m = .ok s' ∧
      ((s'.send m.id = none ∧ s'.events = r.state.events ++ [.stream (.finished m.id)]) ↔ r.Complete m) := by
  have hinit : (FinishRun.new side).Inv := fun _ _ hx => by cases hx
  have hI : r.Inv := run_inv finishStep_inv hinit (hl.and ht) h
  have hat := hI m.id stream he
  obtain ⟨hsafe, hflush⟩ := htm stream he hlive
  obtain ⟨pending, hp⟩ := SendBuffer.ack_total hat.wf hsafe.head
  refine ⟨_, StreamsState.receivedAckOf_eq he hlive hp, ?_⟩
  have hempty := hat.empty_iff hm hlive hsafe hflush hp
  -- the state of the send half says whether the stream was finished and its FIN acknowledged
  have hcomp : stream.completes m pending = true ↔ r.Complete m := by
    unfold FinishRun.Complete
    rw [← hempty]
    have hnew := hat.ack hm hlive hsafe hp
    unfold Send.completes
    cases hst : stream.state with
    | resetSent => exact absurd hst hlive
    | ready =>
        refine iff_of_false Bool.false_ne_true fun hc => ?_
        exact (hat.ready hst).2.1 hc.1
    | dataSent fa =>
        obtain ⟨hdone, hfin⟩ := hnew.dataSent (fa || m.fin) (by simp [Send.acked, hst])
        dsimp only
        rw [Bool.and_eq_true, hfin]
        simp only [SendBuffer.isFullyAcked, decide_eq_true_eq, hdone, true_and]
  rw [← hcomp]
  cases stream.completes m pending with
  | true => simp [StreamsState.sendEvent, StreamsState.setSend]
  | false => simp [StreamsState.setSend]

/-- Two segments in two frames; the acknowledgement of the second, which has the FIN, comes last. -/
theorem finished_complete_two : ∃ ops r m s', run finishStep (FinishRun.new .client) ops = .ok r ∧
    m ∈ r.flight ∧ r.state.receivedAckOf m = .ok s' ∧ s'.send m.id = none ∧ r.Complete m := by
  let ops : List StreamsOp := [.write false ⟨2⟩ [1, 2], .writeStreamFrames (.withCapacity 100) false,
    .write false ⟨2⟩ [3], .finish ⟨2⟩, .writeStreamFrames (.withCapacity 100) false,
    .receivedAckOf ⟨⟨2⟩, ⟨0, 2⟩, false⟩]
  let m : StreamMeta := ⟨⟨2⟩, ⟨2, 3⟩, true⟩
  obtain ⟨r, hr, hv⟩ := Checked.map_eq_ok.mp (show (fun r : FinishRun => (decide (m ∈ r.flight),
      decide ((StreamsOp.receivedAckOf m).Tidy r), (r.state.send m.id).any (·.state ≠ .resetSent),
      (fun s' : StreamsState => ((s'.send m.id).isNone,
        decide (s'.events = r.state.events ++ [.stream (.finished m.id)]))) <$> r.state.receivedAckOf m)) <$>
    run finishStep (FinishRun.new .client) ops = .ok (true, true, true, .ok (true, true)) by decide +kernel)
  obtain ⟨hm, hv⟩ := Prod.mk.inj hv
  obtain ⟨ht, hv⟩ := Prod.mk.inj hv
  obtain ⟨hsome, hv⟩ := Prod.mk.inj hv
  obtain ⟨s', hs', hv⟩ := Checked.map_eq_ok.mp hv
  obtain ⟨hgone, hevents⟩ := Prod.mk.inj hv
  obtain ⟨stream, he, hlive⟩ := (Option.any_eq_true _ _).mp hsome
  have hm := of_decide_eq_true hm
  obtain ⟨s'', hs'', hiff⟩ := finished_complete .client ops r (by decide +kernel) (by decide +kernel) hr m hm
    (of_decide_eq_true ht) stream he (by simpa using hlive)
  rw [hs'] at hs''
  cases hs''
  have hnone := Option.isNone_iff_eq_none.mp hgone
  exact ⟨ops, r, m, s', hr, hm, hs', hnone, hiff.mp ⟨hnone, of_decide_eq_true hevents⟩⟩

/-- One segment of 29 bytes is sent in two frames, and the first of them again in parts. The first part
and the frame with the FIN are acknowledged: the stream is reported as finished, and the bytes 17 to 21
never arrive. -/
theorem finished_early : ∃ ops, Meets finishStep (fun r op => op.Legal r.toStreamsRun) (FinishRun.new .client) ops ∧
    ∃ r m s', run finishStep (FinishRun.new .client) ops = .ok r ∧ m ∈ r.flight ∧
      r.state.receivedAckOf m = .ok s' ∧ s'.send m.id = none ∧
      s'.events = r.state.events ++ [.stream (.finished m.id)] ∧ ¬ r.Complete m := by
  let ops : List StreamsOp := [.write false ⟨2⟩ (List.replicate 29 7), .finish ⟨2⟩,
    .writeStreamFrames (.withCapacity 30) false, .writeStreamFrames (.withCapacity 25) false,
    .retransmit ⟨⟨2⟩, ⟨0, 22⟩, false⟩, .writeStreamFrames (.withCapacity 25) false,
    .receivedAckOf ⟨⟨2⟩, ⟨0, 17⟩, false⟩]
  let m : StreamMeta := ⟨⟨2⟩, ⟨22, 29⟩, true⟩
  obtain ⟨r, hr, hv⟩ := Checked.map_eq_ok.mp (show (fun r : FinishRun => (decide (m ∈ r.flight),
      ((r.wrote m.id).length, r.acked),
      (fun s' : StreamsState => ((s'.send m.id).isNone,
        decide (s'.events = r.state.events ++ [.stream (.finished m.id)]))) <$> r.state.receivedAckOf m)) <$>
    run finishStep (FinishRun.new .client) ops =
      .ok (true, (29, [⟨⟨2⟩, ⟨0, 17⟩, false⟩]), .ok (true, true)) by decide +kernel)
  obtain ⟨hm, hv⟩ := Prod.mk.inj hv
  obtain ⟨hhist, hv⟩ := Prod.mk.inj hv
  obtain ⟨hlen, hacked⟩ := Prod.mk.inj hhist
  obtain ⟨s', hs', hv⟩ := Checked.map_eq_ok.mp hv
  obtain ⟨hgone, hevents⟩ := Prod.mk.inj hv
  refine ⟨ops, by decide +kernel, r, m, s', hr, of_decide_eq_true hm, hs', Option.isNone_iff_eq_none.mp hgone,
    of_decide_eq_true hevents, fun hc => ?_⟩
  obtain ⟨a, ha, -, hx⟩ := (hc.2.2 20).mpr (by rw [hlen]; decide)
  rw [hacked] at ha
  revert a
  decide

end MzQuic
