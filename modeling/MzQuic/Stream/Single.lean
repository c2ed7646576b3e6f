import MzQuic.Stream.Moves
import MzQuic.Stream.Outgoing

/-!
# Streams that are written one segment at a time

A write appends one segment to the send buffer, and `get` returns bytes of one segment only. So a frame has all bytes
that it announces if the application writes to a stream once, or waits before it writes again until the peer has
acknowledged what it wrote.

* `Single`: no send buffer has two segments; `Single.rest`: what is left of such a buffer is one piece;
* **`writeStreamFrames_whole`**: if the loop over the streams returns, it cuts no range that it sends;
* `StreamsOp.Waits`: a write finds nothing buffered on its stream; **`streamsStep_single`**: an operation keeps
  `Single`;
* **`waiting_writes_carried`**: in every run of such an application the frames carry what it wrote.
-/

namespace MzQuic

open Lib

namespace SendBuffer

/-- At most one segment is buffered. -/
def Single (b : SendBuffer) : Prop := b.unackedSegments.length ≤ 1

section Single

variable {b b' : SendBuffer} {W : Bytes}

theorem Single.ack (hs : b.Single) {range : Range} (h : b.ack range = .ok b') : b'.Single := by
  obtain ⟨base, -, h⟩ := Checked.bind_eq_ok.mp h
  obtain ⟨⟨freed, segs⟩, h1, h⟩ := Checked.bind_eq_ok.mp h
  obtain ⟨len, -, h⟩ := Checked.bind_eq_ok.mp h
  cases h
  obtain ⟨pre, hpre, -⟩ := drainLoop_ok h1
  unfold Single at hs ⊢
  rw [hpre, List.length_append] at hs
  exact (Nat.le_add_left _ _).trans hs

theorem Single.write (h : b.unackedSegments = []) (data : Bytes) : (b.write data).Single := by
  unfold Single SendBuffer.write
  rw [h]
  exact le_rfl

theorem Single.retransmit (hs : b.Single) {range : Range} (h : b.retransmit range = .ok b') : b'.Single := by
  obtain ⟨u, -, h⟩ := Checked.bind_eq_ok.mp h
  cases h
  exact hs

theorem Single.sent (hs : b.Single) (stop : ℕ) : (b.sent stop).Single := by
  unfold Single
  rwa [sent_unackedSegments]

/-- **The rest of the segment** is the rest of the buffer. -/
theorem Single.rest (hs : b.Single) (h : b.WF W) {x : ℕ} (hb : b.base ≤ x) (hx : x < b.offset) :
    b.offset = x + b.rest x := by
  have hlen := h.length
  have hle := h.len_le
  have hbase : b.base = b.offset - b.unackedLen := rfl
  unfold SendBuffer.rest
  unfold Single at hs
  match hsegs : b.unackedSegments with
  | [] =>
      rw [hsegs, List.flatten_nil, List.length_nil] at hlen
      omega
  | [seg] =>
      rw [hsegs, List.flatten_cons, List.flatten_nil, List.append_nil] at hlen
      unfold segRest
      rw [if_pos (by omega)]
      omega
  | _ :: _ :: _ =>
      rw [hsegs] at hs
      simp at hs

end Single

end SendBuffer

namespace StreamsState

/-- No send buffer has two segments. -/
def Single (s : StreamsState) : Prop := ∀ id, ∀ stream ∈ s.send id, stream.pending.Single

section Single

variable {s s' : StreamsState} {wrote : StreamId → Bytes} {fair : Bool} {buf buf' : BufMut}

theorem Single.update (hs : s.Single) {id : StreamId} {e : Option Send} (he : ∀ stream ∈ e, stream.pending.Single)
    (h : s'.send = Function.update s.send id e) : s'.Single := by
  unfold Single
  rw [h]
  exact (Function.forall_update_iff s.send fun _ x => ∀ stream ∈ x, stream.pending.Single).mpr ⟨he, fun i _ => hs i⟩

theorem Single.of_eq (hs : s.Single) (h : s'.send = s.send) : s'.Single := by
  unfold Single
  rw [h]
  exact hs

theorem streamTurn_single {t : Turn} (hs : s.Single) (h : streamTurn fair s buf = .ok (t, s', buf')) : s'.Single := by
  obtain ⟨-, he⟩ | ⟨m, stream, enc, hp, -⟩ := streamTurn_polls h
  · exact hs.of_eq he
  · refine hs.update (fun x hx => ?_) hp.send
    cases hx
    exact (hs m.id stream hp.entry).sent _

/-! ## Ranges that are sent -/

/-- A range that is sent is empty, or its bytes are taken from the buffer. -/
theorem sendTurn_gets {t : Turn} {id : StreamId} {stream : Send}
    (h : sendTurn fair s buf id stream = .ok (t, s', buf')) :
    ∃ range enc pending, stream.pending.pollTransmit buf.remainingMut = .ok ((range, enc), pending) ∧
      (range.isEmpty = true ∨ ∃ data, pending.get range = .ok data) := by
  obtain ⟨⟨⟨range, enc⟩, pending⟩, hpoll, h⟩ := Checked.bind_eq_ok.mp h
  refine ⟨range, enc, pending, hpoll, ?_⟩
  cases hempty : range.isEmpty with
  | true => exact .inl rfl
  | false =>
      dsimp only at h
      rw [hempty, Bool.false_and, if_neg (by decide)] at h
      obtain ⟨buf₁, -, h⟩ := Checked.bind_eq_ok.mp h
      obtain ⟨buf₂, hput, -⟩ := Checked.bind_eq_ok.mp h
      rw [if_neg (by decide)] at hput
      obtain ⟨data, hget, -⟩ := Checked.bind_eq_ok.mp hput
      exact .inr ⟨data, hget⟩

/-- **What is sent of a stream is whole**: `get` has returned, and there is only one segment. -/
theorem sendTurn_whole {t : Turn} {id : StreamId} {stream : Send} (hs : stream.pending.Single)
    (hw : stream.pending.WF W) (h : sendTurn fair s buf id stream = .ok (t, s', buf')) :
    (clamped stream.pending.nextRange.start stream.pending.nextRange.end buf.remainingMut).1 ≤
      stream.pending.nextRange.start + stream.pending.rest stream.pending.nextRange.start := by
  obtain ⟨range, enc, pending, hpoll, hgets⟩ := sendTurn_gets h
  obtain ⟨h16, hc, hstart, rfl⟩ := SendBuffer.pollTransmit_ok hpoll
  rw [← (clampNew_clamped h16 hc).2, ← hstart]
  dsimp only
  obtain ⟨hse, hes⟩ := clampNew_ok hc
  obtain ⟨-, hend⟩ := SendBuffer.nextRange_bounds hw
  rcases hgets with hempty | ⟨data, hget⟩
  · have := Range.isEmpty_iff.mp hempty
    omega
  · have hbase := SendBuffer.base_le_of_get hget
    rw [SendBuffer.sent_base] at hbase
    rcases Nat.lt_or_ge range.start stream.pending.offset with hlt | hge
    · have := hs.rest hw hbase hlt
      omega
    · omega

theorem streamTurn_whole {t : Turn} (hs : s.Single) (hw : ∀ id, ∀ stream ∈ s.send id, stream.pending.WF (wrote id))
    (h : streamTurn fair s buf = .ok (t, s', buf')) : s.Whole buf := by
  rintro hroom ⟨x, q⟩ hpop stream hstream hlive
  unfold streamTurn at h
  rw [if_neg (Nat.not_lt.mpr hroom), hpop] at h
  dsimp only at h
  rw [hstream] at h
  dsimp only at h
  rw [if_neg (by simpa [Send.isReset] using hlive)] at h
  cases hpend : stream.isPending with
  | true =>
      rw [hpend] at h
      exact sendTurn_whole (hs x.id stream hstream) (hw x.id stream hstream) h
  | false =>
      -- the stream has nothing to send
      have hunsent := (Bool.or_eq_false_iff.mp hpend).1
      obtain ⟨hsent, hlost⟩ := Bool.or_eq_false_iff.mp hunsent
      rw [(SendBuffer.sent_new (by simpa using hlost) 0).1]
      have hoff : stream.pending.unsent = stream.pending.offset := by simpa using hsent
      dsimp only
      unfold clamped
      split_ifs <;> dsimp only <;> omega

/-- **All rounds of the loop.** -/
theorem writeLoop_whole {n : ℕ} {metas : List StreamMeta} (hs : s.Single)
    (hw : ∀ id, ∀ stream ∈ s.send id, stream.pending.WF (wrote id))
    (h : writeLoop fair n s buf = .ok (metas, s', buf')) :
    TurnsMeet fair Whole n s buf := by
  induction n generalizing s s' buf buf' metas with
  | zero => trivial
  | succ n ih =>
      unfold writeLoop at h
      obtain ⟨⟨t, s₁, buf₁⟩, h1, h⟩ := Checked.bind_eq_ok.mp h
      refine ⟨streamTurn_whole hs hw h1, fun t₂ s₂ buf₂ h2 hne => ?_⟩
      obtain ⟨rfl, rfl, rfl⟩ : t = t₂ ∧ s₁ = s₂ ∧ buf₁ = buf₂ := by
        have e := Except.ok.inj (h1.symm.trans h2)
        exact ⟨congrArg (·.1) e, congrArg (·.2.1) e, congrArg (·.2.2) e⟩
      have hs₁ := streamTurn_single hs h1
      have hw₁ := streamTurn_buffers h1 hw
      cases t with
      | stop => exact absurd rfl hne
      | skip => exact ih hs₁ hw₁ h
      | sent m =>
          obtain ⟨⟨metas', s₃, buf₃⟩, h3, -⟩ := Checked.bind_eq_ok.mp h
          exact ih hs₁ hw₁ h3

theorem writeStreamFrames_whole {metas : List StreamMeta} (hs : s.Single)
    (hw : ∀ id, ∀ stream ∈ s.send id, stream.pending.WF (wrote id))
    (h : s.writeStreamFrames buf fair = .ok (metas, s', buf')) : TurnsMeet fair Whole (s.writeFuel buf) s buf :=
  writeLoop_whole hs hw h

end Single

end StreamsState

/-- A write finds nothing buffered on its stream. -/
def StreamsOp.Waits (r : StreamsRun) : StreamsOp → Prop
  | .write _ id _ => ∀ stream ∈ r.state.send id, stream.pending.unackedSegments = []
  | _ => True

instance (r : StreamsRun) : ∀ op : StreamsOp, Decidable (op.Waits r)
  | .write _ id _ => inferInstanceAs (Decidable (∀ stream ∈ r.state.send id, stream.pending.unackedSegments = []))
  | .open _ | .finish _ | .reset .. | .setPriority .. | .read .. | .stop .. | .takeReset _ | .received ..
  | .receivedReset _ | .receivedStopSending _ | .resetAcked _ | .writeStreamFrames ..
  | .receivedAckOf _ | .retransmit _ => .isTrue trivial

/-- **An operation leaves at most one segment in each buffer.** -/
theorem streamsStep_single (r : StreamsRun) (op : StreamsOp) (r' : StreamsRun) (hs : r.state.Single)
    (ha : op.Waits r) (h : streamsStep r op = .ok r') : r'.state.Single := by
  cases streamsStep_move h with
  | same hquiet he hf => exact hs.of_eq he
  | tuned id hquiet he hsend hst hp hfin =>
      refine hs.update (fun x hx => ?_) hsend
      cases hx
      rw [hp]
      exact hs id _ he
  | opened dir =>
      refine hs.update (fun x hx => ?_) (StreamsState.open_send r.state dir)
      cases hx
      exact Nat.zero_le 1
  | written id data hst hsend =>
      refine hs.update (fun x hx => ?_) hsend
      cases hx
      -- a send half that the write makes has an empty buffer too
      have hnil : ((r.state.send id).getD Send.default).pending.unackedSegments = [] := by
        cases he : r.state.send id with
        | some stream => exact ha stream he
        | none => rfl
      exact .write hnil data
  | @finished _ id stream hok he hst hsend | @reset _ id errorCode stream he hsend =>
      refine hs.update (fun x hx => ?_) hsend
      cases hx
      exact hs id stream he
  | dropped id hsend => exact hs.update (e := none) nofun hsend
  | sent buf fair hw =>
      exact StreamsState.writeStreamFrames_inv (I := fun _ s _ => s.Single)
        (fun _ _ _ _ _ _ hI _ ht => StreamsState.streamTurn_single hI ht) hs (StreamsState.TurnsMeet.trivial ..) hw
  | acked m he hlive hp hsend =>
      rcases hsend with hsend | hsend
      · exact hs.update (e := none) nofun hsend
      · refine hs.update (fun x hx => ?_) hsend
        cases hx
        exact (hs m.id _ he).ack hp
  | lost m he hlive hp hsend =>
      refine hs.update (fun x hx => ?_) hsend
      cases hx
      exact (hs m.id _ he).retransmit hp
  | ackIgnored | lossIgnored => exact hs

/-- **Frames carry what was written**, without a condition on the ranges that are sent, for an application that writes
to a stream only while nothing of it is buffered. -/
theorem waiting_writes_carried {side : Side} {ops : List StreamsOp} {r : StreamsRun}
    (hf : Meets streamsStep (fun r op => op.Fresh r) (StreamsRun.new side) ops)
    (ha : Meets streamsStep (fun r op => op.Waits r) (StreamsRun.new side) ops)
    (h : run streamsStep (StreamsRun.new side) ops = .ok r) {buf buf' : BufMut} {fair : Bool}
    {metas : List StreamMeta} {s' : StreamsState} (he : r.state.writeStreamFrames buf fair = .ok (metas, s', buf')) :
    ∃ bytes, buf'.written = buf.written ++ bytes ∧ Carries r.wrote metas bytes := by
  have hbuf : r.Buffers := run_buffers hf h
  have hs : r.state.Single := run_inv streamsStep_single (fun id x hx => by cases hx) ha h
  exact writeStreamFrames_carries hbuf (StreamsState.writeStreamFrames_whole hs hbuf he) he

/-- The second write waits for the acknowledgement of the first. -/
example : ∃ ops, Meets streamsStep (fun r op => op.Fresh r ∧ op.Waits r) (StreamsRun.new .client) ops ∧
    ∃ r, run streamsStep (StreamsRun.new .client) ops = .ok r ∧ r.wrote ⟨2⟩ = [1, 2, 3] :=
  ⟨[.open .uni, .write false ⟨2⟩ [1, 2], .writeStreamFrames (.withCapacity 100) false,
    .receivedAckOf ⟨⟨2⟩, ⟨0, 2⟩, false⟩, .write false ⟨2⟩ [3]], by decide, _, rfl, by decide⟩

end MzQuic
