import MzQuic.Stream.Transmit

/-!
# What a step does to the send halves

* `SendMove`: the ways in which an operation changes the table of send halves and the history;
* **`streamsStep_move`**: every operation moves in one of these ways. Each invariant of the send side
  goes through the moves, not through the operations;
* `streamsStep_sameSend`, `streamsStep_onlySend`: the operations of the receive side leave the send side alone, and
  the others the receive side;
* `streamsStep_steady`: only `open` counts streams, and only `received_stop_sending` announces a stop.
-/

namespace MzQuic

open Lib

/-- The entry that `received_ack_of` leaves, if it leaves one. -/
def Send.acked (stream : Send) (m : StreamMeta) (pending : SendBuffer) : Send :=
  { stream with
    pending := pending
    state := match stream.state with
      | .dataSent finishAcked => .dataSent (finishAcked || m.fin)
      | x => x }

/-- A stream that is neither there nor live: an acknowledgement or a loss does nothing to it. -/
def StreamsState.Gone (s : StreamsState) (id : StreamId) : Prop :=
  ∀ stream ∈ s.send id, stream.state = .resetSent

/-- The operation neither acknowledges a frame nor finishes a stream. -/
def StreamsOp.Quiet (r : StreamsRun) : StreamsOp → Prop
  | .receivedAckOf _ => False
  | .finish id => (r.state.finish id).1 ≠ .ok ()
  | _ => True

/-- The moves of the send side. -/
inductive SendMove (r : StreamsRun) : StreamsOp → StreamsRun → Prop
  /-- No send half changes. -/
  | same {op : StreamsOp} {s : StreamsState} {finished : List StreamId} (hop : op.Quiet r)
      (hs : s.send = r.state.send) (hf : finished ⊆ r.finished) :
      SendMove r op { r with state := s, finished := finished }
  /-- A send half changes in neither its state nor its data. -/
  | tuned {op : StreamsOp} {s : StreamsState} (id : StreamId) {stream stream' : Send} (hop : op.Quiet r)
      (he : r.state.send id = some stream) (hs : s.send = Function.update r.state.send id (some stream'))
      (hst : stream'.state = stream.state) (hp : stream'.pending = stream.pending)
      (hfin : stream'.finPending = stream.finPending) : SendMove r op { r with state := s }
  | opened (dir : Dir) : SendMove r (.open dir) { r with
      state := (r.state.open dir).2
      finished := r.finished.filter (· ≠ (r.state.open dir).1) }
  | written {s : StreamsState} (id : StreamId) (data : Bytes)
      (hst : ((r.state.send id).getD Send.default).state = .ready)
      (hs : s.send = Function.update r.state.send id (some { (r.state.send id).getD Send.default with
        pending := ((r.state.send id).getD Send.default).pending.write data })) :
      SendMove r (.write false id data)
        { r with state := s, wrote := Function.update r.wrote id (r.wrote id ++ data) }
  | finished {s : StreamsState} (id : StreamId) {stream : Send} (hok : (r.state.finish id).1 = .ok ())
      (he : r.state.send id = some stream) (hst : stream.state = .ready)
      (hs : s.send = Function.update r.state.send id
        (some { stream with state := .dataSent false, finPending := true })) :
      SendMove r (.finish id) { r with state := s, finished := id :: r.finished }
  | reset {s : StreamsState} (id : StreamId) (errorCode : ℕ) {stream : Send} (he : r.state.send id = some stream)
      (hs : s.send = Function.update r.state.send id (some { stream with state := .resetSent })) :
      SendMove r (.reset id errorCode) { r with state := s }
  | dropped {s : StreamsState} (id : StreamId) (hs : s.send = Function.update r.state.send id none) :
      SendMove r (.resetAcked id) { r with state := s, finished := s.present r.finished }
  | sent {s : StreamsState} {metas : List StreamMeta} {buf' : BufMut} (buf : BufMut) (fair : Bool)
      (h : r.state.writeStreamFrames buf fair = .ok (metas, s, buf')) :
      SendMove r (.writeStreamFrames buf fair) { r with state := s, flight := r.flight ++ metas }
  | acked {s : StreamsState} (m : StreamMeta) {stream : Send} {pending : SendBuffer}
      (he : r.state.send m.id = some stream) (hlive : stream.state ≠ .resetSent)
      (hp : stream.pending.ack m.offsets = .ok pending)
      (hs : s.send = Function.update r.state.send m.id none ∨
        s.send = Function.update r.state.send m.id (some (stream.acked m pending))) :
      SendMove r (.receivedAckOf m)
        { r with state := s, flight := r.flight.erase m, finished := s.present r.finished }
  | ackIgnored (m : StreamMeta) (hg : r.state.Gone m.id) : SendMove r (.receivedAckOf m)
      { r with flight := r.flight.erase m, finished := r.state.present r.finished }
  | lost {s : StreamsState} (m : StreamMeta) {stream : Send} {pending : SendBuffer}
      (he : r.state.send m.id = some stream) (hlive : stream.state ≠ .resetSent)
      (hp : stream.pending.retransmit m.offsets = .ok pending)
      (hs : s.send = Function.update r.state.send m.id (some { stream with pending := pending })) :
      SendMove r (.retransmit m) { r with state := s, flight := r.flight.erase m }
  | lossIgnored (m : StreamMeta) (hg : r.state.Gone m.id) : SendMove r (.retransmit m)
      { r with flight := r.flight.erase m }

/-- A write that fails leaves the send halves as they are. -/
theorem StreamsState.write_fails {s s' : StreamsState} {closed : Bool} {id : StreamId} {data : Bytes}
    {e : WriteError} (h : s.write closed id data = (.error e, s')) : s'.send = s.send := by
  unfold write at h
  split_ifs at h
  · cases h
    rfl
  · dsimp only at h
    cases hs : s.send id with
    | none =>
        rw [hs] at h
        cases h
    | some stream =>
        rw [hs, Option.getD_some] at h
        split at h
        · cases h
          rw [setSend_send, ← hs, Function.update_eq_self]
        · cases h

/-- **Every operation moves.** -/
theorem streamsStep_move {r r' : StreamsRun} {op : StreamsOp} (h : streamsStep r op = .ok r') :
    SendMove r op r' := by
  have hsub : ∀ s : StreamsState, s.present r.finished ⊆ r.finished := fun s => List.filter_subset_self _
  cases op with
  | «open» dir =>
      cases h
      exact .opened dir
  | write closed id data =>
      rcases hw : r.state.write closed id data with ⟨res, s⟩
      simp only [streamsStep, hw] at h
      cases res with
      | error e =>
          cases h
          exact .same trivial (StreamsState.write_fails hw) (List.Subset.refl _)
      | ok u =>
          cases h
          obtain ⟨hne, -⟩ | ⟨-, hst, hs⟩ := StreamsState.write_send hw
          · exact absurd rfl hne
          · cases closed with
            | true => cases hw
            | false => exact .written id data hst hs
  | finish id =>
      rcases hw : r.state.finish id with ⟨res, s⟩
      simp only [streamsStep, hw] at h
      obtain ⟨hne, rfl⟩ | ⟨stream, rfl, he, hst, -, hs⟩ := StreamsState.finish_send hw
      · cases res with
        | error e =>
            cases h
            exact .same (by rw [StreamsOp.Quiet, hw]; exact hne) rfl (List.Subset.refl _)
        | ok u => exact absurd rfl hne
      · cases h
        exact .finished id (by rw [hw]) he hst hs
  | reset id errorCode =>
      cases h
      obtain hs | ⟨stream, he, hs⟩ := r.state.reset_send {} id errorCode
      · exact .same trivial hs (List.Subset.refl _)
      · exact .reset id errorCode he hs
  | setPriority id priority =>
      cases h
      obtain hs | ⟨stream, he, hs⟩ := r.state.setPriority_send id priority
      · exact .same trivial hs (List.Subset.refl _)
      · exact .tuned id trivial he hs rfl rfl rfl
  | read id lengths =>
      obtain ⟨s, hs, h⟩ := Checked.bind_eq_ok.mp h
      cases h
      exact .same trivial (StreamsState.readChunks_sameSend hs).send (List.Subset.refl _)
  | stop id errorCode =>
      obtain ⟨⟨res, s, q⟩, hs, h⟩ := Checked.bind_eq_ok.mp h
      cases h
      exact .same trivial (StreamsState.stop_sameSend hs).send (List.Subset.refl _)
  | takeReset id =>
      cases h
      exact .same trivial (StreamsState.takeReset_sameSend _ id).send (List.Subset.refl _)
  | received frame payloadLen =>
      obtain ⟨⟨res, s⟩, hs, h⟩ := Checked.bind_eq_ok.mp h
      cases h
      exact .same trivial (StreamsState.received_sameSend hs).send (List.Subset.refl _)
  | receivedReset frame =>
      cases h
      exact .same trivial (StreamsState.receivedReset_sameSend _ frame).send (List.Subset.refl _)
  | receivedStopSending frame =>
      cases h
      obtain hs | ⟨stream, reason, he, hs⟩ := r.state.receivedStopSending_send frame
      · exact .same trivial hs (List.Subset.refl _)
      · exact .tuned frame.id trivial he hs rfl rfl rfl
  | resetAcked id =>
      cases h
      obtain hs | ⟨-, -, -, hs⟩ := r.state.resetAcked_send id
      · exact .same trivial hs (hsub _)
      · exact .dropped id hs
  | writeStreamFrames buf fair =>
      obtain ⟨⟨metas, s, buf'⟩, hw, h⟩ := Checked.bind_eq_ok.mp h
      cases h
      exact .sent buf fair hw
  | receivedAckOf m =>
      obtain ⟨s, ha, h⟩ := Checked.bind_eq_ok.mp h
      cases h
      obtain ⟨rfl, hg⟩ | ⟨stream, pending, he, hlive, hp, hs⟩ := StreamsState.receivedAckOf_send ha
      · exact .ackIgnored m hg
      · exact .acked m he hlive hp (hs.imp_left And.right)
  | retransmit m =>
      obtain ⟨s, ha, h⟩ := Checked.bind_eq_ok.mp h
      cases h
      obtain ⟨rfl, hg⟩ | ⟨stream, pending, he, hlive, hp, hs⟩ := StreamsState.retransmit_send ha
      · exact .lossIgnored m hg
      · exact .lost m he hlive hp hs

/-! ## What else an operation does -/

namespace StreamsState

variable {s s' : StreamsState}

/-- No stream was opened, and no stop was announced. -/
structure Steady (s s' : StreamsState) : Prop where
  side : s'.side = s.side
  next : s'.next = s.next
  events : ∃ l, s'.events = s.events ++ l ∧ ∀ id code, .stream (.stopped id code) ∉ l

theorem SameSend.steady (h : s.SameSend s') : s.Steady s' := by
  obtain ⟨l, hl, hr⟩ := h.events
  refine ⟨h.side, h.next, l, hl, fun id code hm => ?_⟩
  obtain ⟨i, hi⟩ := hr _ hm
  cases hi

/-- Only the send side has changed, and the events were announced. -/
def OnlySend (s s' : StreamsState) (es : List StreamEvent) : Prop :=
  s' = { s with send := s'.send, pending := s'.pending, events := s.events ++ es.map .stream }

theorem OnlySend.refl (s : StreamsState) : s.OnlySend s [] := by
  unfold OnlySend
  simp

theorem OnlySend.events {es : List StreamEvent} (h : s.OnlySend s' es) : s'.events = s.events ++ es.map .stream :=
  congrArg StreamsState.events h

theorem OnlySend.events_nil (h : s.OnlySend s' []) : s'.events = s.events := h.events.trans (List.append_nil _)

/-- A stop is announced as an event of its own. -/
theorem OnlySend.steady {es : List StreamEvent} (h : s.OnlySend s' es) (hes : ∀ id code, .stopped id code ∉ es) :
    s.Steady s' := by
  rw [h]
  refine ⟨rfl, rfl, es.map .stream, rfl, fun id code hm => ?_⟩
  obtain ⟨e, he, heq⟩ := List.mem_map.mp hm
  cases heq
  exact hes id code he

theorem setSend_onlySend (s : StreamsState) (id : StreamId) (x : Option Send) : s.OnlySend (s.setSend id x) [] := by
  unfold OnlySend setSend
  simp

theorem wake_onlySend (s : StreamsState) (id : StreamId) (stream stream' : Send) :
    s.OnlySend (s.wake id stream stream') [] := by
  unfold wake OnlySend setSend pushPending
  split_ifs <;> simp

theorem write_onlySend (s : StreamsState) (closed : Bool) (id : StreamId) (data : Bytes) :
    s.OnlySend (s.write closed id data).2 [] := by
  obtain ⟨-, h | h⟩ | ⟨-, -, -, h⟩ := write_cases (Prod.eta (s.write closed id data)).symm
  · rw [h]
    exact .refl s
  · rw [h]
    exact setSend_onlySend ..
  · rw [h]
    exact wake_onlySend ..

theorem finish_onlySend (s : StreamsState) (id : StreamId) : s.OnlySend (s.finish id).2 [] := by
  obtain ⟨-, h⟩ | ⟨stream, -, -, -, -, h⟩ := finish_cases (Prod.eta (s.finish id)).symm
  · rw [h]
    exact .refl s
  · rw [h]
    exact wake_onlySend ..

theorem reset_onlySend (s : StreamsState) (pending : Retransmits) (id : StreamId) (errorCode : ℕ) :
    s.OnlySend (s.reset pending id errorCode).2.1 [] := by
  obtain h | ⟨stream, -, h⟩ := s.reset_cases pending id errorCode
  · rw [h]
    exact .refl s
  · rw [h]
    exact setSend_onlySend ..

theorem setPriority_onlySend (s : StreamsState) (id : StreamId) (priority : ℤ) :
    s.OnlySend (s.setPriority id priority).2 [] := by
  obtain h | ⟨stream, -, h⟩ := s.setPriority_cases id priority
  · rw [h]
    exact .refl s
  · rw [h]
    exact setSend_onlySend ..

theorem receivedStopSending_onlySend (s : StreamsState) (frame : StopSending) :
    ∃ es, s.OnlySend (s.receivedStopSending frame).2 es ∧ ∀ e ∈ es, e = .stopped frame.id frame.errorCode := by
  have hone : ∀ e ∈ [StreamEvent.stopped frame.id frame.errorCode], e = .stopped frame.id frame.errorCode :=
    fun e he => List.mem_singleton.mp he
  obtain ⟨-, -, h⟩ | ⟨-, -, ⟨-, h⟩ | ⟨stream, -, ⟨-, h⟩ | ⟨code, -, h⟩⟩⟩ := s.receivedStopSending_cases frame
  · exact ⟨[], by rw [h]; exact .refl s, nofun⟩
  · exact ⟨_, by rw [h]; rfl, hone⟩
  · exact ⟨_, by rw [h]; rfl, hone⟩
  · exact ⟨[], by rw [h]; exact setSend_onlySend .., nofun⟩

theorem resetAcked_onlySend (s : StreamsState) (id : StreamId) : s.OnlySend (s.resetAcked id) [] := by
  obtain h | ⟨stream, -, -, h⟩ := s.resetAcked_cases id
  · rw [h]
    exact .refl s
  · rw [h]
    exact setSend_onlySend ..

theorem receivedAckOf_onlySend {m : StreamMeta} (h : s.receivedAckOf m = .ok s') :
    s.OnlySend s' [] ∨ s.OnlySend s' [.finished m.id] := by
  obtain ⟨rfl, -⟩ | ⟨stream, pending, -, -, -, ⟨-, rfl⟩ | rfl⟩ := receivedAckOf_cases h
  · exact .inl (.refl s')
  · exact .inr rfl
  · exact .inl (setSend_onlySend ..)

theorem retransmit_onlySend {m : StreamMeta} (h : s.retransmit m = .ok s') : s.OnlySend s' [] := by
  obtain ⟨rfl, -⟩ | ⟨stream, pending, -, -, -, rfl⟩ := retransmit_cases h
  · exact .refl s'
  · exact wake_onlySend ..

/-- A polled stream changes in the table, and its entry in the queue. -/
theorem sendTurn_rest {fair : Bool} {buf buf' : BufMut} {t : Turn} {id : StreamId} {stream : Send}
    (h : sendTurn fair s buf id stream = .ok (t, s', buf')) :
    s' = { s with send := s'.send, pending := s'.pending } := by
  unfold sendTurn at h
  obtain ⟨⟨⟨range, enc⟩, pending⟩, -, h⟩ := Checked.bind_eq_ok.mp h
  dsimp only at h
  by_cases hstop : (range.isEmpty && !(stream.finPending && decide (range.end = pending.offset))) = true
  · rw [if_pos hstop] at h
    cases h
    rfl
  · rw [if_neg hstop] at h
    obtain ⟨buf₁, -, h⟩ := Checked.bind_eq_ok.mp h
    obtain ⟨buf₂, -, h⟩ := Checked.bind_eq_ok.mp h
    split_ifs at h with h1 h2
    · cases h
      rfl
    · cases h
      rfl
    · obtain ⟨q, -, h⟩ := Checked.bind_eq_ok.mp h
      cases h
      rfl

/-- Stream frames are written from the send halves and the queue. -/
theorem writeStreamFrames_rest {buf buf' : BufMut} {fair : Bool} {metas : List StreamMeta}
    (h : s.writeStreamFrames buf fair = .ok (metas, s', buf')) :
    s' = { s with send := s'.send, pending := s'.pending } := by
  refine writeStreamFrames_inv (I := fun _ t _ => t = { s with send := t.send, pending := t.pending })
    (fun ms t b turn t' b' hI _ ht => ?_) rfl (TurnsMeet.trivial ..) h
  unfold streamTurn at ht
  split_ifs at ht
  · cases ht
    exact hI
  · split at ht
    · cases ht
      exact hI
    · rename_i x q _
      have hpop : { t with pending := q } = { s with send := t.send, pending := q } := by rw [hI]
      dsimp only at ht
      split at ht
      · cases ht
        exact hpop
      · split_ifs at ht
        · cases ht
          exact hpop
        · cases ht
          exact hpop
        · have := sendTurn_rest ht
          rw [hpop] at this
          exact this

theorem writeStreamFrames_onlySend {buf buf' : BufMut} {fair : Bool} {metas : List StreamMeta}
    (h : s.writeStreamFrames buf fair = .ok (metas, s', buf')) : s.OnlySend s' [] := by
  refine (writeStreamFrames_rest h).trans ?_
  rw [List.map_nil, List.append_nil]

end StreamsState

section Steps

variable {r r' : StreamsRun} {op : StreamsOp}

theorem streamsStep_write {closed : Bool} {id : StreamId} {data : Bytes}
    (h : streamsStep r (.write closed id data) = .ok r') : r'.state = (r.state.write closed id data).2 := by
  rcases hw : r.state.write closed id data with ⟨res, s⟩
  simp only [streamsStep, hw] at h
  cases res <;> cases h <;> rfl

theorem streamsStep_finish {id : StreamId} (h : streamsStep r (.finish id) = .ok r') :
    r'.state = (r.state.finish id).2 := by
  rcases hw : r.state.finish id with ⟨res, s⟩
  simp only [streamsStep, hw] at h
  cases res <;> cases h <;> rfl

/-- The operation is one of the receive side. -/
def StreamsOp.receives : StreamsOp → Bool
  | .read .. | .stop .. | .takeReset _ | .received .. | .receivedReset _ => true
  | _ => false

/-- **The operations of the receive side leave the send side alone.** -/
theorem streamsStep_sameSend (h : streamsStep r op = .ok r') (hop : op.receives = true) :
    r.state.SameSend r'.state := by
  cases op with
  | read id lengths =>
      obtain ⟨s, hs, h⟩ := Checked.bind_eq_ok.mp h
      cases h
      exact StreamsState.readChunks_sameSend hs
  | stop id errorCode =>
      obtain ⟨⟨res, s, q⟩, hs, h⟩ := Checked.bind_eq_ok.mp h
      cases h
      exact StreamsState.stop_sameSend hs
  | takeReset id =>
      cases h
      exact r.state.takeReset_sameSend id
  | received frame payloadLen =>
      obtain ⟨⟨res, s⟩, hs, h⟩ := Checked.bind_eq_ok.mp h
      cases h
      exact StreamsState.received_sameSend hs
  | receivedReset frame =>
      cases h
      exact r.state.receivedReset_sameSend frame
  | _ => cases hop

/-- **The other operations but `open` leave the receive side alone**, and announce only the end of a stream, or that
the peer stopped it. -/
theorem streamsStep_onlySend (h : streamsStep r op = .ok r') (hrecv : op.receives = false)
    (hopen : ∀ dir, op ≠ .open dir) : ∃ es, r.state.OnlySend r'.state es ∧ ∀ e ∈ es,
      (∃ id, e = .finished id) ∨ ∃ frame, op = .receivedStopSending frame ∧ e = .stopped frame.id frame.errorCode := by
  cases op with
  | «open» dir => exact absurd rfl (hopen dir)
  | read | stop | takeReset | received | receivedReset => cases hrecv
  | write closed id data => exact ⟨[], streamsStep_write h ▸ r.state.write_onlySend closed id data, nofun⟩
  | finish id => exact ⟨[], streamsStep_finish h ▸ r.state.finish_onlySend id, nofun⟩
  | reset id errorCode =>
      cases h
      exact ⟨[], r.state.reset_onlySend {} id errorCode, nofun⟩
  | setPriority id priority =>
      cases h
      exact ⟨[], r.state.setPriority_onlySend id priority, nofun⟩
  | receivedStopSending frame =>
      cases h
      obtain ⟨es, hs, hes⟩ := r.state.receivedStopSending_onlySend frame
      exact ⟨es, hs, fun e he => .inr ⟨frame, rfl, hes e he⟩⟩
  | resetAcked id =>
      cases h
      exact ⟨[], r.state.resetAcked_onlySend id, nofun⟩
  | writeStreamFrames buf fair =>
      obtain ⟨⟨metas, s, buf'⟩, hw, h⟩ := Checked.bind_eq_ok.mp h
      cases h
      exact ⟨[], StreamsState.writeStreamFrames_onlySend hw, nofun⟩
  | receivedAckOf m =>
      obtain ⟨s, hs, h⟩ := Checked.bind_eq_ok.mp h
      cases h
      obtain hnone | hone := StreamsState.receivedAckOf_onlySend hs
      · exact ⟨[], hnone, nofun⟩
      · exact ⟨_, hone, fun e he => .inl ⟨m.id, List.mem_singleton.mp he⟩⟩
  | retransmit m =>
      obtain ⟨s, hs, h⟩ := Checked.bind_eq_ok.mp h
      cases h
      exact ⟨[], StreamsState.retransmit_onlySend hs, nofun⟩

/-- **Only `open` counts streams, and only `received_stop_sending` announces a stop.** -/
theorem streamsStep_steady (h : streamsStep r op = .ok r')
    (hopen : ∀ dir, op ≠ .open dir) (hstop : ∀ frame, op ≠ .receivedStopSending frame) :
    r.state.Steady r'.state := by
  cases hrecv : op.receives with
  | true => exact (streamsStep_sameSend h hrecv).steady
  | false =>
      obtain ⟨es, hs, hes⟩ := streamsStep_onlySend h hrecv hopen
      refine hs.steady fun id code hm => ?_
      obtain ⟨i, he⟩ | ⟨frame, hop, -⟩ := hes _ hm
      · cases he
      · exact hstop frame hop

end Steps

end MzQuic
