import MzQuic.Proto.Encode
import MzQuic.Stream.Run

/-!
# The send side of the streams, step by step (`core/src/connection/stream/state.rs`)

* one lemma for each operation says what it does to the table of send halves: `write_send`,
  `finish_send`, `receivedAckOf_send`, `retransmit_send` and so on;
* `streamTurn_cases`, `streamTurn_polls`: what one round of the loop of `write_stream_frames` does, and what it does
  to the table;
* `writeLoop_fuel`: the number of rounds that `writeStreamFrames` allows is never reached;
* `writeStreamFrames_inv`, `writeStreamFrames_avoids`: what every round keeps, the loop keeps, and a panic that no
  round runs into, the loop does not run into;
* `writeStreamFrames_nil_iff`: the loop sends nothing exactly if no stream of the queue is ready.
-/

namespace MzQuic

open Lib

namespace StreamsState

variable {s s' : StreamsState}

@[simp] theorem setSend_send (s : StreamsState) (id : StreamId) (x : Option Send) :
    (s.setSend id x).send = Function.update s.send id x := rfl

/-! ## The table of send halves -/

theorem open_send (s : StreamsState) (dir : Dir) :
    (s.open dir).2.send = Function.update s.send (s.open dir).1 (some Send.default) := by
  unfold «open»
  cases dir <;> rfl

theorem open_next (s : StreamsState) (dir : Dir) : (s.open dir).2.side = s.side ∧
    (s.open dir).2.next = Function.update s.next dir (s.next dir + 1) := by
  unfold «open»
  cases dir <;> exact ⟨rfl, rfl⟩

/-- A send half that was there as `stream` becomes `stream'`, and is queued unless it was pending. -/
def wake (s : StreamsState) (id : StreamId) (stream stream' : Send) : StreamsState :=
  if !stream.isPending then (s.setSend id (some stream')).pushPending id stream'.priority
  else s.setSend id (some stream')

@[simp] theorem wake_send (s : StreamsState) (id : StreamId) (stream stream' : Send) :
    (s.wake id stream stream').send = Function.update s.send id (some stream') := by
  unfold wake
  split_ifs <;> rfl

theorem wake_pending (s : StreamsState) (id : StreamId) (stream stream' : Send) :
    (s.wake id stream stream').pending =
      if stream.isPending then s.pending else s.pending.pushPending id stream'.priority := by
  unfold wake
  cases stream.isPending <;> rfl

/-- **What `write` does**: it fails on a closed connection; or on the stream, whose send half is made if there
was none; or adds to the data. -/
theorem write_cases {closed : Bool} {id : StreamId} {data : Bytes} {res : Except WriteError Unit}
    (h : s.write closed id data = (res, s')) :
    (res ≠ .ok () ∧ (s' = s ∨ s' = s.setSend id (some ((s.send id).getD Send.default)))) ∨
    (res = .ok () ∧ closed = false ∧ ((s.send id).getD Send.default).state = .ready ∧
      s' = s.wake id ((s.send id).getD Send.default) { (s.send id).getD Send.default with
        pending := ((s.send id).getD Send.default).pending.write data }) := by
  unfold write at h
  split_ifs at h with hc
  · cases h
    exact .inl ⟨by simp, .inl rfl⟩
  · dsimp only at h
    cases hw : ((s.send id).getD Send.default).write data with
    | error e =>
        rw [hw] at h
        cases h
        exact .inl ⟨by simp, .inr rfl⟩
    | ok stream =>
        rw [hw] at h
        cases h
        unfold Send.write at hw
        split_ifs at hw with hr
        split at hw
        · cases hw
        · cases hw
          exact .inr ⟨rfl, by simpa using hc, by simpa [Send.isWritable] using hr, rfl⟩

theorem write_send {closed : Bool} {id : StreamId} {data : Bytes} {res : Except WriteError Unit}
    (h : s.write closed id data = (res, s')) :
    (res ≠ .ok () ∧ (s'.send = s.send ∨
      s'.send = Function.update s.send id (some ((s.send id).getD Send.default)))) ∨
    (res = .ok () ∧ ((s.send id).getD Send.default).state = .ready ∧
      s'.send = Function.update s.send id (some { (s.send id).getD Send.default with
        pending := ((s.send id).getD Send.default).pending.write data })) := by
  obtain ⟨hne, rfl | rfl⟩ | ⟨hok, -, hst, rfl⟩ := write_cases h
  · exact .inl ⟨hne, .inl rfl⟩
  · exact .inl ⟨hne, .inr rfl⟩
  · exact .inr ⟨hok, hst, wake_send ..⟩

/-- **What `finish` does**: it fails, or marks the end of a stream that is ready and was not stopped. -/
theorem finish_cases {id : StreamId} {res : Except FinishError Unit} (h : s.finish id = (res, s')) :
    (res ≠ .ok () ∧ s' = s) ∨ ∃ stream, res = .ok () ∧ s.send id = some stream ∧
      stream.state = .ready ∧ stream.stopReason = none ∧
      s' = s.wake id stream { stream with state := .dataSent false, finPending := true } := by
  unfold finish at h
  cases hs : s.send id with
  | none =>
      rw [hs] at h
      cases h
      exact .inl ⟨by simp, rfl⟩
  | some stream =>
      rw [hs] at h
      dsimp only at h
      cases hf : stream.finish with
      | error e =>
          rw [hf] at h
          cases h
          exact .inl ⟨by simp, rfl⟩
      | ok stream' =>
          rw [hf] at h
          cases h
          unfold Send.finish at hf
          cases hstop : stream.stopReason with
          | some code =>
              rw [hstop] at hf
              cases hf
          | none =>
              rw [hstop] at hf
              dsimp only at hf
              split_ifs at hf with hr
              cases hf
              refine .inr ⟨stream, rfl, rfl, hr, hstop, ?_⟩
              rw [← hstop]
              rfl

theorem finish_send {id : StreamId} {res : Except FinishError Unit} (h : s.finish id = (res, s')) :
    (res ≠ .ok () ∧ s' = s) ∨ ∃ stream, res = .ok () ∧ s.send id = some stream ∧
      stream.state = .ready ∧ stream.stopReason = none ∧ s'.send = Function.update s.send id
        (some { stream with state := .dataSent false, finPending := true }) := by
  obtain hfail | ⟨stream, hok, hs, hst, hstop, rfl⟩ := finish_cases h
  · exact .inl hfail
  · exact .inr ⟨stream, hok, hs, hst, hstop, wake_send ..⟩

/-- What `reset` does. -/
theorem reset_cases (s : StreamsState) (pending : Retransmits) (id : StreamId) (errorCode : ℕ) :
    (s.reset pending id errorCode).2.1 = s ∨ ∃ stream, s.send id = some stream ∧
      (s.reset pending id errorCode).2.1 = s.setSend id (some { stream with state := .resetSent }) := by
  unfold reset
  cases hs : s.send id with
  | none => exact .inl rfl
  | some stream =>
      dsimp only
      split_ifs with hr
      · exact .inl rfl
      · refine .inr ⟨stream, rfl, ?_⟩
        have : stream.reset = { stream with state := .resetSent } := by
          unfold Send.reset
          split <;> simp_all
        rw [this]

theorem reset_send (s : StreamsState) (pending : Retransmits) (id : StreamId) (errorCode : ℕ) :
    (s.reset pending id errorCode).2.1.send = s.send ∨ ∃ stream, s.send id = some stream ∧
      (s.reset pending id errorCode).2.1.send =
        Function.update s.send id (some { stream with state := .resetSent }) := by
  obtain h | ⟨stream, hs, h⟩ := s.reset_cases pending id errorCode
  · exact .inl (congrArg send h)
  · exact .inr ⟨stream, hs, congrArg send h⟩

/-- What an acknowledged reset does. -/
theorem resetAcked_cases (s : StreamsState) (id : StreamId) :
    s.resetAcked id = s ∨ ∃ stream, s.send id = some stream ∧ stream.state = .resetSent ∧
      s.resetAcked id = s.setSend id none := by
  unfold resetAcked
  cases hs : s.send id with
  | none => exact .inl rfl
  | some stream =>
      dsimp only
      split_ifs with hr
      · exact .inr ⟨stream, rfl, hr, rfl⟩
      · exact .inl rfl

theorem resetAcked_send (s : StreamsState) (id : StreamId) :
    (s.resetAcked id).send = s.send ∨ ∃ stream, s.send id = some stream ∧ stream.state = .resetSent ∧
      (s.resetAcked id).send = Function.update s.send id none := by
  obtain h | ⟨stream, hs, hst, h⟩ := s.resetAcked_cases id
  · exact .inl (congrArg send h)
  · exact .inr ⟨stream, hs, hst, congrArg send h⟩

/-- What `set_priority` does. -/
theorem setPriority_cases (s : StreamsState) (id : StreamId) (priority : ℤ) :
    (s.setPriority id priority).2 = s ∨ ∃ stream, s.send id = some stream ∧
      (s.setPriority id priority).2 = s.setSend id (some { stream with priority := priority }) := by
  unfold setPriority
  cases hs : s.send id with
  | none => exact .inl rfl
  | some stream => exact .inr ⟨stream, rfl, rfl⟩

theorem setPriority_send (s : StreamsState) (id : StreamId) (priority : ℤ) :
    (s.setPriority id priority).2.send = s.send ∨ ∃ stream, s.send id = some stream ∧
      (s.setPriority id priority).2.send =
        Function.update s.send id (some { stream with priority := priority }) := by
  obtain h | ⟨stream, hs, h⟩ := s.setPriority_cases id priority
  · exact .inl (congrArg send h)
  · exact .inr ⟨stream, hs, congrArg send h⟩

/-- `received_stop_sending` accepts the frame. -/
def AcceptsStop (s : StreamsState) (frame : StopSending) : Prop :=
  ¬ (frame.id.initiator ≠ s.side ∧ frame.id.dir = .uni) ∧
    ¬ (frame.id.initiator = s.side ∧ frame.id.index ≥ s.next frame.id.dir)

instance (s : StreamsState) (frame : StopSending) : Decidable (s.AcceptsStop frame) :=
  inferInstanceAs (Decidable (_ ∧ _))

/-- **What `received_stop_sending` does**: it rejects the frame; or announces it for a stream without a
send half; or notes the reason and announces it; or finds an earlier reason. -/
theorem receivedStopSending_cases (s : StreamsState) (frame : StopSending) :
    (¬ s.AcceptsStop frame ∧ (∃ e, (s.receivedStopSending frame).1 = .error e) ∧
      (s.receivedStopSending frame).2 = s) ∨
    (s.AcceptsStop frame ∧ (s.receivedStopSending frame).1 = .ok () ∧
      ((s.send frame.id = none ∧
        (s.receivedStopSending frame).2 = s.sendEvent (.stopped frame.id frame.errorCode)) ∨
      ∃ stream, s.send frame.id = some stream ∧
        ((stream.stopReason = none ∧ (s.receivedStopSending frame).2 =
          (s.setSend frame.id (some { stream with stopReason := some frame.errorCode })).sendEvent
            (.stopped frame.id frame.errorCode)) ∨
        (∃ code, stream.stopReason = some code ∧
          (s.receivedStopSending frame).2 = s.setSend frame.id (some stream))))) := by
  unfold receivedStopSending AcceptsStop
  split_ifs with h1 h2
  · exact .inl ⟨fun h => h.1 h1, ⟨_, rfl⟩, rfl⟩
  · exact .inl ⟨fun h => h.2 h2, ⟨_, rfl⟩, rfl⟩
  · right
    refine ⟨⟨h1, h2⟩, ?_⟩
    cases hs : s.send frame.id with
    | none => exact ⟨rfl, .inl ⟨rfl, rfl⟩⟩
    | some stream =>
        cases hr : stream.stopReason with
        | none =>
            have ht : stream.tryStop frame.errorCode =
                (true, { stream with stopReason := some frame.errorCode }) := by
              unfold Send.tryStop
              rw [hr]
            simp only [ht]
            exact ⟨trivial, .inr ⟨stream, rfl, .inl ⟨hr, rfl⟩⟩⟩
        | some code =>
            have ht : stream.tryStop frame.errorCode = (false, stream) := by
              unfold Send.tryStop
              rw [hr]
            simp only [ht]
            exact ⟨trivial, .inr ⟨stream, rfl, .inr ⟨code, hr, rfl⟩⟩⟩

theorem receivedStopSending_send (s : StreamsState) (frame : StopSending) :
    (s.receivedStopSending frame).2.send = s.send ∨ ∃ stream reason, s.send frame.id = some stream ∧
      (s.receivedStopSending frame).2.send =
        Function.update s.send frame.id (some { stream with stopReason := reason }) := by
  obtain ⟨-, -, h⟩ | ⟨-, -, ⟨-, h⟩ | ⟨stream, hs, ⟨-, h⟩ | ⟨code, hr, h⟩⟩⟩ := s.receivedStopSending_cases frame
  · exact .inl (by rw [h])
  · exact .inl (by rw [h]; rfl)
  · exact .inr ⟨stream, some frame.errorCode, hs, by rw [h]; rfl⟩
  · exact .inr ⟨stream, stream.stopReason, hs, by rw [h]; rfl⟩

/-! The receive side touches neither the table nor the queue, and announces only what can be read. -/

/-- The send side is the same. -/
structure SameSend (s s' : StreamsState) : Prop where
  side : s'.side = s.side
  next : s'.next = s.next
  send : s'.send = s.send
  pending : s'.pending = s.pending
  events : ∃ l, s'.events = s.events ++ l ∧ ∀ e ∈ l, ∃ id, e = .stream (.readable id)

namespace SameSend

theorem refl (s : StreamsState) : s.SameSend s := ⟨rfl, rfl, rfl, rfl, [], by simp, by simp⟩

theorem trans {t : StreamsState} (h : s.SameSend t) (h' : t.SameSend s') : s.SameSend s' := by
  obtain ⟨l, hl, hr⟩ := h.events
  obtain ⟨l', hl', hr'⟩ := h'.events
  refine ⟨h'.side.trans h.side, h'.next.trans h.next, h'.send.trans h.send, h'.pending.trans h.pending,
    l ++ l', by rw [hl', hl, List.append_assoc], fun e he => ?_⟩
  rcases List.mem_append.mp he with he | he
  · exact hr e he
  · exact hr' e he

theorem setRecv (s : StreamsState) (id : StreamId) (x : Option Recv) : s.SameSend (s.setRecv id x) :=
  ⟨rfl, rfl, rfl, rfl, [], by simp [StreamsState.setRecv], by simp⟩

theorem readable (s : StreamsState) (id : StreamId) : s.SameSend (s.sendEvent (.readable id)) :=
  ⟨rfl, rfl, rfl, rfl, [.stream (.readable id)], rfl, by simp⟩

end SameSend

theorem received_sameSend {frame : Stream} {payloadLen : ℕ} {res : Except TransportError Unit}
    (h : s.received frame payloadLen = .ok (res, s')) : s.SameSend s' := by
  unfold received at h
  cases hv : s.validateReceiveId frame.id with
  | error e =>
      rw [hv] at h
      cases h
      exact .refl s
  | ok u =>
      rw [hv] at h
      dsimp only at h
      cases he : s.recvEntry frame with
      | none =>
          rw [he] at h
          cases h
          exact .refl s
      | some rs =>
          rw [he] at h
          dsimp only at h
          have hnew := SameSend.setRecv s frame.id (some rs)
          split_ifs at h
          · cases h
            exact hnew
          · obtain ⟨⟨res', rs'⟩, -, h⟩ := Checked.bind_eq_ok.mp h
            rcases res' with e | ⟨n, closed⟩
            · cases h
              exact hnew.trans (.setRecv ..)
            · dsimp only at h
              have hkept := hnew.trans (.setRecv _ frame.id (some rs'))
              split_ifs at h
              · cases h
                exact hkept.trans (.readable ..)
              · cases h
                exact hkept
              · cases h
                exact hkept.trans (.setRecv ..)
              · cases h
                exact hkept

theorem receivedReset_sameSend (s : StreamsState) (frame : ResetStream) :
    s.SameSend (s.receivedReset frame).2 := by
  unfold receivedReset
  split
  · exact .refl s
  · dsimp only
    split
    · exact .setRecv ..
    · exact .setRecv ..
    · split_ifs
      · exact .setRecv ..
      · exact (SameSend.setRecv ..).trans (.readable ..)

theorem read_sameSend {id : StreamId} {ordered : Bool} {res : Except ReadableError Chunks}
    (h : s.read id ordered = .ok (res, s')) : s.SameSend s' := by
  unfold read at h
  split at h
  · cases h
    exact .refl s
  · split_ifs at h
    · cases h
      exact .refl s
    · dsimp only at h
      split at h <;> cases h <;> exact .setRecv ..

theorem readChunks_sameSend {id : StreamId} {lengths : List ℕ}
    (h : s.readChunks id lengths = .ok s') : s.SameSend s' := by
  obtain ⟨⟨res, s₁⟩, hr, h⟩ := Checked.bind_eq_ok.mp h
  have hread := read_sameSend hr
  cases res with
  | error e =>
      cases h
      exact hread
  | ok c =>
      obtain ⟨c', -, h⟩ := Checked.bind_eq_ok.mp h
      cases h
      unfold dropChunks
      split
      · exact hread.trans (.setRecv ..)
      · exact hread

theorem stop_sameSend {pending pending' : Retransmits} {id : StreamId} {errorCode : ℕ}
    {res : Except ClosedStream Unit} (h : s.stop pending id errorCode = .ok (res, s', pending')) :
    s.SameSend s' := by
  unfold stop at h
  split at h
  · cases h
    exact .refl s
  · obtain ⟨⟨res', rs'⟩, -, h⟩ := Checked.bind_eq_ok.mp h
    rcases res' with e | ⟨n, b⟩
    · cases h
      exact .refl s
    · cases h
      exact .setRecv ..

theorem takeReset_sameSend (s : StreamsState) (id : StreamId) : s.SameSend (s.takeReset id).2 := by
  unfold takeReset
  split
  · exact .refl s
  · split_ifs
    · exact .refl s
    · split
      · exact .refl s
      · exact .setRecv ..

/-- An acknowledgement is ignored, or recorded, or the last one that the stream waits for. -/
theorem receivedAckOf_cases {m : StreamMeta} (h : s.receivedAckOf m = .ok s') :
    (s' = s ∧ ∀ stream ∈ s.send m.id, stream.state = .resetSent) ∨
    ∃ stream pending, s.send m.id = some stream ∧ stream.state ≠ .resetSent ∧
      stream.pending.ack m.offsets = .ok pending ∧
      ((stream.state ≠ .ready ∧ s' = (s.setSend m.id none).sendEvent (.finished m.id)) ∨
        s' = s.setSend m.id (some { stream with
          pending := pending
          state := match stream.state with
            | .dataSent finishAcked => .dataSent (finishAcked || m.fin)
            | x => x })) := by
  unfold receivedAckOf at h
  cases hs : s.send m.id with
  | none =>
      rw [hs] at h
      cases h
      exact .inl ⟨rfl, fun x hx => by cases hx⟩
  | some stream =>
      rw [hs] at h
      dsimp only at h
      split_ifs at h with hr
      · cases h
        exact .inl ⟨rfl, fun x hx => by cases hx; simpa [Send.isReset] using hr⟩
      · right
        obtain ⟨⟨done, stream'⟩, ha, h⟩ := Checked.bind_eq_ok.mp h
        obtain ⟨pending, hp, ha⟩ := Checked.bind_eq_ok.mp ha
        refine ⟨stream, pending, rfl, by simpa [Send.isReset] using hr, hp, ?_⟩
        cases hst : stream.state with
        | ready =>
            rw [hst] at ha
            cases ha
            cases h
            exact .inr rfl
        | resetSent => exact absurd (by simp [Send.isReset, hst]) hr
        | dataSent fa =>
            rw [hst] at ha
            cases ha
            cases hd : ((fa || m.fin) && pending.isFullyAcked) with
            | true =>
                simp only [hd] at h
                cases h
                exact .inl ⟨by simp, rfl⟩
            | false =>
                simp only [hd] at h
                cases h
                exact .inr rfl

theorem receivedAckOf_send {m : StreamMeta} (h : s.receivedAckOf m = .ok s') :
    (s' = s ∧ ∀ stream ∈ s.send m.id, stream.state = .resetSent) ∨
    ∃ stream pending, s.send m.id = some stream ∧ stream.state ≠ .resetSent ∧
      stream.pending.ack m.offsets = .ok pending ∧
      ((stream.state ≠ .ready ∧ s'.send = Function.update s.send m.id none) ∨
        s'.send = Function.update s.send m.id (some { stream with
          pending := pending
          state := match stream.state with
            | .dataSent finishAcked => .dataSent (finishAcked || m.fin)
            | x => x })) := by
  obtain hno | ⟨stream, pending, hs, hlive, hp, ⟨hst, rfl⟩ | rfl⟩ := receivedAckOf_cases h
  · exact .inl hno
  · exact .inr ⟨stream, pending, hs, hlive, hp, .inl ⟨hst, rfl⟩⟩
  · exact .inr ⟨stream, pending, hs, hlive, hp, .inr rfl⟩

/-- A lost range is ignored, or put back into the buffer; nothing is done about a lost FIN. -/
theorem retransmit_cases {m : StreamMeta} (h : s.retransmit m = .ok s') :
    (s' = s ∧ ∀ stream ∈ s.send m.id, stream.state = .resetSent) ∨
    ∃ stream pending, s.send m.id = some stream ∧ stream.state ≠ .resetSent ∧
      stream.pending.retransmit m.offsets = .ok pending ∧
      s' = s.wake m.id stream { stream with pending := pending } := by
  unfold retransmit at h
  cases hs : s.send m.id with
  | none =>
      rw [hs] at h
      cases h
      exact .inl ⟨rfl, fun x hx => by cases hx⟩
  | some stream =>
      rw [hs] at h
      dsimp only at h
      by_cases hr : stream.isReset = true
      · rw [if_pos hr] at h
        cases h
        exact .inl ⟨rfl, fun x hx => by cases hx; simpa [Send.isReset] using hr⟩
      · rw [if_neg hr] at h
        obtain ⟨pending, hp, h⟩ := Checked.bind_eq_ok.mp h
        exact .inr ⟨stream, pending, rfl, by simpa [Send.isReset] using hr, hp, (Except.ok.inj h).symm⟩

theorem retransmit_send {m : StreamMeta} (h : s.retransmit m = .ok s') :
    (s' = s ∧ ∀ stream ∈ s.send m.id, stream.state = .resetSent) ∨
    ∃ stream pending, s.send m.id = some stream ∧ stream.state ≠ .resetSent ∧
      stream.pending.retransmit m.offsets = .ok pending ∧
      s'.send = Function.update s.send m.id (some { stream with pending := pending }) := by
  obtain hno | ⟨stream, pending, hs, hlive, hp, rfl⟩ := retransmit_cases h
  · exact .inl hno
  · exact .inr ⟨stream, pending, hs, hlive, hp, wake_send ..⟩

end StreamsState

/-! ## One round of the loop -/

theorem popMax_eq_none {l : List PendingStream} (h : popMax l = none) : l = [] := by
  cases l with
  | nil => rfl
  | cons y ys =>
      unfold popMax at h
      split at h
      · cases h
      · split_ifs at h

theorem popMax_perm {l rest : List PendingStream} {x : PendingStream}
    (h : popMax l = some (x, rest)) : l.Perm (x :: rest) := by
  induction l generalizing x rest with
  | nil => cases h
  | cons y ys ih =>
      unfold popMax at h
      cases hp : popMax ys with
      | none =>
          rw [hp] at h
          cases h
          rw [popMax_eq_none hp]
      | some p =>
          obtain ⟨m, r⟩ := p
          rw [hp] at h
          dsimp only at h
          split_ifs at h
          · cases h
            exact ((ih hp).cons y).trans (.swap x y r)
          · cases h
            exact .refl _

/-- The entry that is popped is one of the queue, and the others stay. -/
theorem PendingStreamsQueue.pop_perm {q q' : PendingStreamsQueue} {x : PendingStream}
    (h : q.pop = some (x, q')) : q.entries.Perm (x :: q'.entries) := by
  unfold pop at h
  cases hn : q.next with
  | some y =>
      rw [hn] at h
      cases h
      simp [entries, hn]
  | none =>
      rw [hn] at h
      obtain ⟨⟨y, rest⟩, hp, he⟩ := Option.map_eq_some_iff.mp h
      cases he
      simpa [entries, hn] using popMax_perm hp

theorem PendingStreamsQueue.pop_length {q q' : PendingStreamsQueue} {x : PendingStream}
    (h : q.pop = some (x, q')) : q.entries.length = q'.entries.length + 1 := by
  rw [(pop_perm h).length_eq, List.length_cons]

theorem PendingStreamsQueue.pop_eq_none {q : PendingStreamsQueue} (h : q.pop = none) : q.entries = [] := by
  unfold pop at h
  cases hn : q.next with
  | some y =>
      rw [hn] at h
      cases h
  | none =>
      rw [hn] at h
      simp [entries, hn, popMax_eq_none (Option.map_eq_none_iff.mp h)]

/-- A send half that was polled up to `stop`, with the FIN sent or not. -/
def Send.polled (stream : Send) (stop : ℕ) (fin : Bool) : Send :=
  { stream with
    pending := stream.pending.sent stop
    finPending := stream.finPending && !fin }

namespace StreamsState

variable {s s' : StreamsState}

/-- A round polls the stream `m.id` with the send half `stream`, which gives the range and the FIN
of `m`, and whether the length is to be encoded. -/
structure Polls (s : StreamsState) (buf : BufMut) (m : StreamMeta) (stream : Send) (enc : Bool)
    (s' : StreamsState) : Prop where
  room : Stream.sizeBound ≤ buf.remainingMut
  entry : s.send m.id = some stream
  live : stream.state ≠ .resetSent
  pending : stream.isPending = true
  polled : stream.pending.pollTransmit buf.remainingMut =
    .ok ((m.offsets, enc), stream.pending.sent m.offsets.end)
  fin : m.fin = (stream.finPending && m.offsets.end = stream.pending.offset)
  send : s'.send = Function.update s.send m.id (some (stream.polled m.offsets.end m.fin))
  recv : s'.recv = s.recv

/-- The bytes of a polled range. -/
def rangeData (stream : Send) (range : Range) : Checked Bytes :=
  if range.isEmpty then .ok [] else stream.pending.get range

theorem sendTurn_cases {fair : Bool} {buf buf' : BufMut} {t : Turn} {id : StreamId} {stream : Send}
    (hs : s.send id = some stream) (hl : stream.state ≠ .resetSent) (hp : stream.isPending = true)
    (hroom : Stream.sizeBound ≤ buf.remainingMut)
    (h : sendTurn fair s buf id stream = .ok (t, s', buf')) :
    (t = .stop ∧ buf' = buf ∧ ∃ m enc, Polls s buf m stream enc s' ∧ m.fin = false) ∨
    ∃ m enc data buf₁, t = .sent m ∧ m.id = id ∧ Polls s buf m stream enc s' ∧
      m.encode enc buf = .ok buf₁ ∧
      rangeData (stream.polled m.offsets.end m.fin) m.offsets = .ok data ∧
      buf₁.putSlice data = .ok buf' ∧
      s'.pending.entries.length ≤ s.pending.entries.length + 1 := by
  unfold sendTurn at h
  obtain ⟨⟨⟨range, enc⟩, pending⟩, hpoll, h⟩ := Checked.bind_eq_ok.mp h
  obtain ⟨-, -, -, rfl⟩ := SendBuffer.pollTransmit_ok hpoll
  dsimp only at h
  have hoff : (stream.pending.sent range.end).offset = stream.pending.offset := by simp
  rw [hoff] at h
  set fin := stream.finPending && decide (range.end = stream.pending.offset) with hfin
  by_cases hstop : (range.isEmpty && !fin) = true
  · rw [if_pos hstop] at h
    cases h
    obtain ⟨-, hf⟩ : _ ∧ fin = false := by simpa using hstop
    exact .inl ⟨rfl, rfl, ⟨id, range, fin⟩, enc, ⟨hroom, hs, hl, hp, hpoll, hfin, rfl, rfl⟩, hf⟩
  · rw [if_neg hstop] at h
    right
    obtain ⟨buf₁, he, h⟩ := Checked.bind_eq_ok.mp h
    obtain ⟨buf₂, hput, h⟩ := Checked.bind_eq_ok.mp h
    have hdata : ∃ data, rangeData (stream.polled range.end fin) range = .ok data ∧
        buf₁.putSlice data = .ok buf₂ := by
      unfold rangeData
      split_ifs at hput ⊢ with hemp
      · cases hput
        exact ⟨[], rfl, by simp [BufMut.putSlice]⟩
      · obtain ⟨data, hg, hput⟩ := Checked.bind_eq_ok.mp hput
        exact ⟨data, hg, hput⟩
    obtain ⟨data, hd, hput⟩ := hdata
    refine ⟨⟨id, range, fin⟩, enc, data, buf₁, ?_⟩
    split_ifs at h with h1 h2
    · cases h
      exact ⟨rfl, rfl, ⟨hroom, hs, hl, hp, hpoll, hfin, rfl, rfl⟩, he, hd, hput, Nat.le_succ _⟩
    · cases h
      refine ⟨rfl, rfl, ⟨hroom, hs, hl, hp, hpoll, hfin, rfl, rfl⟩, he, hd, hput, ?_⟩
      simp [pushPending, setSend, PendingStreamsQueue.pushPending, PendingStreamsQueue.entries]
      omega
    · obtain ⟨q, hq, h⟩ := Checked.bind_eq_ok.mp h
      cases h
      refine ⟨rfl, rfl, ⟨hroom, hs, hl, hp, hpoll, hfin, rfl, rfl⟩, he, hd, hput, ?_⟩
      obtain ⟨u, ha, hq⟩ := Checked.bind_eq_ok.mp hq
      cases hq
      have hn := Checked.assert_eq_ok.mp ha
      simp [setSend, PendingStreamsQueue.entries]

/-- **What a round can do.** It ends the loop, skips an entry of the queue, or sends a frame. -/
theorem streamTurn_cases {fair : Bool} {buf buf' : BufMut} {t : Turn}
    (h : streamTurn fair s buf = .ok (t, s', buf')) :
    (t = .stop ∧ buf' = buf ∧ (s' = s ∨ ∃ m stream enc, Polls s buf m stream enc s' ∧
      m.fin = false)) ∨
    (t = .skip ∧ buf' = buf ∧ ∃ x q, s.pending.pop = some (x, q) ∧ s' = { s with pending := q }) ∨
    ∃ m stream enc data buf₁, t = .sent m ∧ (∃ x q, s.pending.pop = some (x, q) ∧ x.id = m.id) ∧
      Polls s buf m stream enc s' ∧ m.encode enc buf = .ok buf₁ ∧
      rangeData (stream.polled m.offsets.end m.fin) m.offsets = .ok data ∧
      buf₁.putSlice data = .ok buf' ∧
      s'.pending.entries.length ≤ s.pending.entries.length := by
  unfold streamTurn at h
  by_cases hroom : buf.remainingMut < Stream.sizeBound
  · rw [if_pos hroom] at h
    cases h
    exact .inl ⟨rfl, rfl, .inl rfl⟩
  rw [if_neg hroom] at h
  cases hp : s.pending.pop with
  | none =>
      rw [hp] at h
      cases h
      exact .inl ⟨rfl, rfl, .inl rfl⟩
  | some p =>
      obtain ⟨x, q⟩ := p
      rw [hp] at h
      dsimp only at h
      have hq := PendingStreamsQueue.pop_length hp
      cases hs : s.send x.id with
      | none =>
          rw [hs] at h
          cases h
          exact .inr (.inl ⟨rfl, rfl, x, q, rfl, rfl⟩)
      | some stream =>
          rw [hs] at h
          dsimp only at h
          split_ifs at h with hr hpend
          · cases h
            exact .inr (.inl ⟨rfl, rfl, x, q, rfl, rfl⟩)
          · cases h
            exact .inr (.inl ⟨rfl, rfl, x, q, rfl, rfl⟩)
          · have hlive : stream.state ≠ .resetSent := by simpa [Send.isReset] using hr
            have hpd : stream.isPending = true := by simpa using hpend
            rcases sendTurn_cases (s := { s with pending := q }) hs hlive hpd (by omega) h with
              ⟨ht, hb, m, enc, hm, hf⟩ | ⟨m, enc, data, buf₁, ht, hid, hm, h1, h2, h3, hl⟩
            · exact .inl ⟨ht, hb, .inr ⟨m, stream, enc, ⟨hm.room, hm.entry, hm.live, hm.pending,
                hm.polled, hm.fin, hm.send, hm.recv⟩, hf⟩⟩
            · exact .inr (.inr ⟨m, stream, enc, data, buf₁, ht, ⟨x, q, rfl, hid.symm⟩, ⟨hm.room,
                hm.entry, hm.live, hm.pending, hm.polled, hm.fin, hm.send, hm.recv⟩, h1, h2, h3,
                by dsimp only at hl; omega⟩)

/-- The frame that a round sends. -/
def Turn.metas : Turn → List StreamMeta
  | .stop => []
  | .skip => []
  | .sent m => [m]

/-- What a round does to the table: nothing, or it polls a stream, and drops no FIN. -/
theorem streamTurn_polls {fair : Bool} {buf buf' : BufMut} {t : Turn} (h : streamTurn fair s buf = .ok (t, s', buf')) :
    (t.metas = [] ∧ s'.send = s.send) ∨
      ∃ m stream enc, Polls s buf m stream enc s' ∧ (t.metas = [m] ∨ t.metas = [] ∧ m.fin = false) := by
  obtain ⟨rfl, -, rfl | ⟨m, stream, enc, hp, hf⟩⟩ | ⟨rfl, -, x, q, -, rfl⟩ |
    ⟨m, stream, enc, -, -, rfl, -, hp, -⟩ := streamTurn_cases h
  · exact .inl ⟨rfl, rfl⟩
  · exact .inr ⟨m, stream, enc, hp, .inr ⟨rfl, hf⟩⟩
  · exact .inl ⟨rfl, rfl⟩
  · exact .inr ⟨m, stream, enc, hp, .inl rfl⟩

/-! ## The buffers -/

/-- The buffers of a table whose entry `id` is replaced. -/
theorem wf_update {f : StreamId → Option Send} {wrote : StreamId → Bytes} {id : StreamId}
    {e : Option Send} (h : ∀ i, ∀ stream ∈ f i, stream.pending.WF (wrote i))
    (he : ∀ stream ∈ e, stream.pending.WF (wrote id)) (i : StreamId) :
    ∀ stream ∈ Function.update f id e i, stream.pending.WF (wrote i) :=
  (Function.forall_update_iff f fun i x => ∀ stream ∈ x, stream.pending.WF (wrote i)).mpr
    ⟨he, fun i _ => h i⟩ i

theorem streamTurn_buffers {fair : Bool} {buf buf' : BufMut}
    {t : Turn} {wrote : StreamId → Bytes}
    (h : streamTurn fair s buf = .ok (t, s', buf'))
    (hI : ∀ id, ∀ stream ∈ s.send id, stream.pending.WF (wrote id)) :
    ∀ id, ∀ stream ∈ s'.send id, stream.pending.WF (wrote id) := by
  obtain ⟨-, hs⟩ | ⟨m, stream, enc, hp, -⟩ := streamTurn_polls h
  · rwa [hs]
  · rw [hp.send]
    refine wf_update hI fun x hx => ?_
    cases hx
    obtain ⟨-, hc, -, -⟩ := SendBuffer.pollTransmit_ok hp.polled
    obtain ⟨h1, h2⟩ := clampNew_ok hc
    exact ((hI m.id stream hp.entry).sent h1 h2).1

/-! ## The loop -/

/-- A round that does not end the loop takes an entry off the queue or writes a frame. -/
theorem streamTurn_fuel {fair : Bool} {buf buf' : BufMut} {t : Turn}
    (h : streamTurn fair s buf = .ok (t, s', buf')) (ht : t ≠ .stop) :
    s'.writeFuel buf' < s.writeFuel buf := by
  unfold writeFuel
  rcases streamTurn_cases h with ⟨rfl, -⟩ | ⟨-, rfl, x, q, hp, rfl⟩ |
    ⟨m, stream, enc, data, buf₁, -, -, -, he, -, hput, hl⟩
  · exact absurd rfl ht
  · have := PendingStreamsQueue.pop_length hp
    dsimp only
    omega
  · obtain ⟨-, -, -, hroom, rfl⟩ := StreamMeta.encode_ok he
    obtain ⟨-, rfl⟩ := (appends_putSlice data).eq_ok hput
    have hpos := varintSize_pos (m.ty enc)
    simp only [StreamMeta.header, List.length_append, length_varintBytes] at hroom
    simp only [BufMut.append, StreamMeta.header, List.length_append, length_varintBytes]
    omega

theorem writeLoop_eq {fair : Bool} {n k : ℕ} {buf : BufMut} (hn : s.writeFuel buf ≤ n)
    (hk : s.writeFuel buf ≤ k) : writeLoop fair n s buf = writeLoop fair k s buf := by
  induction n generalizing k s buf with
  | zero => unfold writeFuel at hn; omega
  | succ n ih =>
      obtain ⟨k, rfl⟩ : ∃ j, k = j + 1 := ⟨k - 1, by unfold writeFuel at hk; omega⟩
      unfold writeLoop
      cases ht : streamTurn fair s buf with
      | error p => rfl
      | ok r =>
          obtain ⟨t, s', buf'⟩ := r
          have hf := streamTurn_fuel ht
          cases t with
          | stop => rfl
          | skip =>
              have := hf (by simp)
              exact ih (by omega) (by omega)
          | sent m =>
              have := hf (by simp)
              simp only [Checked.ok_bind]
              rw [ih (show s'.writeFuel buf' ≤ n by omega) (show s'.writeFuel buf' ≤ k by omega)]

/-- **The bound on the rounds is never what ends the loop.** -/
theorem writeLoop_fuel {fair : Bool} {n : ℕ} {buf : BufMut} (hn : s.writeFuel buf ≤ n) :
    writeLoop fair n s buf = s.writeStreamFrames buf fair := writeLoop_eq hn le_rfl

/-- Every round of the loop begins in a state where `ok` holds. -/
def TurnsMeet (fair : Bool) (ok : StreamsState → BufMut → Prop) : ℕ → StreamsState → BufMut → Prop
  | 0, _, _ => True
  | n + 1, s, buf => ok s buf ∧ ∀ t s' buf', streamTurn fair s buf = .ok (t, s', buf') → t ≠ .stop →
      TurnsMeet fair ok n s' buf'

instance TurnsMeet.decidable {fair : Bool} {ok : StreamsState → BufMut → Prop}
    [∀ s buf, Decidable (ok s buf)] : ∀ n s buf, Decidable (TurnsMeet fair ok n s buf)
  | 0, _, _ => .isTrue trivial
  | n + 1, s, buf =>
    match h : streamTurn fair s buf with
    | .error _ => decidable_of_iff (ok s buf)
        ⟨fun hk => ⟨hk, fun t s' buf' hs => by rw [h] at hs; cases hs⟩, fun hm => hm.1⟩
    | .ok (t, s', buf') =>
        have : Decidable (TurnsMeet fair ok n s' buf') := TurnsMeet.decidable n s' buf'
        decidable_of_iff (ok s buf ∧ (t ≠ .stop → TurnsMeet fair ok n s' buf'))
          ⟨fun hk => ⟨hk.1, fun t s' buf' hs => by rw [h] at hs; cases hs; exact hk.2⟩,
            fun hm => ⟨hm.1, hm.2 t s' buf' h⟩⟩

theorem TurnsMeet.trivial (fair : Bool) (n : ℕ) (s : StreamsState) (buf : BufMut) :
    TurnsMeet fair (fun _ _ => True) n s buf := by
  induction n generalizing s buf with
  | zero => exact True.intro
  | succ n ih => exact ⟨True.intro, fun _ s' buf' _ _ => ih s' buf'⟩

theorem writeLoop_inv {fair : Bool} {ok : StreamsState → BufMut → Prop}
    {I : List StreamMeta → StreamsState → BufMut → Prop}
    (hstep : ∀ ms s buf t s' buf', I ms s buf → ok s buf →
      streamTurn fair s buf = .ok (t, s', buf') → I (ms ++ t.metas) s' buf')
    {n : ℕ} {ms metas : List StreamMeta} {buf buf' : BufMut} (hI : I ms s buf)
    (hm : TurnsMeet fair ok n s buf) (h : writeLoop fair n s buf = .ok (metas, s', buf')) :
    I (ms ++ metas) s' buf' := by
  induction n generalizing ms metas s buf with
  | zero =>
      cases h
      rwa [List.append_nil]
  | succ n ih =>
      unfold writeLoop at h
      obtain ⟨⟨t, s₁, buf₁⟩, ht, h⟩ := Checked.bind_eq_ok.mp h
      have h1 := hstep ms s buf t s₁ buf₁ hI hm.1 ht
      cases t with
      | stop =>
          cases h
          exact h1
      | skip =>
          rw [Turn.metas, List.append_nil] at h1
          exact ih h1 (hm.2 _ _ _ ht (by simp)) h
      | sent m =>
          obtain ⟨⟨metas', s₂, buf₂⟩, hrec, h⟩ := Checked.bind_eq_ok.mp h
          cases h
          have := ih h1 (hm.2 _ _ _ ht (by simp)) hrec
          rwa [Turn.metas, List.append_assoc, List.singleton_append] at this

/-- **Invariance along the rounds of the loop**; the invariant speaks of the frames sent so far. -/
theorem writeStreamFrames_inv {fair : Bool} {ok : StreamsState → BufMut → Prop}
    {I : List StreamMeta → StreamsState → BufMut → Prop}
    (hstep : ∀ ms s buf t s' buf', I ms s buf → ok s buf →
      streamTurn fair s buf = .ok (t, s', buf') → I (ms ++ t.metas) s' buf')
    {metas : List StreamMeta} {buf buf' : BufMut} (hI : I [] s buf)
    (hm : TurnsMeet fair ok (s.writeFuel buf) s buf)
    (h : s.writeStreamFrames buf fair = .ok (metas, s', buf')) : I metas s' buf' := by
  have := writeLoop_inv hstep hI hm h
  rwa [List.nil_append] at this

/-! ## Panics of the loop -/

section Avoids

variable {p : Panic} {fair : Bool} {buf : BufMut}

/-- A round panics only in the turn of a stream. -/
theorem streamTurn_avoids (h : Stream.sizeBound ≤ buf.remainingMut → ∀ x q, s.pending.pop = some (x, q) →
      ∀ stream, s.send x.id = some stream → stream.isReset = false → stream.isPending = true →
        Checked.Avoids p (sendTurn fair { s with pending := q } buf x.id stream) fun _ => True) :
    Checked.Avoids p (streamTurn fair s buf) fun _ => True := by
  unfold streamTurn
  refine .ite (fun _ => .ok trivial) fun hroom => ?_
  cases hp : s.pending.pop with
  | none => exact .ok trivial
  | some y =>
      obtain ⟨x, q⟩ := y
      dsimp only
      cases hs : s.send x.id with
      | none => exact .ok trivial
      | some stream =>
          refine .ite (fun _ => .ok trivial) fun hr => .ite (fun _ => .ok trivial) fun hpd => ?_
          exact h (Nat.le_of_not_lt hroom) x q hp stream hs (by simpa using hr) (by simpa using hpd)

/-- **A panic that no round runs into, the loop does not run into.** -/
theorem writeStreamFrames_avoids {ok : StreamsState → BufMut → Prop}
    (hstep : ∀ s buf, ok s buf → Checked.Avoids p (streamTurn fair s buf) fun _ => True)
    (hm : TurnsMeet fair ok (s.writeFuel buf) s buf) :
    Checked.Avoids p (s.writeStreamFrames buf fair) fun _ => True := by
  unfold writeStreamFrames
  generalize s.writeFuel buf = n at hm
  induction n generalizing s buf with
  | zero => exact .ok trivial
  | succ n ih =>
      unfold writeLoop
      refine (hstep s buf hm.1).and_eq.bind fun ⟨t, s', buf'⟩ ht => ?_
      cases t with
      | stop => exact .ok trivial
      | skip => exact ih (hm.2 _ s' buf' ht.2 (by simp))
      | sent m => exact (ih (hm.2 _ s' buf' ht.2 (by simp))).bind fun _ _ => .ok trivial

end Avoids

/-! ## When the loop sends something -/

/-- The stream `id` has something to send. -/
def ready (s : StreamsState) (id : StreamId) : Bool := (s.send id).any fun x => !x.isReset && x.isPending

theorem ready_eq_true {id : StreamId} : s.ready id = true ↔
    ∃ stream, s.send id = some stream ∧ stream.isReset = false ∧ stream.isPending = true := by
  simp [ready, Option.any_eq_true]

/-- A stream that is polled sends a frame. -/
theorem sendTurn_sends {fair : Bool} {buf buf' : BufMut} {t : Turn} {id : StreamId} {stream : Send}
    {W : Bytes} (hW : stream.pending.WF W) (hp : stream.isPending = true)
    (hroom : Stream.sizeBound ≤ buf.remainingMut)
    (h : sendTurn fair s buf id stream = .ok (t, s', buf')) : ∃ m, t = .sent m := by
  unfold sendTurn at h
  obtain ⟨⟨⟨range, enc⟩, pending⟩, hpoll, h⟩ := Checked.bind_eq_ok.mp h
  obtain ⟨-, -, -, rfl⟩ := SendBuffer.pollTransmit_ok hpoll
  have htakes : (range.isEmpty &&
      !(stream.finPending && decide (range.end = (stream.pending.sent range.end).offset))) = false := by
    cases hu : stream.pending.hasUnsentData with
    | true =>
        rw [SendBuffer.pollTransmit_takes hW hu (by unfold Stream.sizeBound at hroom; omega) hpoll,
          Bool.false_and]
    | false =>
        -- only the FIN is left
        have hfin : stream.finPending = true := by simpa [Send.isPending, hu] using hp
        have hend := SendBuffer.pollTransmit_end hu hpoll
        simp [hfin, hend]
  dsimp only at h
  rw [htakes, if_neg Bool.false_ne_true] at h
  obtain ⟨buf₁, -, h⟩ := Checked.bind_eq_ok.mp h
  obtain ⟨buf₂, -, h⟩ := Checked.bind_eq_ok.mp h
  split_ifs at h
  · cases h
    exact ⟨_, rfl⟩
  · cases h
    exact ⟨_, rfl⟩
  · obtain ⟨q, -, h⟩ := Checked.bind_eq_ok.mp h
    cases h
    exact ⟨_, rfl⟩

/-- **A round with room** takes an entry off the queue, and sends a frame exactly if its stream is
ready. -/
theorem streamTurn_pops {fair : Bool} {buf buf' : BufMut} {t : Turn}
    (hb : ∀ id, ∃ W, ∀ stream ∈ s.send id, stream.pending.WF W)
    (hroom : Stream.sizeBound ≤ buf.remainingMut) {x : PendingStream} {q : PendingStreamsQueue}
    (hpop : s.pending.pop = some (x, q)) (h : streamTurn fair s buf = .ok (t, s', buf')) :
    (s.ready x.id = true ∧ ∃ m, t = .sent m) ∨
      (s.ready x.id = false ∧ t = .skip ∧ s' = { s with pending := q } ∧ buf' = buf) := by
  unfold streamTurn at h
  rw [if_neg (by omega), hpop] at h
  dsimp only at h
  unfold ready
  cases hs : s.send x.id with
  | none =>
      rw [hs] at h
      cases h
      exact .inr ⟨rfl, rfl, rfl, rfl⟩
  | some stream =>
      rw [hs] at h
      dsimp only at h
      split_ifs at h with hr hp
      · cases h
        exact .inr ⟨by simp [hr], rfl, rfl, rfl⟩
      · cases h
        exact .inr ⟨by simpa using fun _ => by simpa using hp, rfl, rfl, rfl⟩
      · obtain ⟨W, hW⟩ := hb x.id
        have hpend : stream.isPending = true := by simpa using hp
        exact .inl ⟨by simp [hr, hpend], sendTurn_sends (hW stream hs) hpend hroom h⟩

/-- **The loop sends nothing** exactly if no stream of the queue is ready. -/
theorem writeLoop_nil_iff {fair : Bool} {n : ℕ} {buf buf' : BufMut} {metas : List StreamMeta}
    (hb : ∀ id, ∃ W, ∀ stream ∈ s.send id, stream.pending.WF W)
    (hroom : Stream.sizeBound ≤ buf.remainingMut) (hn : s.pending.entries.length ≤ n)
    (h : writeLoop fair n s buf = .ok (metas, s', buf')) :
    metas = [] ↔ ∀ x ∈ s.pending.entries, s.ready x.id = false := by
  induction n generalizing s with
  | zero =>
      cases h
      rw [List.eq_nil_of_length_eq_zero (Nat.le_zero.mp hn)]
      simp
  | succ n ih =>
      unfold writeLoop at h
      obtain ⟨⟨t, s₁, buf₁⟩, ht, hrest⟩ := Checked.bind_eq_ok.mp h
      cases hpop : s.pending.pop with
      | none =>
          have hstop : t = .stop := by
            unfold streamTurn at ht
            rw [if_neg (by omega), hpop] at ht
            cases ht
            rfl
          subst hstop
          cases hrest
          rw [PendingStreamsQueue.pop_eq_none hpop]
          simp
      | some p =>
          obtain ⟨x, q⟩ := p
          have hperm := PendingStreamsQueue.pop_perm hpop
          have hlen := PendingStreamsQueue.pop_length hpop
          rcases streamTurn_pops hb hroom hpop ht with ⟨hr, m, rfl⟩ | ⟨hr, rfl, rfl, rfl⟩
          · obtain ⟨⟨metas', s₂, buf₂⟩, -, hrest⟩ := Checked.bind_eq_ok.mp hrest
            cases hrest
            refine iff_of_false (by simp) fun hall => ?_
            rw [hall x (hperm.mem_iff.mpr List.mem_cons_self)] at hr
            cases hr
          · rw [ih (s := { s with pending := q }) hb (show q.entries.length ≤ n by omega) hrest]
            simp only [hperm.mem_iff, List.forall_mem_cons]
            exact ⟨fun hall => ⟨hr, hall⟩, fun hall => hall.2⟩

/-- **Whether a packet carries STREAM frames.** -/
theorem writeStreamFrames_nil_iff {fair : Bool} {buf buf' : BufMut} {metas : List StreamMeta}
    (hb : ∀ id, ∃ W, ∀ stream ∈ s.send id, stream.pending.WF W)
    (hroom : Stream.sizeBound ≤ buf.remainingMut)
    (h : s.writeStreamFrames buf fair = .ok (metas, s', buf')) :
    metas = [] ↔ ∀ x ∈ s.pending.entries, s.ready x.id = false :=
  writeLoop_nil_iff hb hroom (by unfold writeFuel; omega) h

end StreamsState

end MzQuic
