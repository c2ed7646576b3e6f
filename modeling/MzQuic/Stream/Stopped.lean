import MzQuic.Stream.Ended

/-!
# Stopped send streams (`core/src/connection/stream/state.rs`, `send.rs`)

`received_stop_sending` notes the reason in the send half of the stream and announces it the first time.
For a stream without a send half it announces every frame and notes nothing, be it a stream whose send
half was removed or one of the peer on which nothing was written yet.

* `StopRun`: a run with the first reason received on each stream that was still being sent, and the
  streams that the application has reset since;
* `StopRun.Obeys`: such a stream refuses writes and its end with that reason, and is announced once;
* `StreamsOp.Heard`: a STOP_SENDING finds the send half, or one that was removed and never stopped;
* `streamsStep_follows`: what an operation does to the reasons in the send halves;
* **`stop_sending_obeyed`**: every state of a run obeys exactly if every STOP_SENDING of it is heard.
-/

namespace MzQuic

open Lib

/-! ## Runs with a memory of stopped streams -/

/-- The event announces that the stream was stopped. -/
def Event.stops (id : StreamId) : Event → Bool
  | .stream (.stopped i _) => i = id
  | _ => false

/-- How often it was announced that the stream was stopped. -/
def StreamsState.stops (s : StreamsState) (id : StreamId) : ℕ := s.events.countP (Event.stops id)

/-- A run, with what was stopped. -/
structure StopRun where
  run : EndedRun
  /-- The first reason received on each stream whose send half was neither finished, reset nor removed. -/
  codes : StreamId → Option ℕ
  /-- The streams that the application has reset since. -/
  resets : List StreamId

namespace StopRun

/-- A fresh connection. -/
def new (side : Side) : StopRun := ⟨EndedRun.new side, fun _ => none, []⟩

/-- The streams. -/
def state (r : StopRun) : StreamsState := r.run.state

/-- The send half of the stream was neither finished, reset nor removed. -/
def Running (r : StopRun) (id : StreamId) : Prop :=
  id ∉ r.run.ended ∧ ∀ stream ∈ r.state.send id, stream.state = .ready

instance (r : StopRun) (id : StreamId) : Decidable (r.Running id) :=
  inferInstanceAs (Decidable (_ ∧ ∀ stream ∈ r.state.send id, stream.state = .ready))

/-- On an open connection, a stream that was stopped while it was running refuses writes and its end with
the first reason, unless the application resets it; and it was announced once. -/
structure Obeys (r : StopRun) : Prop where
  refuses : ∀ id code, r.codes id = some code → id ∉ r.resets →
    (∀ data, (r.state.write false id data).1 = .error (.stopped code)) ∧
      (r.state.finish id).1 = .error (.stopped code)
  once : ∀ id, (r.codes id).isSome → r.state.stops id ≤ 1

end StopRun

/-- One operation. -/
def stopStep (r : StopRun) (op : StreamsOp) : Checked StopRun := do
  let run ← endedStep r.run op
  match op with
  | .receivedStopSending frame =>
    if (r.state.receivedStopSending frame).1.isOk ∧ r.Running frame.id ∧ r.codes frame.id = none then
      return ⟨run, Function.update r.codes frame.id (some frame.errorCode),
        r.resets.filter (· ≠ frame.id)⟩
    else return ⟨run, r.codes, r.resets⟩
  | .reset id _ => return ⟨run, r.codes, id :: r.resets⟩
  | _ => return ⟨run, r.codes, r.resets⟩

/-- A STOP_SENDING that is accepted finds the send half, or a stream that was not stopped before its send
half was removed. -/
def StreamsOp.Heard (r : StopRun) : StreamsOp → Prop
  | .receivedStopSending frame => (r.state.receivedStopSending frame).1.isOk →
      (frame.id ∉ r.run.ended → (r.state.send frame.id).isSome) ∧
        (frame.id ∈ r.run.ended → r.codes frame.id = none)
  | _ => True

instance (r : StopRun) : ∀ op : StreamsOp, Decidable (op.Heard r)
  | .receivedStopSending frame => inferInstanceAs (Decidable ((r.state.receivedStopSending frame).1.isOk →
      (frame.id ∉ r.run.ended → (r.state.send frame.id).isSome) ∧
        (frame.id ∈ r.run.ended → r.codes frame.id = none)))
  | .open _ | .write .. | .finish _ | .reset .. | .setPriority .. | .read .. | .stop .. | .takeReset _
  | .received .. | .receivedReset _ | .resetAcked _ | .writeStreamFrames .. | .receivedAckOf _
  | .retransmit _ => .isTrue trivial

/-! ## What an operation does to the reasons -/

/-- How an operation, neither `open` nor STOP_SENDING, changes the send half of the stream. -/
structure Follows (op : StreamsOp) (id : StreamId) (e e' : Option Send) : Prop where
  reason : ∀ stream ∈ e, ∀ stream' ∈ e', stream'.stopReason = stream.stopReason
  ready : ∀ stream ∈ e, ∀ stream' ∈ e', stream'.state = .ready → stream.state = .ready
  stays : ∀ stream ∈ e, stream.state = .ready → stream.stopReason ≠ none →
    (∀ code, op ≠ .reset id code) → ∃ stream' ∈ e', stream'.state = .ready
  removed : e.isSome → e' = none → op.ackId = some id
  made : e = none → ∀ stream' ∈ e', stream'.stopReason = none

/-- What the invariants say of a send half. -/
def Send.shape (stream : Send) : SendState × Option ℕ := (stream.state, stream.stopReason)

section Follows

variable {op : StreamsOp} {id : StreamId} {e e' : Option Send} {s s' : StreamsState}

/-- The send half stays, with its reason, and is ready if it was. -/
theorem Follows.kept {stream stream' : Send} (hreason : stream'.stopReason = stream.stopReason)
    (hst : stream'.state = .ready ↔ stream.state = .ready) : Follows op id (some stream) (some stream') := by
  constructor
  · rintro x ⟨⟩ y ⟨⟩
    exact hreason
  · rintro x ⟨⟩ y ⟨⟩
    exact hst.mp
  · rintro x ⟨⟩ hx - -
    exact ⟨stream', rfl, hst.mpr hx⟩
  · exact fun _ => nofun
  · exact nofun

/-- The send half stays, with its reason, and is ready no more: it was not stopped, or the application resets it. -/
theorem Follows.closed {stream stream' : Send} (hreason : stream'.stopReason = stream.stopReason)
    (hst : stream'.state ≠ .ready) (hop : stream.stopReason ≠ none → ∃ code, op = .reset id code) :
    Follows op id (some stream) (some stream') := by
  constructor
  · rintro x ⟨⟩ y ⟨⟩
    exact hreason
  · rintro x ⟨⟩ y ⟨⟩ hy
    exact absurd hy hst
  · rintro x ⟨⟩ - hx hno
    obtain ⟨code, e⟩ := hop hx
    exact absurd e (hno code)
  · exact fun _ => nofun
  · exact nofun

/-- An acknowledgement removes a send half that is not ready. -/
theorem Follows.gone {stream : Send} (hst : stream.state ≠ .ready) (hop : op.ackId = some id) :
    Follows op id (some stream) none := by
  refine ⟨fun _ _ => nofun, fun _ _ => nofun, ?_, fun _ _ => hop, nofun⟩
  rintro x ⟨⟩ hx
  exact absurd hx hst

theorem Follows.of_shape (h : e'.map Send.shape = e.map Send.shape) : Follows op id e e' := by
  cases e with
  | none =>
      rw [Option.map_none, Option.map_eq_none_iff] at h
      subst h
      exact ⟨nofun, nofun, nofun, nofun, fun _ => nofun⟩
  | some stream =>
      obtain ⟨stream', rfl, hshape⟩ := Option.map_eq_some_iff.mp h
      obtain ⟨hst, hreason⟩ := Prod.mk.inj hshape
      exact .kept hreason (by rw [hst])

theorem Follows.refl (e : Option Send) : Follows op id e e := .of_shape rfl

/-- One send half changes. -/
theorem Follows.update (hs : s'.send = Function.update s.send id e') (h : Follows op id (s.send id) e')
    (i : StreamId) : Follows op i (s.send i) (s'.send i) := by
  rw [hs]
  by_cases hi : i = id
  · subst hi
    rwa [Function.update_self]
  · rw [Function.update_of_ne hi]
    exact .refl _

/-- A write makes a send half, or leaves its state and its reason. -/
theorem Follows.write {stream' : Send} (hst : stream'.shape = ((s.send id).getD Send.default).shape) :
    Follows op id (s.send id) (some stream') := by
  cases he : s.send id with
  | none =>
      rw [he] at hst
      exact ⟨nofun, nofun, nofun, nofun, fun _ x hx => by cases hx; exact (Prod.mk.inj hst).2⟩
  | some stream =>
      rw [he, Option.getD_some] at hst
      exact .of_shape (congrArg some hst)

/-- The rounds of `write_stream_frames` change neither a state nor a reason. -/
theorem writeStreamFrames_shape {fair : Bool} {buf buf' : BufMut} {metas : List StreamMeta}
    (h : s.writeStreamFrames buf fair = .ok (metas, s', buf')) (id : StreamId) :
    (s'.send id).map Send.shape = (s.send id).map Send.shape := by
  refine StreamsState.writeStreamFrames_inv
    (I := fun _ t _ => ∀ i, (t.send i).map Send.shape = (s.send i).map Send.shape)
    (fun ms t buf turn t' buf' hI _ ht i => ?_) (fun _ => rfl) (StreamsState.TurnsMeet.trivial ..) h id
  rw [← hI i]
  obtain ⟨-, hs⟩ | ⟨m, stream, enc, hp, -⟩ := StreamsState.streamTurn_polls ht
  · rw [hs]
  · rw [hp.send]
    by_cases hi : i = m.id
    · subst hi
      rw [Function.update_self, hp.entry]
      rfl
    · rw [Function.update_of_ne hi]

end Follows

/-- **Every operation but `open` and STOP_SENDING** leaves the reasons that were noted. -/
theorem streamsStep_follows {r r' : StreamsRun} {op : StreamsOp} (h : streamsStep r op = .ok r')
    (hopen : ∀ dir, op ≠ .open dir) (hstop : ∀ frame, op ≠ .receivedStopSending frame) (id : StreamId) :
    Follows op id (r.state.send id) (r'.state.send id) := by
  cases op with
  | «open» dir => exact absurd rfl (hopen dir)
  | receivedStopSending frame => exact absurd rfl (hstop frame)
  | write closed i data =>
      rw [streamsStep_write h]
      obtain ⟨-, hs | hs⟩ | ⟨-, -, hs⟩ := StreamsState.write_send (Prod.eta (r.state.write closed i data)).symm
      · rw [hs]
        exact .refl _
      · exact .update hs (.write rfl) id
      · exact .update hs (.write rfl) id
  | finish i =>
      rw [streamsStep_finish h]
      obtain ⟨-, hs⟩ | ⟨stream, -, he, hst, hnone, hs⟩ := StreamsState.finish_send (Prod.eta (r.state.finish i)).symm
      · rw [hs]
        exact .refl _
      · refine .update hs ?_ id
        rw [he]
        exact .closed rfl nofun fun hx => absurd hnone hx
  | reset i errorCode =>
      cases h
      obtain hs | ⟨stream, he, hs⟩ := r.state.reset_send {} i errorCode
      · dsimp only
        rw [hs]
        exact .refl _
      · refine .update hs ?_ id
        rw [he]
        exact .closed rfl nofun fun _ => ⟨errorCode, rfl⟩
  | setPriority i priority =>
      cases h
      obtain hs | ⟨stream, he, hs⟩ := r.state.setPriority_send i priority
      · dsimp only
        rw [hs]
        exact .refl _
      · refine .update hs (.of_shape ?_) id
        rw [he]
        rfl
  | read | stop | takeReset | received | receivedReset =>
      rw [(streamsStep_sameSend h rfl).send]
      exact .refl _
  | resetAcked i =>
      cases h
      obtain hs | ⟨stream, he, hst, hs⟩ := r.state.resetAcked_send i
      · dsimp only
        rw [hs]
        exact .refl _
      · refine .update hs ?_ id
        rw [he]
        exact .gone (by rw [hst]; nofun) rfl
  | writeStreamFrames buf fair =>
      obtain ⟨⟨metas, s, buf'⟩, hw, h⟩ := Checked.bind_eq_ok.mp h
      cases h
      exact .of_shape (writeStreamFrames_shape hw id)
  | receivedAckOf m =>
      obtain ⟨s, hs, h⟩ := Checked.bind_eq_ok.mp h
      cases h
      obtain ⟨rfl, -⟩ | ⟨stream, pending, he, -, -, ⟨hst, hs⟩ | hs⟩ := StreamsState.receivedAckOf_send hs
      · exact .refl _
      · refine .update hs ?_ id
        rw [he]
        exact .gone hst rfl
      · refine .update hs ?_ id
        rw [he]
        refine .kept rfl ?_
        cases hst : stream.state with
        | ready => simp
        | dataSent fa => simp
        | resetSent => simp
  | retransmit m =>
      obtain ⟨s, hs, h⟩ := Checked.bind_eq_ok.mp h
      cases h
      obtain ⟨rfl, -⟩ | ⟨stream, pending, he, -, -, hs⟩ := StreamsState.retransmit_send hs
      · exact .refl _
      · refine .update hs (.of_shape ?_) id
        rw [he]
        rfl

/-! ## The invariant -/

/-- The invariant of a run, for the stream `id`. -/
structure StopRun.At (r : StopRun) (id : StreamId) : Prop where
  noted : ∀ code, r.codes id = some code → id ∉ r.run.ended →
    ∃ stream, r.state.send id = some stream ∧ stream.stopReason = some code
  running : (r.codes id).isSome → id ∉ r.resets → r.Running id
  once : (r.codes id).isSome → r.state.stops id = 1
  quiet : r.codes id = none → r.Running id →
    r.state.stops id = 0 ∧ ∀ stream ∈ r.state.send id, stream.stopReason = none
  ended : (r.codes id).isSome → id ∈ r.run.ended → ∀ stream ∈ r.state.send id, stream.stopReason = none
  unopened : r.state.Unopened id → r.codes id = none ∧ r.state.stops id = 0

/-- The invariant of a run. -/
def StopRun.Inv (r : StopRun) : Prop := ∀ id, r.At id

theorem Event.exists_of_stops {id : StreamId} {e : Event} (h : e.stops id = true) :
    ∃ code, e = .stream (.stopped id code) := by
  unfold Event.stops at h
  split at h
  · exact ⟨_, by rw [of_decide_eq_true h]⟩
  · cases h

theorem StreamsState.Steady.stops {s s' : StreamsState} (h : s.Steady s') (id : StreamId) :
    s'.stops id = s.stops id := by
  obtain ⟨l, hl, hno⟩ := h.events
  have hzero : l.countP (Event.stops id) = 0 := by
    rw [List.countP_eq_zero]
    intro e he hs
    obtain ⟨code, rfl⟩ := Event.exists_of_stops hs
    exact hno id code he
  unfold StreamsState.stops
  rw [hl, List.countP_append, hzero, Nat.add_zero]

theorem StreamsState.stops_sendEvent (s : StreamsState) (id : StreamId) (code : ℕ) (i : StreamId) :
    (s.sendEvent (.stopped id code)).stops i = s.stops i + if id = i then 1 else 0 := by
  unfold StreamsState.stops sendEvent
  rw [List.countP_append, List.countP_singleton]
  simp [Event.stops]

theorem StreamsState.AcceptsStop.opened {s : StreamsState} {frame : StopSending} (h : s.AcceptsStop frame) :
    ¬ s.Unopened frame.id := h.2

namespace StopRun

variable {r r' : StopRun} {op : StreamsOp} {id : StreamId}

theorem inv_new (side : Side) : (StopRun.new side).Inv := fun _ => {
  noted := fun _ h => by cases h
  running := fun h => by cases h
  once := fun h => by cases h
  quiet := fun _ _ => ⟨rfl, fun _ h => by cases h⟩
  ended := fun h => by cases h
  unopened := fun _ => ⟨rfl, rfl⟩ }

/-- **A state with the invariant obeys.** -/
theorem Inv.obeys (hI : r.Inv) : r.Obeys where
  refuses id code hc hr := by
    obtain ⟨hended, hready⟩ := (hI id).running (by rw [hc]; rfl) hr
    obtain ⟨stream, he, hreason⟩ := (hI id).noted code hc hended
    have hst := hready stream he
    refine ⟨fun data => ?_, ?_⟩
    · have hw : stream.write data = .error (.stopped code) := by
        unfold Send.write Send.isWritable
        rw [hst, hreason]
        rfl
      unfold StreamsState.write
      rw [if_neg Bool.false_ne_true, he, Option.getD_some]
      dsimp only
      rw [hw]
    · have hf : stream.finish = .error (.stopped code) := by
        unfold Send.finish
        rw [hreason]
      unfold StreamsState.finish
      rw [he]
      dsimp only
      rw [hf]
  once id hid := ((hI id).once hid).le

/-- Nothing happens to the stream. -/
theorem At.congr (h : r.At id) (hs : r'.state.send id = r.state.send id)
    (hstops : r'.state.stops id = r.state.stops id) (hcodes : r'.codes id = r.codes id)
    (hresets : id ∉ r'.resets → id ∉ r.resets) (hended : r'.run.ended = r.run.ended)
    (hu : r'.state.Unopened id → r.state.Unopened id) : r'.At id := by
  have hrun : r'.Running id ↔ r.Running id := by
    unfold Running
    rw [hs, hended]
  obtain ⟨h1, h2, h3, h4, h5, h6⟩ := h
  constructor
  · rwa [hcodes, hended, hs]
  · rw [hcodes, hrun]
    exact fun hc hr => h2 hc (hresets hr)
  · rwa [hcodes, hstops]
  · rwa [hcodes, hrun, hstops, hs]
  · rwa [hcodes, hended, hs]
  · rw [hcodes, hstops]
    exact fun h => h6 (hu h)

/-- Nothing is promised of a stream that was not stopped and does not run. -/
theorem At.idle (hc : r'.codes id = none) (hrun : ¬ r'.Running id) (hopen : ¬ r'.state.Unopened id) : r'.At id where
  noted code h := by
    rw [hc] at h
    cases h
  running h := by
    rw [hc] at h
    cases h
  once h := by
    rw [hc] at h
    cases h
  quiet _ h := absurd h hrun
  ended h := by
    rw [hc] at h
    cases h
  unopened h := absurd h hopen

/-- A running stream is stopped for the first time. -/
theorem At.first {stream : Send} {code : ℕ} (hI : r.At id) (hrun : r.Running id) (hnone : r.codes id = none)
    (he : r.state.send id = some stream) (hsend : r'.state.send id = some { stream with stopReason := some code })
    (hstops : r'.state.stops id = r.state.stops id + 1) (hcode : r'.codes id = some code)
    (hended : r'.run.ended = r.run.ended) (hopen : ¬ r'.state.Unopened id) : r'.At id := by
  have hrun' : r'.Running id := by
    refine ⟨by rw [hended]; exact hrun.1, fun x hx => ?_⟩
    rw [hsend] at hx
    cases hx
    exact hrun.2 stream he
  refine ⟨fun code' hc _ => ⟨_, hsend, ?_⟩, fun _ _ => hrun', fun _ => ?_, fun hc => ?_,
    fun _ hid => absurd hid hrun'.1, fun hu => absurd hu hopen⟩
  · rw [hcode] at hc
    exact hc
  · rw [hstops, (hI.quiet hnone hrun).1]
  · rw [hcode] at hc
    cases hc

/-- An operation that is neither `open` nor STOP_SENDING. -/
theorem At.follows (hI : r.At id) (hends : r.run.EndsBy op r'.run) (hsteady : r.state.Steady r'.state)
    (hf : Follows op id (r.state.send id) (r'.state.send id)) (hcodes : r'.codes = r.codes)
    (hresets : id ∉ r'.resets → id ∉ r.resets ∧ ∀ code, op ≠ .reset id code) : r'.At id := by
  have hended : id ∉ r'.run.ended → id ∉ r.run.ended := fun h h' => h ((hends _).mpr (.inl h'))
  -- a stream that has not ended now keeps its send half
  have hkept : ∀ {stream}, r.state.send id = some stream → id ∉ r'.run.ended →
      ∃ stream', r'.state.send id = some stream' := by
    intro stream he hid
    cases he' : r'.state.send id with
    | some stream' => exact ⟨stream', rfl⟩
    | none =>
        have hsome : (r.state.send id).isSome := by rw [he]; rfl
        exact absurd ((hends id).mpr (.inr ⟨hf.removed hsome he', hsome, he'⟩)) hid
  constructor
  · intro code hc hid
    rw [hcodes] at hc
    obtain ⟨stream, he, hreason⟩ := hI.noted code hc (hended hid)
    obtain ⟨stream', he'⟩ := hkept he hid
    exact ⟨stream', he', by rw [hf.reason stream he stream' he', hreason]⟩
  · intro hc hr
    rw [hcodes] at hc
    obtain ⟨hr, hop⟩ := hresets hr
    obtain ⟨hid, hready⟩ := hI.running hc hr
    obtain ⟨code, hcode⟩ := Option.isSome_iff_exists.mp hc
    obtain ⟨stream, he, hreason⟩ := hI.noted code hcode hid
    obtain ⟨stream', he', hst'⟩ := hf.stays stream he (hready stream he) (by rw [hreason]; nofun) hop
    refine ⟨fun hid' => ?_, fun x hx => ?_⟩
    · obtain h | ⟨-, -, hn⟩ := (hends id).mp hid'
      · exact hid h
      · rw [show r'.run.state.send id = some stream' from he'] at hn
        cases hn
    · rw [he'] at hx
      cases hx
      exact hst'
  · intro hc
    rw [hcodes] at hc
    rw [hsteady.stops]
    exact hI.once hc
  · intro hc hrun
    rw [hcodes] at hc
    have hbefore : r.Running id := by
      refine ⟨hended hrun.1, fun stream he => ?_⟩
      obtain ⟨stream', he'⟩ := hkept he hrun.1
      exact hf.ready stream he stream' he' (hrun.2 stream' he')
    obtain ⟨h0, hnone⟩ := hI.quiet hc hbefore
    refine ⟨by rw [hsteady.stops, h0], fun stream' he' => ?_⟩
    cases he : r.state.send id with
    | none => exact hf.made he stream' he'
    | some stream => rw [hf.reason stream he stream' he', hnone stream he]
  · intro hc hid stream' he'
    rw [hcodes] at hc
    obtain hid | ⟨-, -, hn⟩ := (hends id).mp hid
    · cases he : r.state.send id with
      | none => exact hf.made he stream' he'
      | some stream => rw [hf.reason stream he stream' he', hI.ended hc hid stream he]
    · rw [show r'.run.state.send id = some stream' from he'] at hn
      cases hn
  · intro hu
    rw [hcodes, hsteady.stops]
    exact hI.unopened (hu.mono hsteady.side fun dir => by rw [hsteady.next])

end StopRun

/-! ## Steps -/

/-- What one operation other than STOP_SENDING does to the run. -/
theorem stopStep_cases {r r' : StopRun} {op : StreamsOp} (h : stopStep r op = .ok r')
    (hop : ∀ frame, op ≠ .receivedStopSending frame) :
    endedStep r.run op = .ok r'.run ∧ r'.codes = r.codes ∧
      ∀ id, id ∉ r'.resets → id ∉ r.resets ∧ ∀ code, op ≠ .reset id code := by
  obtain ⟨run, hrun, h⟩ := Checked.bind_eq_ok.mp h
  cases op with
  | receivedStopSending frame => exact absurd rfl (hop frame)
  | reset i errorCode =>
      cases h
      refine ⟨hrun, rfl, fun id hid => ⟨fun h => hid (List.mem_cons_of_mem _ h), fun code he => ?_⟩⟩
      cases he
      exact hid List.mem_cons_self
  | _ =>
      cases h
      exact ⟨hrun, rfl, fun id hid => ⟨hid, nofun⟩⟩

/-- A STOP_SENDING returns, and ends no stream. -/
theorem stopStep_stop (r : StopRun) (frame : StopSending) : ∃ r', stopStep r (.receivedStopSending frame) = .ok r' ∧
    r'.state = (r.state.receivedStopSending frame).2 ∧ r'.run.ended = r.run.ended ∧
    (((r.state.receivedStopSending frame).1.isOk ∧ r.Running frame.id ∧ r.codes frame.id = none) ∧
        r'.codes = Function.update r.codes frame.id (some frame.errorCode) ∧
        r'.resets = r.resets.filter (· ≠ frame.id) ∨
      ¬ ((r.state.receivedStopSending frame).1.isOk ∧ r.Running frame.id ∧ r.codes frame.id = none) ∧
        r'.codes = r.codes ∧ r'.resets = r.resets) := by
  by_cases hc : (r.state.receivedStopSending frame).1.isOk ∧ r.Running frame.id ∧ r.codes frame.id = none
  · exact ⟨_, if_pos hc, rfl, List.append_nil _, .inl ⟨hc, rfl, rfl⟩⟩
  · exact ⟨_, if_neg hc, rfl, List.append_nil _, .inr ⟨hc, rfl, rfl⟩⟩

theorem StreamsState.open_stops (s : StreamsState) (dir : Dir) (id : StreamId) :
    (s.open dir).2.stops id = s.stops id := by
  unfold StreamsState.open
  cases dir <;> rfl

/-- A stream that is opened now was not stopped before: a STOP_SENDING on it is an error. -/
theorem StopRun.Inv.open {r r' : StopRun} {dir : Dir} (hI : r.Inv) (h : stopStep r (.open dir) = .ok r') :
    r'.Inv := by
  obtain ⟨hrun, hcodes, hresets⟩ := stopStep_cases h nofun
  obtain ⟨hstep, -, -⟩ := endedStep_cases hrun
  obtain ⟨hside, hnext⟩ := streamsStep_opened hstep
  have hr := Except.ok.inj h
  have hstate : r'.state = (r.state.open dir).2 := by
    rw [← hr]
    rfl
  have hended : r'.run.ended = r.run.ended := by
    rw [← hr]
    exact List.append_nil _
  intro id
  have hu : r'.state.Unopened id → r.state.Unopened id := fun hu => hu.mono hside hnext
  by_cases hid : id = (r.state.open dir).1
  · obtain ⟨hnone, h0⟩ := (hI id).unopened (by rw [hid]; exact (r.state.open_unopened dir).1)
    have hno : ¬ (r'.codes id).isSome := by
      rw [hcodes, hnone]
      nofun
    have hstops : r'.state.stops id = 0 := by rw [hstate, r.state.open_stops, h0]
    refine ⟨fun code hc => absurd (by rw [hc]; rfl) hno, fun hc => absurd hc hno, fun hc => absurd hc hno,
      fun _ _ => ⟨hstops, fun stream hs => ?_⟩, fun hc => absurd hc hno, fun _ => ⟨by rw [hcodes, hnone], hstops⟩⟩
    rw [hstate, hid, r.state.open_send, Function.update_self] at hs
    cases hs
    rfl
  · refine (hI id).congr ?_ ?_ (by rw [hcodes]) (fun hr => (hresets id hr).1) hended hu
    · rw [hstate, r.state.open_send, Function.update_of_ne hid]
    · rw [hstate, r.state.open_stops]

/-- What a STOP_SENDING does to the other streams: nothing. -/
theorem StreamsState.receivedStopSending_other {s : StreamsState} {frame : StopSending} {id : StreamId}
    (hid : id ≠ frame.id) : (s.receivedStopSending frame).2.send id = s.send id ∧
      (s.receivedStopSending frame).2.stops id = s.stops id := by
  have hstops : ∀ t : StreamsState, (t.sendEvent (.stopped frame.id frame.errorCode)).stops id = t.stops id := by
    intro t
    rw [StreamsState.stops_sendEvent, if_neg (Ne.symm hid), Nat.add_zero]
  obtain ⟨-, -, h⟩ | ⟨-, -, ⟨-, h⟩ | ⟨stream, -, ⟨-, h⟩ | ⟨code, -, h⟩⟩⟩ := s.receivedStopSending_cases frame
  · rw [h]
    exact ⟨rfl, rfl⟩
  · rw [h, hstops]
    exact ⟨rfl, rfl⟩
  · rw [h, hstops]
    exact ⟨Function.update_of_ne hid .., rfl⟩
  · rw [h]
    exact ⟨Function.update_of_ne hid .., rfl⟩

/-- A STOP_SENDING makes no send half ready. -/
theorem StreamsState.receivedStopSending_ready {s : StreamsState} {frame : StopSending}
    (h : ∀ stream ∈ (s.receivedStopSending frame).2.send frame.id, stream.state = .ready) :
    ∀ stream ∈ s.send frame.id, stream.state = .ready := by
  intro stream he
  obtain ⟨-, -, hs⟩ | ⟨-, -, ⟨-, hs⟩ | ⟨stream', he', ⟨-, hs⟩ | ⟨code, -, hs⟩⟩⟩ := s.receivedStopSending_cases frame
  · rw [hs] at h
    exact h stream he
  · rw [hs] at h
    exact h stream he
  · rw [Option.mem_def, he'] at he
    cases he
    exact h { stream with stopReason := some frame.errorCode } (by rw [hs]; exact Function.update_self ..)
  · rw [Option.mem_def, he'] at he
    cases he
    exact h stream (by rw [hs]; exact Function.update_self ..)

/-- A STOP_SENDING, and another stream. -/
theorem StopRun.Inv.stop_other {r r' : StopRun} {frame : StopSending} (hI : r.Inv)
    (h : stopStep r (.receivedStopSending frame) = .ok r') {id : StreamId} (hid : id ≠ frame.id) : r'.At id := by
  obtain ⟨t, ht, hstate, hended, hnew⟩ := stopStep_stop r frame
  have htr : t = r' := Except.ok.inj (ht.symm.trans h)
  subst htr
  obtain ⟨hs, hstops⟩ := r.state.receivedStopSending_other hid
  obtain ⟨hside, hnext⟩ := r.state.receivedStopSending_same frame
  refine (hI id).congr (by rw [hstate, hs]) (by rw [hstate, hstops]) ?_ ?_ hended fun hu => ?_
  · obtain ⟨-, hcodes, -⟩ | ⟨-, hcodes, -⟩ := hnew
    · rw [hcodes, Function.update_of_ne hid]
    · rw [hcodes]
  · obtain ⟨-, -, hresets⟩ | ⟨-, -, hresets⟩ := hnew
    · rw [hresets]
      exact fun hr hm => hr (List.mem_filter.mpr ⟨hm, by simpa using hid⟩)
    · rw [hresets]
      exact fun hr => hr
  · rw [hstate] at hu
    exact hu.mono hside fun dir => by rw [hnext]

/-- **A STOP_SENDING that is heard keeps the invariant** of its stream. -/
theorem StopRun.Inv.stop_own {r r' : StopRun} {frame : StopSending} (hI : r.Inv)
    (hop : (StreamsOp.receivedStopSending frame).Heard r)
    (h : stopStep r (.receivedStopSending frame) = .ok r') : r'.At frame.id := by
  obtain ⟨t, ht, hstate, hended, hnew⟩ := stopStep_stop r frame
  have htr : t = r' := Except.ok.inj (ht.symm.trans h)
  subst htr
  have hu : t.state.Unopened frame.id → r.state.Unopened frame.id := by
    intro hu
    obtain ⟨hside, hnext⟩ := r.state.receivedStopSending_same frame
    rw [hstate] at hu
    exact hu.mono hside fun dir => by rw [hnext]
  obtain ⟨-, ⟨e, he⟩, hs⟩ | ⟨haccept, hok, hcase⟩ := r.state.receivedStopSending_cases frame
  · -- the frame is rejected
    obtain ⟨⟨hok, -⟩, -⟩ | ⟨-, hcodes, hresets⟩ := hnew
    · rw [he] at hok
      cases hok
    · rw [hs] at hstate
      exact (hI _).congr (by rw [hstate]) (by rw [hstate]) (by rw [hcodes]) (by rw [hresets]; exact fun hr => hr)
        hended hu
  have hisOk : (r.state.receivedStopSending frame).1.isOk = true := by
    rw [hok]
    rfl
  obtain ⟨hthere, hfirst⟩ := hop hisOk
  have hopen : ¬ t.state.Unopened frame.id := fun h => haccept.opened (hu h)
  obtain ⟨⟨-, hrun, hnone⟩, hcodes, hresets⟩ | ⟨hnot, hcodes, hresets⟩ := hnew
  · -- the first one on a stream that is running
    obtain ⟨stream, he⟩ := Option.isSome_iff_exists.mp (hthere hrun.1)
    obtain ⟨hn, -⟩ | ⟨stream', he', ⟨-, hs⟩ | ⟨code, hreason, -⟩⟩ := hcase
    · rw [he] at hn
      cases hn
    · refine (hI _).first hrun hnone he' ?_ ?_ (by rw [hcodes, Function.update_self]) hended hopen
      · rw [hstate, hs]
        exact Function.update_self ..
      · rw [hstate, hs, StreamsState.stops_sendEvent, if_pos rfl]
        rfl
    · rw [((hI _).quiet hnone hrun).2 stream' he'] at hreason
      cases hreason
  · cases hc : r.codes frame.id with
    | some code =>
        -- it was stopped before, so that its send half has a reason
        have hid : frame.id ∉ r.run.ended := fun h => by
          rw [hfirst h] at hc
          cases hc
        obtain ⟨stream, he, hreason⟩ := (hI _).noted code hc hid
        obtain ⟨hn, -⟩ | ⟨stream', he', ⟨hn, -⟩ | ⟨_, -, hs⟩⟩ := hcase
        · rw [he] at hn
          cases hn
        · rw [he] at he'
          cases he'
          rw [hreason] at hn
          cases hn
        · have hsend : t.state.send frame.id = r.state.send frame.id := by
            rw [hstate, hs, he']
            exact Function.update_self ..
          refine (hI _).congr hsend ?_ (by rw [hcodes]) (by rw [hresets]; exact fun hr => hr) hended hu
          rw [hstate, hs]
          rfl
    | none =>
        -- it is not running, and nothing is promised about it
        refine .idle (by rw [hcodes, hc]) ?_ hopen
        rintro ⟨hid, hready⟩
        rw [hstate] at hready
        rw [hended] at hid
        exact hnot ⟨hisOk, ⟨hid, StreamsState.receivedStopSending_ready hready⟩, hc⟩

theorem StopRun.Inv.stop {r r' : StopRun} {frame : StopSending} (hI : r.Inv)
    (hop : (StreamsOp.receivedStopSending frame).Heard r)
    (h : stopStep r (.receivedStopSending frame) = .ok r') : r'.Inv := by
  intro id
  by_cases hid : id = frame.id
  · subst hid
    exact hI.stop_own hop h
  · exact hI.stop_other h hid

/-- **One operation keeps the invariant.** -/
theorem stopStep_inv (r : StopRun) (op : StreamsOp) (r' : StopRun) (hI : r.Inv) (hop : op.Heard r)
    (h : stopStep r op = .ok r') : r'.Inv := by
  by_cases hopen : ∃ dir, op = .open dir
  · obtain ⟨dir, rfl⟩ := hopen
    exact hI.open h
  by_cases hstop : ∃ frame, op = .receivedStopSending frame
  · obtain ⟨frame, rfl⟩ := hstop
    exact hI.stop hop h
  have hno : ∀ dir, op ≠ .open dir := fun dir hd => hopen ⟨dir, hd⟩
  have hns : ∀ frame, op ≠ .receivedStopSending frame := fun frame hf => hstop ⟨frame, hf⟩
  obtain ⟨hrun, hcodes, hresets⟩ := stopStep_cases h hns
  obtain ⟨hstep, hends, -⟩ := endedStep_cases hrun
  intro id
  exact (hI id).follows hends (streamsStep_steady hstep hno hns) (streamsStep_follows hstep hno hns id) hcodes
    (hresets id)

/-- **A STOP_SENDING takes effect** exactly if it is heard. -/
theorem StopRun.Inv.obeys_iff {r : StopRun} (hI : r.Inv) (op : StreamsOp) :
    (∀ r', stopStep r op = .ok r' → r'.Obeys) ↔ op.Heard r := by
  refine ⟨fun hobeys => ?_, fun hop r' h => (stopStep_inv r op r' hI hop h).obeys⟩
  cases op with
  | receivedStopSending frame =>
      intro hisOk
      obtain ⟨t, ht, hstate, hended, hnew⟩ := stopStep_stop r frame
      have ho := hobeys t ht
      obtain ⟨-, ⟨e, he⟩, -⟩ | ⟨-, -, hcase⟩ := r.state.receivedStopSending_cases frame
      · rw [he] at hisOk
        cases hisOk
      refine ⟨fun hid => ?_, fun hid => ?_⟩
      · -- without a send half nothing is noted, and the next write succeeds
        by_contra hsome
        have hn : r.state.send frame.id = none := Option.not_isSome_iff_eq_none.mp hsome
        have hrun : r.Running frame.id := ⟨hid, fun x hx => by rw [hn] at hx; cases hx⟩
        have hnone : r.codes frame.id = none := by
          cases hc : r.codes frame.id with
          | none => rfl
          | some code =>
              obtain ⟨stream, hs, -⟩ := (hI _).noted code hc hid
              rw [hn] at hs
              cases hs
        obtain ⟨-, hcodes, hresets⟩ | ⟨hnot, -⟩ := hnew
        · have hsend : t.state.send frame.id = none := by
            obtain ⟨-, hs⟩ | ⟨stream, hs, -⟩ := hcase
            · rw [hstate, hs]
              exact hn
            · rw [hn] at hs
              cases hs
          have hw := (ho.refuses frame.id frame.errorCode (by rw [hcodes, Function.update_self])
            (by rw [hresets]; simp)).1 []
          rw [StreamsState.write_absent hsend] at hw
          cases hw
        · exact hnot ⟨hisOk, hrun, hnone⟩
      · -- after the end of the stream it is announced again
        by_contra hne
        have hsome : (r.codes frame.id).isSome := Option.isSome_iff_ne_none.mpr hne
        obtain ⟨⟨-, -, hnone⟩, -⟩ | ⟨-, hcodes, -⟩ := hnew
        · exact hne hnone
        · have htwice : t.state.stops frame.id = 2 := by
            have hadd : ∀ u : StreamsState, u.stops frame.id = 1 →
                (u.sendEvent (.stopped frame.id frame.errorCode)).stops frame.id = 2 := by
              intro u hu
              rw [StreamsState.stops_sendEvent, hu, if_pos rfl]
            rw [hstate]
            obtain ⟨-, hs⟩ | ⟨stream, hs, ⟨-, hs'⟩ | ⟨code, hreason, -⟩⟩ := hcase
            · rw [hs]
              exact hadd _ ((hI _).once hsome)
            · rw [hs']
              exact hadd _ ((hI _).once hsome)
            · rw [(hI _).ended hsome hid stream hs] at hreason
              cases hreason
          have hle := ho.once frame.id (by rw [hcodes]; exact hsome)
          omega
  | _ => trivial

/-- **STOP_SENDING takes effect** in every state of a run exactly if each STOP_SENDING that the run accepts
finds the send half of its stream, or a stream that was not stopped before its send half was removed. -/
theorem stop_sending_obeyed (side : Side) (ops : List StreamsOp) :
    Meets stopStep (fun r op => ∀ r', stopStep r op = .ok r' → r'.Obeys) (StopRun.new side) ops ↔
      Meets stopStep (fun r op => op.Heard r) (StopRun.new side) ops :=
  Meets.congr_inv (fun _ op hI => hI.obeys_iff op) stopStep_inv (StopRun.inv_new side)

/-- The client stops its stream 0 before the server has written on it: the server announces it for each of two
frames, and then a write succeeds. -/
theorem stop_sending_forgotten : ∃ (ops : List StreamsOp) (r : StopRun),
    run stopStep (StopRun.new .server) ops = .ok r ∧ r.codes ⟨0⟩ = some 7 ∧ ⟨0⟩ ∉ r.resets ∧
    (r.state.write false ⟨0⟩ [9]).1 = .ok () ∧ r.state.stops ⟨0⟩ = 2 ∧
    ¬ Meets stopStep (fun r op => ∀ r', stopStep r op = .ok r' → r'.Obeys) (StopRun.new .server) ops := by
  let first : List StreamsOp := [.received ⟨⟨0⟩, 0, false, [1]⟩ 8, .receivedStopSending ⟨⟨0⟩, 7⟩]
  refine ⟨first ++ [.receivedStopSending ⟨⟨0⟩, 7⟩], _, rfl, rfl, by decide, rfl, rfl, fun h => ?_⟩
  have hobeys := (h.of_append rfl).1 _ rfl
  have hrefused := (hobeys.refuses ⟨0⟩ 7 rfl (by decide)).1 [9]
  cases hrefused

end MzQuic
