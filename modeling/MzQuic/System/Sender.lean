import MzQuic.Stream.Agreement
import MzQuic.System.Party

/-!
# What a party has to send

* `StreamPast.Sealed`: nothing more is written to a stream;
* `SendHalf`: a send half is as the history of its stream has it; `actStep_halves`: the task of the connection leaves
  it so;
* `SendCall`: what a call of the application does to a stream, with `SendCall.half` and `SendCall.grows`;
* `Party.Recorded`, **`partyStep_sends`**: every step keeps the send halves as the history has them, and what has
  happened stays true.
-/

namespace MzQuic

open Lib Connection

/-! ## Send halves -/

/-- The stream was finished or reset. -/
def StreamPast.Sealed (s : StreamPast) : Prop := s.finished = true ∨ s.resets ≠ []

/-- The send half `e` of a stream. -/
structure SendHalf (s : StreamPast) (e : Option Send) : Prop where
  wf : ∀ stream ∈ e, stream.pending.WF s.wrote
  fin : ∀ stream ∈ e, stream.finPending = true → s.finished = true
  began : e ≠ none → s.began = true
  shut : s.Sealed → ∀ stream ∈ e, stream.state ≠ .ready
  fresh : s.began = false → s.wrote = [] ∧ ¬ s.Sealed

section Halves

variable {s : StreamPast} {e : Option Send} {stream stream' : Send} {past : StreamId → StreamPast}
  {f : StreamId → Option Send} {id : StreamId}

/-- A stream that nobody has used. -/
theorem SendHalf.unused : SendHalf {} none where
  wf := nofun
  fin := nofun
  began := fun h => absurd rfl h
  shut := fun _ => nofun
  fresh := fun _ => ⟨rfl, fun h => h.elim nofun fun h => absurd rfl h⟩

theorem SendHalf.gone (h : SendHalf s e) : SendHalf s none where
  wf := nofun
  fin := nofun
  began := fun h => absurd rfl h
  shut := fun _ => nofun
  fresh := h.fresh

/-- A send half changes, and remembers no more than before. -/
theorem SendHalf.congr (h : SendHalf s (some stream)) (hwf : stream'.pending.WF s.wrote)
    (hst : stream.state ≠ .ready → stream'.state ≠ .ready)
    (hfin : stream'.finPending = true → stream.finPending = true) : SendHalf s (some stream') where
  wf := by
    rintro x ⟨⟩
    exact hwf
  fin := by
    rintro x ⟨⟩ hx
    exact h.fin stream rfl (hfin hx)
  began := fun _ => h.began (Option.some_ne_none _)
  shut := by
    rintro hs x ⟨⟩
    exact hst (h.shut hs stream rfl)
  fresh := h.fresh

/-- One of the send halves changes. -/
theorem SendHalf.update (h : ∀ i, SendHalf (past i) (f i)) (he : SendHalf (past id) e) (i : StreamId) :
    SendHalf (past i) (Function.update f id e i) :=
  (Function.forall_update_iff f fun i e => SendHalf (past i) e).mpr ⟨he, fun i _ => h i⟩ i

/-! ## What the task of a connection does to them -/

/-- A round of `write_stream_frames`. A FIN ends what was written to a stream that is finished. -/
theorem streamTurn_halves {st st' : StreamsState} {fair : Bool} {buf buf' : BufMut} {t : StreamsState.Turn}
    (h : ∀ i, SendHalf (past i) (st.send i)) (ht : StreamsState.streamTurn fair st buf = .ok (t, st', buf')) :
    (∀ i, SendHalf (past i) (st'.send i)) ∧
      ∀ m ∈ t.metas, (past m.id).began = true ∧
        (m.fin = true → (past m.id).finished = true ∧ m.offsets.end = (past m.id).wrote.length) := by
  have hwf := StreamsState.streamTurn_buffers ht fun i => (h i).wf
  rcases StreamsState.streamTurn_sends (fun i => ⟨_, (h i).wf⟩) ht with ⟨hnil, hs⟩ | ⟨m, stream, enc, hp, hm⟩
  · rw [hs, hnil]
    exact ⟨h, nofun⟩
  · have he := h m.id
    rw [hp.entry] at he
    constructor
    · rw [hp.send] at hwf ⊢
      refine SendHalf.update h (he.congr (hwf m.id _ (Function.update_self ..)) id fun hfin => ?_)
      exact (Bool.and_eq_true_iff.mp hfin).1
    · rw [hm]
      intro x hx
      obtain rfl := List.mem_singleton.mp hx
      refine ⟨he.began (Option.some_ne_none _), fun hfin => ?_⟩
      rw [hp.fin, Bool.and_eq_true, decide_eq_true_eq, (he.wf stream rfl).offset] at hfin
      exact ⟨he.fin stream rfl hfin.1, hfin.2⟩

theorem writeStreamFrames_halves {st st' : StreamsState} {fair : Bool} {buf buf' : BufMut} {metas : List StreamMeta}
    (h : ∀ i, SendHalf (past i) (st.send i)) (hw : st.writeStreamFrames buf fair = .ok (metas, st', buf')) :
    (∀ i, SendHalf (past i) (st'.send i)) ∧
      ∀ m ∈ metas, (past m.id).began = true ∧
        (m.fin = true → (past m.id).finished = true ∧ m.offsets.end = (past m.id).wrote.length) := by
  refine StreamsState.writeStreamFrames_inv
    (I := fun ms st _ => (∀ i, SendHalf (past i) (st.send i)) ∧
      ∀ m ∈ ms, (past m.id).began = true ∧
        (m.fin = true → (past m.id).finished = true ∧ m.offsets.end = (past m.id).wrote.length))
    (fun ms st buf t st' buf' hI _ ht => ?_) ⟨h, nofun⟩ (StreamsState.TurnsMeet.trivial ..) hw
  obtain ⟨hs, hmetas⟩ := streamTurn_halves hI.1 ht
  refine ⟨hs, fun m hm => ?_⟩
  rcases List.mem_append.mp hm with hm | hm
  · exact hI.2 m hm
  · exact hmetas m hm

/-- **What happens to the streams apart from the calls of the application** leaves the send halves as the
history has them. -/
theorem actStep_halves {r r' : StreamsRun} {a : StreamsAct} (h : ∀ i, SendHalf (past i) (r.state.send i))
    (ha : a.ofTask = true) (hstep : actStep r a = .ok r') : ∀ i, SendHalf (past i) (r'.state.send i) := by
  have hentry : ∀ {i : StreamId} {stream : Send}, r.state.send i = some stream → SendHalf (past i) (some stream) :=
    fun he => he ▸ h _
  cases a with
  | told e =>
      cases hstep
      exact h
  | op o =>
      cases streamsStep_move hstep with
      | same hop hs hf =>
          dsimp only
          rw [hs]
          exact h
      | tuned id hop he hs hst hp hfin =>
          dsimp only
          rw [hs]
          refine SendHalf.update h ((hentry he).congr ?_ (fun hne => by rwa [hst]) fun hx => by rwa [← hfin])
          rw [hp]
          exact (hentry he).wf _ rfl
      | sent buf fair hw => exact (writeStreamFrames_halves h hw).1
      | acked m he hlive hp hs =>
          dsimp only
          rcases hs with hs | hs
          · rw [hs]
            exact SendHalf.update h (hentry he).gone
          · rw [hs]
            exact SendHalf.update h ((hentry he).congr (((hentry he).wf _ rfl).ack hp).1
              (Send.acked_ne_ready _ m _) id)
      | lost m he hlive hp hs =>
          dsimp only
          rw [hs]
          exact SendHalf.update h ((hentry he).congr (((hentry he).wf _ rfl).retransmit hp).2.1 id id)
      | ackIgnored | lossIgnored => exact h
      | opened | written | finished | reset | dropped => cases ha

/-- The frames in flight are those of streams that were begun. -/
theorem actStep_began {r r' : StreamsRun} {a : StreamsAct} (hb : ∀ m ∈ r.flight, (past m.id).began = true)
    (h : a.ofTask = true → ∀ i, SendHalf (past i) (r.state.send i)) (hstep : actStep r a = .ok r') :
    ∀ m ∈ r'.flight, (past m.id).began = true := by
  cases a with
  | told e =>
      cases hstep
      exact hb
  | op o =>
      cases streamsStep_move hstep with
      | sent buf fair hw =>
          intro m hm
          rcases List.mem_append.mp hm with hm | hm
          · exact hb m hm
          · exact ((writeStreamFrames_halves (h rfl) hw).2 m hm).1
      | acked m | ackIgnored m | lost m | lossIgnored m => exact fun x hx => hb x (List.mem_of_mem_erase hx)
      | _ => exact hb

/-! ## What the calls of the application do to them -/

/-- What a call does to a stream, as far as it is sent. -/
inductive SendCall (s : StreamPast) (e : Option Send) : StreamPast → Option Send → Prop
  | kept {s' : StreamPast} (hb : s'.began = s.began) (hw : s'.wrote = s.wrote) (hf : s'.finished = s.finished)
      (hr : s'.resets = s.resets) (hst : s.stops ⊆ s'.stops) : SendCall s e s' e
  | tuned {stream : Send} (priority : ℤ) (he : e = some stream) :
      SendCall s e s (some { stream with priority := priority })
  | begun {e' : Option Send} (hb : e = none → s.began = false) (he : e' = e ∨ e' = some (e.getD Send.default)) :
      SendCall s e { s with began := true } e'
  | written (data : Bytes) (hb : e = none → s.began = false) (hst : (e.getD Send.default).state = .ready) :
      SendCall s e { s with began := true, wrote := s.wrote ++ data }
        (some { e.getD Send.default with pending := (e.getD Send.default).pending.write data })
  | finished {stream : Send} (he : e = some stream) (hst : stream.state = .ready) :
      SendCall s e { s with finished := true } (some { stream with state := .dataSent false, finPending := true })
  | reset {stream : Send} (errorCode : ℕ) (he : e = some stream) :
      SendCall s e { s with resets := s.resets ++ [errorCode] } (some { stream with state := .resetSent })

/-- A stream that has no send half yet gets one. -/
theorem SendHalf.getD (h : SendHalf s e) (hb : e = none → s.began = false) :
    SendHalf { s with began := true } (some (e.getD Send.default)) := by
  cases e with
  | some stream => exact ⟨h.wf, h.fin, fun _ => rfl, h.shut, nofun⟩
  | none =>
      obtain ⟨hw, hs⟩ := h.fresh (hb rfl)
      refine ⟨?_, ?_, fun _ => rfl, fun hx => absurd hx hs, nofun⟩
      · rintro x ⟨⟩
        rw [show ({ s with began := true } : StreamPast).wrote = [] from hw]
        exact SendBuffer.WF.default
      · rintro x ⟨⟩ hx
        cases hx

variable {s' : StreamPast} {e' : Option Send}

/-- **A call keeps the send half as the history has it.** -/
theorem SendCall.half (hc : SendCall s e s' e') (h : SendHalf s e) : SendHalf s' e' := by
  cases hc with
  | kept hb hw hf hr _ =>
      have hsealed : s'.Sealed ↔ s.Sealed := by
        unfold StreamPast.Sealed
        rw [hf, hr]
      exact ⟨hw ▸ h.wf, hf ▸ h.fin, hb ▸ h.began, fun hx => h.shut (hsealed.mp hx),
        by rw [hb, hw, hsealed]; exact h.fresh⟩
  | @tuned stream priority he =>
      subst he
      exact h.congr (h.wf stream rfl) id id
  | begun hb he =>
      rcases he with rfl | rfl
      · exact ⟨h.wf, h.fin, fun _ => rfl, h.shut, nofun⟩
      · exact h.getD hb
  | written data hb hst =>
      have hd := h.getD hb
      refine ⟨?_, ?_, fun _ => rfl, fun hx => absurd hst (hd.shut hx _ rfl), nofun⟩
      · rintro x ⟨⟩
        exact (hd.wf _ rfl).write data
      · rintro x ⟨⟩ hx
        exact hd.fin _ rfl hx
  | @finished stream he hst =>
      subst he
      refine ⟨?_, fun _ _ _ => rfl, fun _ => h.began (Option.some_ne_none _), ?_, fun hb => ?_⟩
      · rintro x ⟨⟩
        exact h.wf stream rfl
      · rintro - x ⟨⟩
        exact SendState.noConfusion
      · rw [show s.began = true from h.began (Option.some_ne_none _)] at hb
        cases hb
  | @reset stream errorCode he =>
      subst he
      refine ⟨?_, ?_, fun _ => h.began (Option.some_ne_none _), ?_, fun hb => ?_⟩
      · rintro x ⟨⟩
        exact h.wf stream rfl
      · rintro x ⟨⟩ hx
        exact h.fin stream rfl hx
      · rintro - x ⟨⟩
        exact SendState.noConfusion
      · rw [show s.began = true from h.began (Option.some_ne_none _)] at hb
        cases hb

/-- What has happened to a stream is not undone, and a sealed stream is not written to. -/
structure StreamPast.Grows (s s' : StreamPast) : Prop where
  began : s.began = true → s'.began = true
  wrote : s.wrote <+: s'.wrote
  shut : s.Sealed → s'.wrote = s.wrote
  finished : s.finished = true → s'.finished = true
  resets : s.resets ⊆ s'.resets
  stops : s.stops ⊆ s'.stops

theorem StreamPast.Grows.refl (s : StreamPast) : s.Grows s :=
  ⟨id, List.prefix_refl _, fun _ => rfl, id, List.Subset.refl _, List.Subset.refl _⟩

/-- A part of what was written is still there. -/
theorem StreamPast.Grows.slice (hg : s.Grows s') {start n : ℕ} (hn : start + n ≤ s.wrote.length) :
    (s'.wrote.drop start).take n = (s.wrote.drop start).take n := by
  obtain ⟨rest, hrest⟩ := hg.wrote
  rw [← hrest, List.drop_append_of_le_length (by omega),
    List.take_append_of_le_length (by rw [List.length_drop]; omega)]

/-- **A call undoes nothing.** -/
theorem SendCall.grows (hc : SendCall s e s' e') (h : SendHalf s e) : s.Grows s' := by
  cases hc with
  | kept hb hw hf hr hst =>
      exact ⟨hb.trans, by rw [hw], fun _ => hw, hf.trans, by rw [hr]; exact List.Subset.refl _, hst⟩
  | tuned => exact .refl s
  | begun hb _ => exact ⟨fun _ => rfl, List.prefix_refl _, fun _ => rfl, id, List.Subset.refl _, List.Subset.refl _⟩
  | written data hb hst =>
      exact ⟨fun _ => rfl, List.prefix_append _ _, fun hx => absurd hst ((h.getD hb).shut hx _ rfl), id,
        List.Subset.refl _, List.Subset.refl _⟩
  | finished => exact ⟨id, List.prefix_refl _, fun _ => rfl, fun _ => rfl, List.Subset.refl _, List.Subset.refl _⟩
  | reset errorCode he =>
      exact ⟨id, List.prefix_refl _, fun _ => rfl, id, List.subset_append_left _ _, List.Subset.refl _⟩

theorem SendCall.same (s : StreamPast) (e : Option Send) : SendCall s e s e :=
  .kept rfl rfl rfl rfl (List.Subset.refl _)

/-- A call concerns one stream. -/
theorem SendCall.update (h : SendCall (past id) (f id) s' e') (i : StreamId) :
    SendCall (past i) (f i) (Function.update past id s' i) (Function.update f id e' i) := by
  by_cases hi : i = id
  · subst hi
    rw [Function.update_self, Function.update_self]
    exact h
  · rw [Function.update_of_ne hi, Function.update_of_ne hi]
    exact .same _ _

end Halves

/-! ## Parties -/

/-- The send halves are as the history has them. -/
def Party.Recorded (p : Party) : Prop := ∀ id, SendHalf (p.past.streams id) (p.conn.streams.send id)

theorem Party.recorded_new (now : Instant) (side : Side) : (Party.new now side).Recorded := by
  intro id
  cases side <;> exact .unused

/-- A step that is no call adds nothing to what has happened to the streams. -/
theorem History.note_streams {h h' : History} {c : Connection} {op : ConnectionOp} (hop : op.call c = none)
    (hn : h.note c op = .ok h') : h'.streams = h.streams := by
  cases op with
  | pollTransmit | sendOne | pollTimers | handleData | handleFirstPacket | close =>
      cases hn
      rfl
  | _ => cases hop

/-- The calls of the receive side. -/
def ConnectionOp.reads : ConnectionOp → Bool
  | .read .. | .stop .. | .takeReset _ => true
  | _ => false

section Parties

variable {p p' : Party} {op : ConnectionOp}

/-- A call of the receive side. -/
theorem SendCall.read (h : History) (f : StreamId → Option Send) {id : StreamId} {g : StreamPast → StreamPast}
    (hg : SendCall (h.streams id) (f id) (g (h.streams id)) (f id)) (i : StreamId) :
    SendCall (h.streams i) (f i) ((h.modify id g).streams i) (f i) := by
  have := SendCall.update hg i
  rwa [Function.update_eq_self] at this

/-- What `reset` does, with its result. -/
theorem StreamsState.reset_result (s : StreamsState) (pending : Retransmits) (id : StreamId) (errorCode : ℕ) :
    (∃ e, (s.reset pending id errorCode).1 = .error e ∧ (s.reset pending id errorCode).2.1 = s) ∨
      ∃ stream, s.send id = some stream ∧ (s.reset pending id errorCode).1 = .ok () ∧
        (s.reset pending id errorCode).2.1 = s.setSend id (some { stream with state := .resetSent }) := by
  unfold reset
  cases s.send id with
  | none => exact .inl ⟨_, rfl, rfl⟩
  | some stream =>
      dsimp only
      split_ifs with hr
      · exact .inl ⟨_, rfl, rfl⟩
      · refine .inr ⟨stream, rfl, rfl, ?_⟩
        have hreset : stream.reset = { stream with state := .resetSent } := by
          unfold Send.reset
          split <;> simp_all
        rw [hreset]

section Calls

variable {c : Connection} {h h' : History} {id : StreamId}

/-- A stream is opened, and no stream is opened twice. -/
theorem History.open_call {dir : Dir} (hI : ∀ id, SendHalf (h.streams id) (c.streams.send id))
    (hp : (h.streams (c.streams.open dir).1).began = false) (hn : h.note c (.openStream dir) = .ok h') (i : StreamId) :
    SendCall (h.streams i) (c.streams.send i) (h'.streams i) ((c.streams.open dir).2.send i) := by
  cases hn
  rw [StreamsState.open_send]
  have hnone : c.streams.send (c.streams.open dir).1 = none := by
    by_contra hne
    rw [(hI _).began hne] at hp
    cases hp
  exact SendCall.update (.begun (fun _ => hp) (.inr (by rw [hnone]; rfl))) i

/-- A stream is written. If the write fails it may still have made the send half. -/
theorem History.write_call {data : Bytes}
    (hb : c.state.isClosed = false → c.streams.send id = none → (h.streams id).began = false)
    (hn : h.note c (.write id data) = .ok h') (i : StreamId) : SendCall (h.streams i) (c.streams.send i) (h'.streams i)
      ((c.streams.write c.state.isClosed id data).2.send i) := by
  dsimp only [History.note] at hn
  cases hclosed : c.state.isClosed with
  | true =>
      rw [hclosed, if_pos rfl] at hn
      cases hn
      exact .same _ _
  | false =>
      rw [hclosed, if_neg Bool.false_ne_true] at hn
      rcases hw : c.streams.write false id data with ⟨res, s⟩
      rw [hw] at hn
      have hb := hb hclosed
      rcases StreamsState.write_send hw with ⟨hne, hs | hs⟩ | ⟨rfl, hst, hs⟩
      · cases res with
        | ok u => exact absurd rfl hne
        | error e =>
            cases hn
            rw [hs]
            exact SendCall.read h _ (.begun hb (.inl rfl)) i
      · cases res with
        | ok u => exact absurd rfl hne
        | error e =>
            cases hn
            rw [hs]
            exact SendCall.update (.begun hb (.inr rfl)) i
      · cases hn
        rw [hs]
        exact SendCall.update (.written data hb hst) i

theorem History.finish_call (hn : h.note c (.finish id) = .ok h') (i : StreamId) :
    SendCall (h.streams i) (c.streams.send i) (h'.streams i) ((c.streams.finish id).2.send i) := by
  dsimp only [History.note] at hn
  rcases hw : c.streams.finish id with ⟨res, s⟩
  rw [hw] at hn
  rcases StreamsState.finish_send hw with ⟨hne, rfl⟩ | ⟨stream, rfl, he, hst, -, hs⟩
  · cases res with
    | ok u => exact absurd rfl hne
    | error e =>
        cases hn
        exact .same _ _
  · cases hn
    rw [hs]
    exact SendCall.update (.finished he hst) i

theorem History.reset_call {errorCode : ℕ} (hn : h.note c (.reset id errorCode) = .ok h') (i : StreamId) :
    SendCall (h.streams i) (c.streams.send i) (h'.streams i) ((c.streams.reset {} id errorCode).2.1.send i) := by
  dsimp only [History.note] at hn
  rcases c.streams.reset_result {} id errorCode with ⟨e, hres, hs⟩ | ⟨stream, he, hres, hs⟩
  · rw [hres] at hn
    cases hn
    rw [hs]
    exact .same _ _
  · rw [hres] at hn
    cases hn
    rw [hs]
    exact SendCall.update (.reset errorCode he) i

theorem History.setPriority_call {priority : ℤ} (hn : h.note c (.setPriority id priority) = .ok h') (i : StreamId) :
    SendCall (h.streams i) (c.streams.send i) (h'.streams i) ((c.streams.setPriority id priority).2.send i) := by
  cases hn
  rcases c.streams.setPriority_send id priority with hs | ⟨stream, he, hs⟩
  · rw [hs]
    exact .same _ _
  · rw [hs]
    have htuned : SendCall (h.streams id) (c.streams.send id) (h.streams id) _ := .tuned priority he
    have := SendCall.update htuned i
    rwa [Function.update_eq_self] at this

/-- The calls of the receive side leave the send halves alone. -/
theorem History.read_call (hop : op.reads = true) (hn : h.note c op = .ok h') (i : StreamId) :
    SendCall (h.streams i) (c.streams.send i) (h'.streams i) (c.streams.send i) := by
  cases op with
  | read id lengths =>
      obtain ⟨heard, -, hn⟩ := Checked.bind_eq_ok.mp hn
      cases hn
      exact SendCall.read h _ (.kept rfl rfl rfl rfl (List.Subset.refl _)) i
  | stop id errorCode =>
      obtain ⟨⟨res, q⟩, -, hn⟩ := Checked.bind_eq_ok.mp hn
      cases res with
      | ok u =>
          cases hn
          exact SendCall.read h _ (.kept rfl rfl rfl rfl (List.subset_append_left _ _)) i
      | error e =>
          cases hn
          exact .same _ _
  | takeReset id =>
      dsimp only [History.note] at hn
      split at hn
      · cases hn
        exact SendCall.read h _ (.kept rfl rfl rfl rfl (List.Subset.refl _)) i
      · cases hn
        exact .same _ _
  | _ => cases hop

end Calls

/-- **The calls of the application.** -/
theorem partyStep_calls {sop : StreamsOp} (hI : p.Recorded) (hp : op.Proper p) (hop : op.call p.conn = some sop)
    (h : partyStep p op = .ok p') (i : StreamId) :
    SendCall (p.past.streams i) (p.conn.streams.send i) (p'.past.streams i) (p'.conn.streams.send i) := by
  obtain ⟨hc, hn⟩ := partyStep_eq_ok.mp h
  obtain ⟨r', hr', hs, -⟩ := call_streams hop hc (r := ⟨p.conn.streams, fun _ => [], [], []⟩) rfl
  rw [← hs]
  -- the calls of the receive side
  have hread : op.reads = true → r'.state.send = p.conn.streams.send := fun hreads =>
    (streamsStep_sameSend hr' (by cases op <;> cases hop <;> first | rfl | cases hreads)).send
  cases op with
  | openStream dir =>
      cases hop
      cases hr'
      exact History.open_call hI hp hn i
  | write id data =>
      cases hop
      rw [streamsStep_write hr']
      exact History.write_call hp hn i
  | finish id =>
      cases hop
      rw [streamsStep_finish hr']
      exact History.finish_call hn i
  | reset id errorCode =>
      cases hop
      cases hr'
      exact History.reset_call hn i
  | setPriority id priority =>
      cases hop
      cases hr'
      exact History.setPriority_call hn i
  | read | stop | takeReset =>
      rw [hread rfl]
      exact History.read_call rfl hn i
  | _ => cases hop

/-- **What a step does to the streams, as far as they are sent**: nothing, as far as the history goes, or one call. -/
theorem partyStep_sends (ha : Accounted p.conn.core) (hf : Framed p.conn.core) (hI : p.Recorded) (hp : op.Proper p)
    (h : partyStep p op = .ok p') : p'.Recorded ∧ ∀ id, (p.past.streams id).Grows (p'.past.streams id) := by
  cases hop : op.call p.conn with
  | none =>
      obtain ⟨hc, hn⟩ := partyStep_eq_ok.mp h
      have hpast := History.note_streams hop hn
      refine ⟨?_, fun id => by rw [hpast]; exact .refl _⟩
      unfold Party.Recorded
      rw [hpast]
      exact connectionStep_streams (J := fun s => ∀ id, SendHalf (p.past.streams id) (s.send id)) ha hf hc
        (fun r a r' hd hJ hs => actStep_halves hJ (hd.ofTask hop) hs) hI
  | some sop =>
      have hcalls := partyStep_calls hI hp hop h
      exact ⟨fun id => (hcalls id).half (hI id), fun id => (hcalls id).grows (hI id)⟩

end Parties

end MzQuic
