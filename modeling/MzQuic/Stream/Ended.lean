import MzQuic.Stream.Outgoing

/-!
# Ended send streams (`core/src/connection/stream/send.rs`, `state.rs`)

The send half of a stream is removed once all its data and its FIN are acknowledged, or its reset is,
and nothing remembers that there was one. `SendStream::finish` and `SendStream::reset` fail for a stream
without a send half; `SendStream::write` makes one, also for a stream of our own that was not opened.

* `EndedRun`: a run with the streams whose send half was removed, and all frames that were sent;
* `Continues`: frames that go on where the earlier ones stopped, or send a lost range again;
* `StreamsOp.KeepsEnded`: an ended stream refuses the operation, and its frames continue;
* `StreamsOp.WritesOpen`: the operation is no write on an ended or unopened stream;
* **`ended_stays_ended`**: a run keeps the ended streams ended exactly if no write is on one of these.
-/

namespace MzQuic

open Lib

/-! ## Runs with a memory of ended streams -/

/-- The end of what the frames carry of a stream. -/
def sentTo (id : StreamId) : List StreamMeta → ℕ
  | [] => 0
  | m :: frames => if m.id = id then max m.offsets.end (sentTo id frames) else sentTo id frames

/-- After `frames`, each of the frames begins where the earlier ones of its stream end, or with a byte that
was to be sent again in the state `s`. -/
def Continues (s : StreamsState) : List StreamMeta → List StreamMeta → Prop
  | _, [] => True
  | frames, m :: metas => (m.offsets.start = sentTo m.id frames ∨
      ∃ stream ∈ s.send m.id, m.offsets.start ∈ stream.pending.retransmits) ∧
        Continues s (frames ++ [m]) metas

/-- A run, with what has ended and what was sent. -/
structure EndedRun where
  run : StreamsRun
  /-- The streams whose send half was removed. -/
  ended : List StreamId
  /-- The STREAM frames that were sent. -/
  frames : List StreamMeta

namespace EndedRun

/-- A fresh connection. -/
def new (side : Side) : EndedRun := ⟨StreamsRun.new side, [], []⟩

/-- The streams. -/
def state (r : EndedRun) : StreamsState := r.run.state

end EndedRun

/-- The stream whose send half the operation may remove. -/
def StreamsOp.ackId : StreamsOp → Option StreamId
  | .receivedAckOf m => some m.id
  | .resetAcked id => some id
  | _ => none

/-- One operation. -/
def endedStep (r : EndedRun) (op : StreamsOp) : Checked EndedRun := do
  let run ← streamsStep r.run op
  let metas ← op.emits r.state
  return {
    run := run
    ended := r.ended ++ op.ackId.toList.filter fun id =>
      (r.state.send id).isSome && (run.state.send id).isNone
    frames := r.frames ++ metas }

/-- A stream of our own that was not opened. -/
def StreamsState.Unopened (s : StreamsState) (id : StreamId) : Prop :=
  id.initiator = s.side ∧ s.next id.dir ≤ id.index

instance (s : StreamsState) (id : StreamId) : Decidable (s.Unopened id) :=
  inferInstanceAs (Decidable (_ ∧ _))

/-- On an open connection the operation fails with its error for a closed stream and changes nothing, if
its stream has ended; a write fails on a stream of our own that was not opened; and the frames that are
sent continue the earlier ones. -/
def StreamsOp.KeepsEnded (r : EndedRun) : StreamsOp → Prop
  | .write closed id data => closed = false →
      (id ∈ r.ended → r.state.write closed id data = (.error .closedStream, r.state)) ∧
      (r.state.Unopened id → (r.state.write closed id data).1 = .error .closedStream)
  | .finish id => id ∈ r.ended → r.state.finish id = (.error .closedStream, r.state)
  | .reset id errorCode => id ∈ r.ended →
      ∀ pending, r.state.reset pending id errorCode = (.error ⟨⟩, r.state, pending)
  | .writeStreamFrames buf fair => ∀ metas s' buf',
      r.state.writeStreamFrames buf fair = .ok (metas, s', buf') → Continues r.state r.frames metas
  | _ => True

/-- On an open connection, nothing is written on a stream that has ended, or on one of our own that was not
opened. -/
def StreamsOp.WritesOpen (r : EndedRun) : StreamsOp → Prop
  | .write closed id _ => closed = false → id ∉ r.ended ∧ ¬ r.state.Unopened id
  | _ => True

instance (r : EndedRun) : ∀ op : StreamsOp, Decidable (op.WritesOpen r)
  | .write closed id _ =>
      inferInstanceAs (Decidable (closed = false → id ∉ r.ended ∧ ¬ r.state.Unopened id))
  | .open _ | .finish _ | .reset .. | .setPriority .. | .read .. | .stop .. | .takeReset _ | .received ..
  | .receivedReset _ | .receivedStopSending _ | .resetAcked _ | .writeStreamFrames .. | .receivedAckOf _
  | .retransmit _ => .isTrue trivial

/-! ## Frames that continue -/

section Frames

variable {id : StreamId}

theorem sentTo_append (l l' : List StreamMeta) : sentTo id (l ++ l') = max (sentTo id l) (sentTo id l') := by
  induction l with
  | nil => rw [List.nil_append, sentTo, Nat.zero_max]
  | cons m l ih =>
      rw [List.cons_append, sentTo, sentTo, ih]
      split_ifs
      · rw [Nat.max_assoc]
      · rfl

theorem sentTo_singleton_self (m : StreamMeta) : sentTo m.id [m] = m.offsets.end := by simp [sentTo]

theorem sentTo_singleton_ne {m : StreamMeta} (h : id ≠ m.id) : sentTo id [m] = 0 := by
  rw [sentTo, if_neg (Ne.symm h), sentTo]

theorem continues_append {s : StreamsState} {frames l l' : List StreamMeta} :
    Continues s frames (l ++ l') ↔ Continues s frames l ∧ Continues s (frames ++ l) l' := by
  induction l generalizing frames with
  | nil => simp [Continues]
  | cons m l ih =>
      rw [List.cons_append, Continues, Continues, ih, and_assoc, List.append_assoc, List.singleton_append]

end Frames

/-! ## The rounds of `write_stream_frames` -/

/-- A round that ends the loop changes nothing. -/
theorem StreamsState.streamTurn_stop {fair : Bool} {s s' : StreamsState} {buf buf' : BufMut}
    (hb : ∀ id, ∃ W, ∀ stream ∈ s.send id, stream.pending.WF W)
    (h : streamTurn fair s buf = .ok (.stop, s', buf')) : s' = s := by
  by_cases hroom : buf.remainingMut < Stream.sizeBound
  · unfold streamTurn at h
    rw [if_pos hroom] at h
    cases h
    rfl
  · cases hp : s.pending.pop with
    | none =>
        unfold streamTurn at h
        rw [if_neg hroom, hp] at h
        cases h
        rfl
    | some p =>
        obtain ⟨x, q⟩ := p
        obtain ⟨-, m, ht⟩ | ⟨-, ht, -⟩ := streamTurn_pops hb (Nat.le_of_not_lt hroom) hp h
        · cases ht
        · cases ht

/-- From the state `s₀`, in which `frames` had been sent, the rounds so far have sent `ms`. -/
structure SentOn (wrote : StreamId → Bytes) (frames : List StreamMeta) (s₀ : StreamsState)
    (ms : List StreamMeta) (s : StreamsState) : Prop where
  buffers : ∀ id, ∀ stream ∈ s.send id, stream.pending.WF (wrote id)
  same : ∀ id, (s.send id).isSome = (s₀.send id).isSome
  absent : ∀ id, s₀.send id = none → sentTo id ms = 0
  unsent : ∀ id, ∀ stream ∈ s.send id, stream.pending.unsent = sentTo id (frames ++ ms)
  lost : ∀ id, ∀ stream ∈ s.send id, ∃ stream₀ ∈ s₀.send id,
    ∀ x ∈ stream.pending.retransmits, x ∈ stream₀.pending.retransmits
  continues : Continues s₀ frames ms

section Rounds

variable {wrote : StreamId → Bytes} {frames ms : List StreamMeta} {s₀ s s' : StreamsState}

theorem SentOn.congr (h : SentOn wrote frames s₀ ms s) (hs : s'.send = s.send) :
    SentOn wrote frames s₀ ms s' := by
  obtain ⟨h1, h2, h3, h4, h5, h6⟩ := h
  exact ⟨by rwa [hs], by rwa [hs], h3, by rwa [hs], by rwa [hs], h6⟩

/-- **A frame that is sent** continues the earlier ones of its stream, or begins a lost range. -/
theorem SentOn.polled (hI : SentOn wrote frames s₀ ms s) {buf : BufMut} {m : StreamMeta} {stream : Send}
    {enc : Bool} (hp : StreamsState.Polls s buf m stream enc s') : SentOn wrote frames s₀ (ms ++ [m]) s' := by
  obtain ⟨-, hc, hstart, -⟩ := SendBuffer.pollTransmit_ok hp.polled
  obtain ⟨h1, h2⟩ := clampNew_ok hc
  have hwf := hI.buffers m.id stream hp.entry
  have hu := hI.unsent m.id stream hp.entry
  obtain ⟨stream₀, he₀, hsub₀⟩ := hI.lost m.id stream hp.entry
  -- where the frame begins, how far the stream has been sent now, and what is still to be sent again
  have hkey : (m.offsets.start = stream.pending.unsent ∨ m.offsets.start ∈ stream.pending.retransmits) ∧
      (stream.pending.sent m.offsets.end).unsent = max stream.pending.unsent m.offsets.end ∧
      ∀ x ∈ (stream.pending.sent m.offsets.end).retransmits, x ∈ stream.pending.retransmits := by
    obtain ⟨hr, e⟩ | ⟨hlt, hsub, hsame, hmem⟩ := stream.pending.sent_cases h1 h2
    · rw [hr] at hstart h1
      rw [e]
      exact ⟨.inl hstart, (Nat.max_eq_right h1).symm, fun x hx => hx⟩
    · have hend := hwf.nextRange_le hlt hsub
      rw [hsame, hstart]
      exact ⟨.inr (hsub _ (Range.mem_iff.mpr ⟨le_rfl, hlt⟩)), (Nat.max_eq_left (h2.trans hend)).symm,
        fun x hx => ((hmem x).mp hx).1⟩
  obtain ⟨hbegin, hunsent, hretr⟩ := hkey
  have hother : ∀ {i : StreamId} {x : Send}, i ≠ m.id → x ∈ s'.send i → x ∈ s.send i := by
    intro i x hi hx
    rwa [hp.send, Function.update_of_ne hi] at hx
  have hmine : ∀ {x : Send}, x ∈ s'.send m.id → x = stream.polled m.offsets.end m.fin := by
    intro x hx
    rw [hp.send, Function.update_self] at hx
    exact (Option.some.inj hx).symm
  have hsent : ∀ {i : StreamId}, i ≠ m.id → sentTo i (frames ++ (ms ++ [m])) = sentTo i (frames ++ ms) := by
    intro i hi
    rw [← List.append_assoc, sentTo_append, sentTo_singleton_ne hi, Nat.max_zero]
  constructor
  · intro i x hx
    by_cases hi : i = m.id
    · subst hi
      rw [hmine hx]
      exact (hwf.sent h1 h2).1
    · exact hI.buffers i x (hother hi hx)
  · intro i
    rw [← hI.same i, hp.send]
    by_cases hi : i = m.id
    · subst hi
      rw [Function.update_self, hp.entry]
      rfl
    · rw [Function.update_of_ne hi]
  · intro i hn
    by_cases hi : i = m.id
    · subst hi
      rw [hn] at he₀
      cases he₀
    · rw [sentTo_append, hI.absent i hn, sentTo_singleton_ne hi, Nat.max_zero]
  · intro i x hx
    by_cases hi : i = m.id
    · subst hi
      rw [hmine hx, ← List.append_assoc, sentTo_append, sentTo_singleton_self, ← hu]
      exact hunsent
    · rw [hsent hi]
      exact hI.unsent i x (hother hi hx)
  · intro i x hx
    by_cases hi : i = m.id
    · subst hi
      rw [hmine hx]
      exact ⟨stream₀, he₀, fun y hy => hsub₀ y (hretr y hy)⟩
    · exact hI.lost i x (hother hi hx)
  · refine continues_append.mpr ⟨hI.continues, ?_, trivial⟩
    rcases hbegin with hb | hb
    · left
      rw [hb, hu]
    · exact .inr ⟨stream₀, he₀, hsub₀ _ hb⟩

theorem streamTurn_sentOn {fair : Bool} {buf buf' : BufMut} {t : StreamsState.Turn}
    (hI : SentOn wrote frames s₀ ms s) (h : StreamsState.streamTurn fair s buf = .ok (t, s', buf')) :
    SentOn wrote frames s₀ (ms ++ t.metas) s' := by
  rcases StreamsState.streamTurn_cases h with ⟨rfl, -, -⟩ | ⟨rfl, -, x, q, -, rfl⟩ |
    ⟨m, stream, enc, -, -, rfl, -, hp, -⟩
  · rw [StreamsState.Turn.metas, List.append_nil,
      StreamsState.streamTurn_stop (fun id => ⟨wrote id, hI.buffers id⟩) h]
    exact hI
  · rw [StreamsState.Turn.metas, List.append_nil]
    exact hI.congr rfl
  · exact hI.polled hp

end Rounds

/-! ## The invariant -/

/-- The invariant of a run. -/
structure EndedRun.Inv (r : EndedRun) : Prop where
  ended : ∀ id ∈ r.ended, r.state.send id = none
  opened : ∀ id, id ∈ r.ended ∨ (r.state.send id).isSome → ¬ r.state.Unopened id
  fresh : ∀ id, r.state.send id = none → id ∉ r.ended → r.run.wrote id = [] ∧ sentTo id r.frames = 0
  buffers : r.run.Buffers
  unsent : ∀ id, ∀ stream ∈ r.state.send id, stream.pending.unsent = sentTo id r.frames

theorem StreamsState.Unopened.mono {s s' : StreamsState} {id : StreamId} (h : s'.Unopened id)
    (hside : s'.side = s.side) (hnext : ∀ dir, s.next dir ≤ s'.next dir) : s.Unopened id :=
  ⟨h.1.trans hside, (hnext _).trans h.2⟩

theorem StreamsState.receivedStopSending_same (s : StreamsState) (frame : StopSending) :
    (s.receivedStopSending frame).2.side = s.side ∧ (s.receivedStopSending frame).2.next = s.next := by
  obtain ⟨-, -, h⟩ | ⟨-, -, ⟨-, h⟩ | ⟨stream, -, ⟨-, h⟩ | ⟨code, -, h⟩⟩⟩ := s.receivedStopSending_cases frame
  all_goals
    rw [h]
    exact ⟨rfl, rfl⟩

/-- No operation closes a stream that was opened. -/
theorem streamsStep_opened {r r' : StreamsRun} {op : StreamsOp} (h : streamsStep r op = .ok r') :
    r'.state.side = r.state.side ∧ ∀ dir, r.state.next dir ≤ r'.state.next dir := by
  by_cases hopen : ∃ dir, op = .open dir
  · obtain ⟨dir, rfl⟩ := hopen
    cases h
    obtain ⟨hside, hnext⟩ := r.state.open_next dir
    refine ⟨hside, fun d => ?_⟩
    dsimp only
    rw [hnext]
    by_cases hd : d = dir
    · subst hd
      rw [Function.update_self]
      exact Nat.le_succ _
    · rw [Function.update_of_ne hd]
  · by_cases hstop : ∃ frame, op = .receivedStopSending frame
    · obtain ⟨frame, rfl⟩ := hstop
      cases h
      obtain ⟨hside, hnext⟩ := r.state.receivedStopSending_same frame
      exact ⟨hside, fun dir => by rw [hnext]⟩
    · have hs := streamsStep_steady h (fun dir hd => hopen ⟨dir, hd⟩) fun frame hf => hstop ⟨frame, hf⟩
      exact ⟨hs.side, fun dir => by rw [hs.next]⟩

/-- The stream that `open` returns was not opened, and is. -/
theorem StreamsState.open_unopened (s : StreamsState) (dir : Dir) :
    s.Unopened (s.open dir).1 ∧ ¬ (s.open dir).2.Unopened (s.open dir).1 := by
  have hid : (s.open dir).1 = StreamId.new s.side dir (s.next dir) := rfl
  have hnext : (s.open dir).2.next dir = s.next dir + 1 := by
    rw [(s.open_next dir).2, Function.update_self]
  unfold Unopened
  rw [hid, StreamId.initiator_new, StreamId.dir_new, StreamId.index_new, hnext]
  exact ⟨⟨rfl, le_rfl⟩, fun h => absurd h.2 (Nat.not_succ_le_self _)⟩

namespace EndedRun

variable {r r' : EndedRun} {op : StreamsOp} {id : StreamId}

theorem inv_new (side : Side) : (EndedRun.new side).Inv where
  ended := fun id h => by cases h
  opened := fun id h => by rcases h with h | h <;> cases h
  fresh := fun _ _ _ => ⟨rfl, rfl⟩
  buffers := fun id x h => by cases h
  unsent := fun id x h => by cases h

/-- A send half in the table belongs to a stream that has not ended. -/
theorem Inv.live (hI : r.Inv) (h : (r.state.send id).isSome) : id ∉ r.ended := by
  intro hid
  rw [hI.ended id hid] at h
  cases h

/-- The streams that the operation ends. -/
def EndsBy (r : EndedRun) (op : StreamsOp) (r' : EndedRun) : Prop :=
  ∀ i, i ∈ r'.ended ↔ i ∈ r.ended ∨ (op.ackId = some i ∧ (r.state.send i).isSome ∧ r'.state.send i = none)

/-- A stream whose send half is the same has not ended now. -/
theorem EndsBy.of_eq (h : r.EndsBy op r') (hs : r'.state.send id = r.state.send id) :
    id ∈ r'.ended ↔ id ∈ r.ended := by
  rw [h id]
  refine ⟨fun hid => ?_, .inl⟩
  obtain hid | ⟨-, hsome, hn⟩ := hid
  · exact hid
  · rw [← hs, hn] at hsome
    cases hsome

/-- **One send half changes**: its stream had not ended and is open, and the new send half has sent what
was sent. -/
theorem Inv.entry (hI : r.Inv) {e : Option Send} (hstep : streamsStep r.run op = .ok r'.run)
    (hends : r.EndsBy op r') (hbuf : r'.run.Buffers) (hframes : r'.frames = r.frames)
    (hs : r'.state.send = Function.update r.state.send id e)
    (hw : ∀ i, i ≠ id ∨ e = none → r'.run.wrote i = r.run.wrote i) (hack : e = none → op.ackId = some id)
    (hid : id ∉ r.ended) (hopen : ¬ r'.state.Unopened id)
    (he : ∀ stream ∈ e, stream.pending.unsent = sentTo id r.frames) : r'.Inv := by
  obtain ⟨hside, hnext⟩ := streamsStep_opened hstep
  have hother : ∀ {i}, i ≠ id → r'.state.send i = r.state.send i := fun hi => by
    rw [hs, Function.update_of_ne hi]
  have hmine : r'.state.send id = e := by rw [hs, Function.update_self]
  constructor
  · intro i hi
    by_cases hne : i = id
    · subst hne
      obtain hi | ⟨-, -, hnone⟩ := (hends i).mp hi
      · exact absurd hi hid
      · exact hnone
    · rw [hother hne]
      exact hI.ended i ((hends.of_eq (hother hne)).mp hi)
  · intro i hi
    by_cases hne : i = id
    · subst hne
      exact hopen
    · rw [hends.of_eq (hother hne), hother hne] at hi
      exact fun hu => hI.opened i hi (hu.mono hside hnext)
  · intro i hn hi
    rw [hframes]
    by_cases hne : i = id
    · subst hne
      -- a send half that was there would have ended the stream
      have hbefore : r.state.send i = none := by
        rw [← Option.not_isSome_iff_eq_none]
        exact fun hsome => hi ((hends i).mpr (.inr ⟨hack (hmine.symm.trans hn), hsome, hn⟩))
      rw [hw i (.inr (hmine.symm.trans hn))]
      exact hI.fresh i hbefore hid
    · rw [hw i (.inl hne)]
      rw [hother hne] at hn
      exact hI.fresh i hn fun h => hi ((hends.of_eq (hother hne)).mpr h)
  · exact hbuf
  · intro i stream hx
    rw [hframes]
    by_cases hne : i = id
    · subst hne
      rw [hmine] at hx
      exact he stream hx
    · rw [hother hne] at hx
      exact hI.unsent i stream hx

/-- No send half changes. -/
theorem Inv.same (hI : r.Inv) (hstep : streamsStep r.run op = .ok r'.run) (hends : r.EndsBy op r')
    (hframes : r'.frames = r.frames) (hs : r'.state.send = r.state.send) (hw : r'.run.wrote = r.run.wrote) :
    r'.Inv := by
  obtain ⟨hside, hnext⟩ := streamsStep_opened hstep
  have hended : ∀ i, i ∈ r'.ended ↔ i ∈ r.ended := fun i => hends.of_eq (by rw [hs])
  obtain ⟨h1, h2, h3, h4, h5⟩ := hI
  constructor
  · intro i hi
    rw [hs]
    exact h1 i ((hended i).mp hi)
  · intro i hi hu
    rw [hended i, hs] at hi
    exact h2 i hi (hu.mono hside hnext)
  · intro i hn hi
    rw [hs] at hn
    rw [hw, hframes]
    exact h3 i hn fun h => hi ((hended i).mpr h)
  · intro i
    change ∀ stream ∈ r'.state.send i, _
    rw [hs, hw]
    exact h4 i
  · rwa [hs, hframes]

end EndedRun

/-! ## Steps -/

theorem StreamsOp.emits_eq_nil {s : StreamsState} {op : StreamsOp} {metas : List StreamMeta}
    (hop : ∀ buf fair, op ≠ .writeStreamFrames buf fair) (h : op.emits s = .ok metas) : metas = [] := by
  cases op with
  | writeStreamFrames buf fair => exact absurd rfl (hop buf fair)
  | _ =>
      cases h
      rfl

/-- What one operation does to the run. -/
theorem endedStep_cases {r r' : EndedRun} {op : StreamsOp} (h : endedStep r op = .ok r') :
    streamsStep r.run op = .ok r'.run ∧ r.EndsBy op r' ∧
      ∃ metas, op.emits r.state = .ok metas ∧ r'.frames = r.frames ++ metas := by
  obtain ⟨run, hrun, h⟩ := Checked.bind_eq_ok.mp h
  obtain ⟨metas, hmetas, h⟩ := Checked.bind_eq_ok.mp h
  cases h
  refine ⟨hrun, fun i => ?_, metas, hmetas, rfl⟩
  simp [EndedRun.state]

/-- The next stream of our own has no send half and has not ended. -/
theorem EndedRun.Inv.next {r : EndedRun} (hI : r.Inv) (dir : Dir) :
    (r.state.open dir).1 ∉ r.ended ∧ r.state.send (r.state.open dir).1 = none := by
  have hno : ¬ ((r.state.open dir).1 ∈ r.ended ∨ (r.state.send (r.state.open dir).1).isSome) :=
    fun h => hI.opened _ h (r.state.open_unopened dir).1
  rwa [not_or, Option.not_isSome_iff_eq_none] at hno

/-- An operation that makes a send half makes one for a stream on which nothing was written. -/
theorem EndedRun.Inv.freshOp {r : EndedRun} (hI : r.Inv) {op : StreamsOp} (hop : op.WritesOpen r)
    (hclosed : ∀ id data, op ≠ .write true id data) : op.Fresh r.run := by
  cases op with
  | «open» dir =>
      obtain ⟨hc, hn⟩ := hI.next dir
      exact (hI.fresh _ hn hc).1
  | write closed id data =>
      intro hn
      cases closed with
      | true => exact absurd rfl (hclosed id data)
      | false => exact (hI.fresh id hn (hop rfl).1).1
  | _ => trivial

/-- **The frames that are sent** continue the earlier ones, and the invariant goes on to hold. -/
theorem EndedRun.Inv.sentOn {r : EndedRun} (hI : r.Inv) {buf buf' : BufMut} {fair : Bool}
    {metas : List StreamMeta} {s' : StreamsState}
    (h : r.state.writeStreamFrames buf fair = .ok (metas, s', buf')) :
    SentOn r.run.wrote r.frames r.state metas s' := by
  refine StreamsState.writeStreamFrames_inv (I := fun ms s _ => SentOn r.run.wrote r.frames r.state ms s)
    (fun _ _ _ _ _ _ hI _ ht => streamTurn_sentOn hI ht) ?_ (StreamsState.TurnsMeet.trivial ..) h
  refine ⟨hI.buffers, fun _ => rfl, fun _ _ => rfl, fun id stream hs => ?_, fun id stream hs => ?_, trivial⟩
  · rw [List.append_nil]
    exact hI.unsent id stream hs
  · exact ⟨stream, hs, fun _ hx => hx⟩

theorem EndedRun.Inv.sent {r r' : EndedRun} (hI : r.Inv) {buf : BufMut} {fair : Bool}
    (h : endedStep r (.writeStreamFrames buf fair) = .ok r') : r'.Inv := by
  obtain ⟨hstep, hends, metas, hmetas, hframes⟩ := endedStep_cases h
  obtain ⟨hside, hnext⟩ := streamsStep_opened hstep
  obtain ⟨⟨metas', s, buf'⟩, hw, hstep⟩ := Checked.bind_eq_ok.mp hstep
  have hrun := Except.ok.inj hstep
  have hstate : r'.state = s := by
    unfold EndedRun.state
    rw [← hrun]
  have hwrote : r'.run.wrote = r.run.wrote := by rw [← hrun]
  have heq : metas = metas' := by
    rw [StreamsOp.emits, show r.state.writeStreamFrames buf fair = _ from hw] at hmetas
    exact (Except.ok.inj hmetas).symm
  subst heq
  have hs := hI.sentOn hw
  -- nothing ends here
  have hended : ∀ i, i ∈ r'.ended ↔ i ∈ r.ended := by
    intro i
    rw [hends i]
    exact or_iff_left fun h => by cases h.1
  have hnone : ∀ {i}, s.send i = none ↔ r.state.send i = none := by
    intro i
    rw [← Option.not_isSome_iff_eq_none, ← Option.not_isSome_iff_eq_none, hs.same i]
  constructor
  · intro i hi
    rw [hstate]
    exact hnone.mpr (hI.ended i ((hended i).mp hi))
  · intro i hi hu
    rw [hended i, hstate, hs.same i] at hi
    exact hI.opened i hi (hu.mono hside hnext)
  · intro i hn hi
    rw [hstate] at hn
    obtain ⟨hw0, hf0⟩ := hI.fresh i (hnone.mp hn) fun h => hi ((hended i).mpr h)
    rw [hwrote, hframes, sentTo_append, hf0, hs.absent i (hnone.mp hn)]
    exact ⟨hw0, rfl⟩
  · intro i
    rw [hwrote, show r'.run.state = s from hstate]
    exact hs.buffers i
  · intro i
    rw [hstate, hframes]
    exact hs.unsent i

/-- **One operation keeps the invariant.** -/
theorem endedStep_inv (r : EndedRun) (op : StreamsOp) (r' : EndedRun) (hI : r.Inv) (hop : op.WritesOpen r)
    (h : endedStep r op = .ok r') : r'.Inv := by
  by_cases hsends : ∃ buf fair, op = .writeStreamFrames buf fair
  · obtain ⟨buf, fair, rfl⟩ := hsends
    exact hI.sent h
  obtain ⟨hstep, hends, metas, hmetas, hframes⟩ := endedStep_cases h
  rw [StreamsOp.emits_eq_nil (fun buf fair h => hsends ⟨buf, fair, h⟩) hmetas, List.append_nil] at hframes
  -- a write on a closed connection does nothing
  by_cases hclosed : ∃ id data, op = .write true id data
  · obtain ⟨id, data, rfl⟩ := hclosed
    have hrun : r'.run = r.run := (Except.ok.inj hstep).symm
    exact hI.same hstep hends hframes (by rw [EndedRun.state, hrun, EndedRun.state]) (by rw [hrun])
  have hbuf : r'.run.Buffers := streamsStep_buffers r.run op r'.run hI.buffers
    (hI.freshOp hop fun id data h => hclosed ⟨id, data, h⟩) hstep
  obtain ⟨hside, hnext⟩ := streamsStep_opened hstep
  have hwider : ∀ {id}, ¬ r.state.Unopened id → ¬ r'.state.Unopened id :=
    fun hu h => hu (h.mono hside hnext)
  -- the streams that are in the table
  have hlive : ∀ {id stream}, r.state.send id = some stream → id ∉ r.ended ∧ ¬ r'.state.Unopened id ∧
      stream.pending.unsent = sentTo id r.frames := by
    intro id stream hs
    have hsome : (r.state.send id).isSome := by rw [hs]; rfl
    exact ⟨hI.live hsome, hwider (hI.opened id (.inr hsome)), hI.unsent id stream hs⟩
  obtain ⟨run', ended', frames'⟩ := r'
  dsimp only at hstep hframes hbuf
  cases streamsStep_move hstep with
  | same hquiet hs hf => exact hI.same hstep hends hframes hs rfl
  | @tuned _ _ id stream stream' hquiet he hs hst hp hfin =>
      obtain ⟨hid, hopen, hu⟩ := hlive he
      refine hI.entry hstep hends hbuf hframes hs (fun _ _ => rfl) nofun hid hopen fun x hx => ?_
      cases hx
      rw [hp]
      exact hu
  | opened dir =>
      refine hI.entry hstep hends hbuf hframes (r.state.open_send dir) (fun _ _ => rfl) nofun
        (hI.next dir).1 (r.state.open_unopened dir).2 fun stream hs => ?_
      cases hs
      exact (hI.fresh _ (hI.next dir).2 (hI.next dir).1).2.symm
  | written id data hst hs =>
      obtain ⟨hid, hopen⟩ := hop rfl
      refine hI.entry hstep hends hbuf hframes hs (fun i hi => ?_) nofun hid (hwider hopen)
        fun stream hx => ?_
      · exact Function.update_of_ne (hi.resolve_right nofun) ..
      · cases hx
        change ((r.state.send id).getD Send.default).pending.unsent = _
        cases he : r.state.send id with
        | none => exact (hI.fresh id he hid).2.symm
        | some stream => exact hI.unsent id stream he
  | @finished _ id stream hok he hst hs | @reset _ id errorCode stream he hs =>
      obtain ⟨hid, hopen, hu⟩ := hlive he
      refine hI.entry hstep hends hbuf hframes hs (fun _ _ => rfl) nofun hid hopen fun x hx => ?_
      cases hx
      exact hu
  | @dropped s id hs =>
      cases he : r.state.send id with
      | none =>
          have hsame : s.send = r.state.send := by
            rw [hs, show r.run.state.send = r.state.send from rfl, ← he, Function.update_eq_self]
          exact hI.same hstep hends hframes hsame rfl
      | some stream =>
          obtain ⟨hid, hopen, -⟩ := hlive he
          exact hI.entry hstep hends hbuf hframes hs (fun _ _ => rfl) (fun _ => rfl) hid hopen nofun
  | sent buf fair hw => exact absurd ⟨buf, fair, rfl⟩ hsends
  | @acked _ m stream pending he hl hp hs =>
      obtain ⟨hid, hopen, hu⟩ := hlive he
      obtain ⟨-, -, -, hu', -⟩ := (hI.buffers m.id stream he).ack hp
      rcases hs with hs | hs
      · exact hI.entry hstep hends hbuf hframes hs (fun _ _ => rfl) (fun _ => rfl) hid hopen nofun
      · refine hI.entry hstep hends hbuf hframes hs (fun _ _ => rfl) nofun hid hopen fun x hx => ?_
        cases hx
        exact hu'.trans hu
  | @lost _ m stream pending he hl hp hs =>
      obtain ⟨hid, hopen, hu⟩ := hlive he
      obtain ⟨-, -, rfl⟩ := (hI.buffers m.id stream he).retransmit hp
      refine hI.entry hstep hends hbuf hframes hs (fun _ _ => rfl) nofun hid hopen fun x hx => ?_
      cases hx
      exact hu
  | ackIgnored m hg | lossIgnored m hg => exact hI.same hstep hends hframes rfl rfl

/-- A write on a stream without a send half makes one. -/
theorem StreamsState.write_absent {s : StreamsState} {id : StreamId} (h : s.send id = none) (data : Bytes) :
    (s.write false id data).1 = .ok () := by
  unfold write
  rw [if_neg Bool.false_ne_true, h]
  rfl

/-- **The operation keeps the ended streams ended** exactly if it is no write on one of them, nor on an
unopened stream. -/
theorem EndedRun.Inv.keepsEnded_iff {r : EndedRun} (hI : r.Inv) (op : StreamsOp) :
    op.KeepsEnded r ↔ op.WritesOpen r := by
  cases op with
  | write closed id data =>
      refine forall_congr' fun hc => ?_
      subst hc
      have hok : r.state.send id = none → (r.state.write false id data).1 ≠ .error .closedStream := by
        intro hn he
        rw [StreamsState.write_absent hn] at he
        cases he
      constructor
      · rintro ⟨h1, h2⟩
        refine ⟨fun hid => hok (hI.ended id hid) (by rw [h1 hid]), fun hu => hok ?_ (h2 hu)⟩
        rw [← Option.not_isSome_iff_eq_none]
        exact fun hsome => hI.opened id (.inr hsome) hu
      · rintro ⟨hid, hu⟩
        exact ⟨fun h => absurd h hid, fun h => absurd h hu⟩
  | finish id =>
      refine iff_of_true (fun hid => ?_) trivial
      unfold StreamsState.finish
      rw [hI.ended id hid]
  | reset id errorCode =>
      refine iff_of_true (fun hid pending => ?_) trivial
      unfold StreamsState.reset
      rw [hI.ended id hid]
  | writeStreamFrames buf fair =>
      refine iff_of_true (fun metas s' buf' h => ?_) trivial
      exact (hI.sentOn h).continues
  | _ => exact Iff.rfl

/-- **An ended send stream stays ended** in a run, and no stream starts again, exactly if the run writes on
no stream whose send half was removed and on no stream of our own that was not opened. -/
theorem ended_stays_ended (side : Side) (ops : List StreamsOp) :
    Meets endedStep (fun r op => op.KeepsEnded r) (EndedRun.new side) ops ↔
      Meets endedStep (fun r op => op.WritesOpen r) (EndedRun.new side) ops :=
  Meets.congr_inv (fun _ op hI => hI.keepsEnded_iff op) endedStep_inv (EndedRun.inv_new side)

/-- A byte and a FIN are sent and acknowledged, so that the stream ends. A write on it succeeds, and its
frame starts again at offset 0. A write on a stream that was never opened succeeds as well. -/
theorem ended_starts_again : (∃ (ops : List StreamsOp) (r r' : EndedRun) (buf : BufMut),
    Meets endedStep (fun r op => op.Legal r.run) (EndedRun.new .client) ops ∧
    run endedStep (EndedRun.new .client) ops = .ok r ∧ ⟨2⟩ ∈ r.ended ∧
    (r.state.write false ⟨2⟩ [8]).1 = .ok () ∧ endedStep r (.write false ⟨2⟩ [8]) = .ok r' ∧
    (.writeStreamFrames buf false : StreamsOp).emits r'.state = .ok [⟨⟨2⟩, ⟨0, 1⟩, false⟩] ∧
    sentTo ⟨2⟩ r'.frames = 1 ∧
    ¬ Meets endedStep (fun r op => op.KeepsEnded r) (EndedRun.new .client)
      (ops ++ [.write false ⟨2⟩ [8], .writeStreamFrames buf false])) ∧
    (EndedRun.new .client).state.Unopened ⟨2⟩ ∧
      ((EndedRun.new .client).state.write false ⟨2⟩ [8]).1 = .ok () := by
  let ops : List StreamsOp := [.open .uni, .write false ⟨2⟩ [7], .finish ⟨2⟩,
    .writeStreamFrames (.withCapacity 100) false, .receivedAckOf ⟨⟨2⟩, ⟨0, 1⟩, true⟩]
  refine ⟨⟨ops, _, _, .withCapacity 100, by decide, rfl, by decide, rfl, rfl, rfl, rfl, fun h => ?_⟩,
    by decide, rfl⟩
  have hw : StreamsOp.KeepsEnded _ (.write false ⟨2⟩ [8]) := (h.of_append rfl).1
  have hrefused := (hw rfl).1 (by decide)
  cases hrefused

end MzQuic
