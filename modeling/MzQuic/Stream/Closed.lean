import MzQuic.Stream.RecvMoves

/-!
# Closed receive streams (`core/src/connection/stream/state.rs`, `recv.rs`)

The entry of a stream that was read to its end, reset or stopped is discarded, and nothing remembers
that there was one. A later frame is dropped if it cannot begin a stream; a STREAM frame at offset 0
without a FIN, and any RESET_STREAM frame, make a new entry.

* `ClosedRun`: a run with the streams whose entry was discarded, and the chunks returned on each stream;
* `StreamsOp.Timely`: the operation is not such a late frame;
* **`closed_stays_closed`**: in a run without late frames a closed stream stays closed, and each byte of
  a stream is returned once.
-/

namespace MzQuic

open Lib

/-! ## Runs with a memory of closed streams -/

/-- A run, with what was closed and what was returned. -/
structure ClosedRun where
  run : StreamsRun
  /-- The streams whose receive half was discarded. -/
  closed : List StreamId
  /-- The chunks that were returned on each stream. -/
  chunks : StreamId → List Chunk

namespace ClosedRun

/-- A fresh connection. -/
def new (side : Side) : ClosedRun := ⟨StreamsRun.new side, [], fun _ => []⟩

/-- The streams. -/
def state (r : ClosedRun) : StreamsState := r.run.state

/-- The operation works on the receive half of `id`, returns the chunks, and leaves the run `run`. -/
def note (r : ClosedRun) (run : StreamsRun) (id : StreamId) (chunks : List Chunk) : ClosedRun where
  run := run
  closed := if (r.state.recv id).isSome && (run.state.recv id).isNone then id :: r.closed else r.closed
  chunks := Function.update r.chunks id (r.chunks id ++ chunks)

end ClosedRun

/-- One operation. -/
def closedStep (r : ClosedRun) (op : StreamsOp) : Checked ClosedRun := do
  let run ← streamsStep r.run op
  let chunks ← op.delivers r.state
  match op.recvId r.state with
  | none => return { r with run := run }
  | some id => return r.note run id chunks

/-- The operation is not a frame that makes a new entry for a closed stream. -/
def StreamsOp.Timely (r : ClosedRun) : StreamsOp → Prop
  | .received frame _ => frame.id ∈ r.closed →
      frame.id.initiator = r.state.side ∨ frame.offset > 0 ∨ frame.fin = true
  | .receivedReset frame => frame.id ∉ r.closed
  | _ => True

instance (r : ClosedRun) : ∀ op : StreamsOp, Decidable (op.Timely r)
  | .received frame _ => inferInstanceAs (Decidable (frame.id ∈ r.closed →
      frame.id.initiator = r.state.side ∨ frame.offset > 0 ∨ frame.fin = true))
  | .receivedReset frame => inferInstanceAs (Decidable (frame.id ∉ r.closed))
  | .open _ | .write .. | .finish _ | .reset .. | .setPriority .. | .read .. | .stop ..
  | .takeReset _ | .receivedStopSending _ | .resetAcked _ | .writeStreamFrames .. | .receivedAckOf _
  | .retransmit _ => .isTrue trivial

/-! ## The invariant -/

/-- A stream of our own with a receive half was opened. -/
def StreamsState.Opened (s : StreamsState) (id : StreamId) : Prop :=
  id.initiator = s.side → id.dir = .bi ∧ id.index < s.next .bi

/-- The invariant of a run. -/
structure ClosedRun.Inv (r : ClosedRun) : Prop where
  entry : ∀ id, ∀ rs ∈ r.state.recv id, id ∉ r.closed ∧ rs.assembler.WF ∧
    rs.assembler.bytesRead = ((r.chunks id).flatMap Chunk.bytes).length
  fresh : ∀ id, r.state.recv id = none → id ∉ r.closed → r.chunks id = []
  offsets : ∀ id, Consecutive 0 (r.chunks id)
  opened : ∀ id, id ∈ r.closed ∨ (r.state.recv id).isSome → r.state.Opened id

theorem StreamsState.Opened.of_valid {s : StreamsState} {id : StreamId}
    (h : s.validateReceiveId id = .ok ()) : s.Opened id := by
  intro hid
  unfold validateReceiveId at h
  rw [if_pos hid.symm] at h
  cases hd : id.dir with
  | uni =>
      rw [hd] at h
      cases h
  | bi =>
      rw [hd] at h
      dsimp only at h
      split_ifs at h with hi
      exact ⟨rfl, Nat.lt_of_not_le hi⟩

theorem StreamsState.Opened.congr {s s' : StreamsState} {id : StreamId} (h : s.Opened id)
    (hside : s'.side = s.side) (hnext : s'.next .bi = s.next .bi) : s'.Opened id := by
  unfold Opened
  rw [hside, hnext]
  exact h

namespace ClosedRun

variable {r : ClosedRun}

theorem inv_new (side : Side) : (ClosedRun.new side).Inv where
  entry := fun id rs h => by cases h
  fresh := fun _ _ _ => rfl
  offsets := fun _ => trivial
  opened := fun id h => by rcases h with h | h <;> cases h

/-- **One receive half changes**: it was there before or is there after, it was not closed, and it has
counted what was returned. -/
theorem Inv.note (hI : r.Inv) {run : StreamsRun} {id : StreamId} {chunks : List Chunk} {e : Option Recv}
    (hside : run.state.side = r.state.side) (hnext : r.state.next .bi ≤ run.state.next .bi)
    (hs : run.state.recv = Function.update r.state.recv id e) (hc : id ∉ r.closed)
    (hsome : (r.state.recv id).isSome ∨ e.isSome) (hopen : run.state.Opened id)
    (hcons : Consecutive 0 (r.chunks id ++ chunks))
    (he : ∀ rs ∈ e, rs.assembler.WF ∧
      rs.assembler.bytesRead = ((r.chunks id ++ chunks).flatMap Chunk.bytes).length) :
    (r.note run id chunks).Inv := by
  have hrecv : ∀ i, i ≠ id → run.state.recv i = r.state.recv i := fun i hi => by
    rw [hs, Function.update_of_ne hi]
  have hself : run.state.recv id = e := by rw [hs, Function.update_self]
  have hclosed : ∀ i, i ≠ id → (i ∈ (r.note run id chunks).closed ↔ i ∈ r.closed) := by
    intro i hi
    unfold ClosedRun.note
    dsimp only
    split_ifs
    · rw [List.mem_cons, or_iff_right hi]
    · rfl
  have hchunks : ∀ i, i ≠ id → (r.note run id chunks).chunks i = r.chunks i := fun i hi =>
    Function.update_of_ne hi _ _
  have hmine : (r.note run id chunks).chunks id = r.chunks id ++ chunks := Function.update_self ..
  have hwider : ∀ i, r.state.Opened i → run.state.Opened i := fun i h hi => by
    obtain ⟨h1, h2⟩ := h (by rw [← hside]; exact hi)
    exact ⟨h1, h2.trans_le hnext⟩
  constructor
  · intro i rs hrs
    by_cases hi : i = id
    · subst hi
      change run.state.recv i = some rs at hrs
      rw [hself] at hrs
      refine ⟨?_, by rw [hmine]; exact he rs hrs⟩
      unfold ClosedRun.note
      dsimp only
      rw [hself, hrs, Option.isNone_some, Bool.and_false, if_neg Bool.false_ne_true]
      exact hc
    · rw [hclosed i hi, hchunks i hi]
      exact hI.entry i rs ((hrecv i hi).symm.trans hrs)
  · intro i hrs hcl
    by_cases hi : i = id
    · subst hi
      -- the half was there and is gone, so it is closed
      change run.state.recv i = none at hrs
      refine absurd ?_ hcl
      rw [hself] at hrs
      subst hrs
      rcases hsome with hsome | hsome
      · unfold ClosedRun.note
        dsimp only
        rw [hself, hsome, Option.isNone_none, Bool.and_true, if_pos rfl]
        exact List.mem_cons_self
      · cases hsome
    · rw [hchunks i hi]
      exact hI.fresh i ((hrecv i hi).symm.trans hrs) fun h => hcl ((hclosed i hi).mpr h)
  · intro i
    by_cases hi : i = id
    · subst hi
      rw [hmine]
      exact hcons
    · rw [hchunks i hi]
      exact hI.offsets i
  · intro i h
    by_cases hi : i = id
    · subst hi
      exact hopen
    · refine hwider i (hI.opened i ?_)
      rw [← hclosed i hi, ← hrecv i hi]
      exact h

/-- A move that works on no receive half. -/
theorem Inv.same (hI : r.Inv) {run : StreamsRun} (h : r.state.SameRecv run.state) :
    ClosedRun.Inv { r with run := run } where
  entry := fun id rs hrs => hI.entry id rs (by rw [← h.recv]; exact hrs)
  fresh := fun id hrs hcl => hI.fresh id (by rw [← h.recv]; exact hrs) hcl
  offsets := hI.offsets
  opened := fun id hid => (hI.opened id (by rw [← h.recv]; exact hid)).congr h.side h.next

end ClosedRun

/-- An announcement concerns a receive half that is in the table. -/
theorem RecvMove.readable {s s' : StreamsState} {op : StreamsOp} {chunks : List Chunk}
    (h : RecvMove s op s' chunks) {id : StreamId}
    (hid : .stream (.readable id) ∈ s'.events.drop s.events.length) : (s'.recv id).isSome := by
  have hsame : s'.events ≠ s.events := fun he => by
    rw [he, List.drop_length] at hid
    cases hid
  -- an announcement of `i`, whose entry is there afterwards
  have hann : ∀ {i : StreamId} {rs' : Recv}, s'.recv = Function.update s.recv i (some rs') →
      s.Announces i s' → (s'.recv id).isSome := by
    intro i rs' hs ha
    have he := ha.events.resolve_left hsame
    rw [he, List.drop_left, List.mem_singleton] at hid
    cases hid
    rw [hs, Function.update_self]
    rfl
  cases h with
  | same h =>
      obtain ⟨l, hl, hno⟩ := h.events
      rw [hl, List.drop_left] at hid
      exact absurd hid (hno id)
  | opened hop hs => exact absurd (by rw [hs]; rfl) hsame
  | made i hi hn hop hwf hread hs ha => exact hann hs ha
  | kept i hi he hwf hsize hs ha => exact hann hs ha
  | discarded i hi he hs => exact absurd (by rw [hs]; rfl) hsame
  | read i hi he hc hs => exact absurd (by rw [hs]; rfl) hsame

/-- What one operation does to the run. -/
theorem closedStep_move {r r' : ClosedRun} {op : StreamsOp} (h : closedStep r op = .ok r') :
    ∃ chunks, RecvMove r.state op r'.state chunks ∧
      ((op.recvId r.state = none ∧ r' = { r with run := r'.run }) ∨
        ∃ id, op.recvId r.state = some id ∧ r' = r.note r'.run id chunks) := by
  obtain ⟨run, hrun, h⟩ := Checked.bind_eq_ok.mp h
  obtain ⟨chunks, hchunks, h⟩ := Checked.bind_eq_ok.mp h
  obtain ⟨chunks', hd, hm⟩ := streamsStep_recvMove hrun
  have heq : chunks' = chunks := Except.ok.inj (hd.symm.trans hchunks)
  subst heq
  cases hid : op.recvId r.state with
  | none =>
      rw [hid] at h
      cases h
      exact ⟨_, hm, .inl ⟨rfl, rfl⟩⟩
  | some id =>
      rw [hid] at h
      cases h
      exact ⟨_, hm, .inr ⟨id, rfl, rfl⟩⟩

/-- A timely frame makes an entry for a stream that was never closed. -/
theorem StreamsOp.Timely.fresh {r : ClosedRun} {op : StreamsOp} (hop : op.Timely r) {id : StreamId}
    (hid : op.recvId r.state = some id) (hm : op.Makes r.state) : id ∉ r.closed ∧ r.state.Opened id := by
  cases op with
  | received frame payloadLen =>
      cases hid
      obtain ⟨hpeer, h0, hfin⟩ := hm
      refine ⟨fun hc => ?_, fun h => absurd h hpeer⟩
      rcases hop hc with h | h | h
      · exact hpeer h
      · exact absurd h0 h.ne'
      · rw [hfin] at h
        cases h
  | receivedReset frame =>
      cases hid
      exact ⟨hop, .of_valid hm⟩
  | _ => exact hm.elim

/-- The next stream of our own was neither closed nor opened. -/
theorem ClosedRun.Inv.next {r : ClosedRun} (hI : r.Inv) :
    (r.state.open .bi).1 ∉ r.closed ∧ r.state.recv (r.state.open .bi).1 = none := by
  have hno : ¬ ((r.state.open .bi).1 ∈ r.closed ∨ (r.state.recv (r.state.open .bi).1).isSome) := by
    intro h
    have hlt := (hI.opened _ h (StreamId.initiator_new ..)).2
    change (StreamId.new r.state.side .bi (r.state.next .bi)).index < _ at hlt
    rw [StreamId.index_new] at hlt
    exact absurd hlt (lt_irrefl _)
  rw [not_or, Option.not_isSome_iff_eq_none] at hno
  exact hno

/-- **One operation keeps the invariant.** -/
theorem closedStep_inv (r : ClosedRun) (op : StreamsOp) (r' : ClosedRun) (hI : r.Inv) (hop : op.Timely r)
    (h : closedStep r op = .ok r') : r'.Inv := by
  obtain ⟨chunks, hm, hr'⟩ := closedStep_move h
  have hnote : ∀ {id}, op.recvId r.state = some id → r' = r.note r'.run id chunks := by
    intro id hid
    obtain ⟨hn, -⟩ | ⟨id', hid', hr'⟩ := hr'
    · rw [hid] at hn
      cases hn
    · rw [hid] at hid'
      cases hid'
      exact hr'
  -- an entry that is there is not closed, and was opened if it is our own
  have hthere : ∀ {id rs}, r.state.recv id = some rs → id ∉ r.closed ∧ (r.state.recv id).isSome ∧
      r.state.Opened id := by
    intro id rs he
    have hsome : (r.state.recv id).isSome := by rw [he]; rfl
    exact ⟨(hI.entry id rs he).1, hsome, hI.opened id (.inr hsome)⟩
  cases hm with
  | same hs =>
      have hr : r' = { r with run := r'.run } := by
        obtain ⟨-, hr'⟩ | ⟨id, -, hr'⟩ := hr'
        · exact hr'
        · rw [hr']
          unfold ClosedRun.note
          have hrecv : r'.run.state.recv = r.state.recv := hs.recv
          rw [hrecv, List.append_nil, Function.update_eq_self, if_neg (by cases r.state.recv id <;> simp)]
      rw [hr]
      exact hI.same hs
  | opened hop' hs =>
      obtain ⟨hc, hn⟩ := hI.next
      rw [hnote (by rw [hop']; rfl)]
      have hrun : r'.run.state = (r.state.open .bi).2 := hs
      have hnext : r'.run.state.next .bi = r.state.next .bi + 1 := by
        rw [hrun]
        exact Function.update_self .bi (r.state.next .bi + 1) r.state.next
      refine hI.note (by rw [hrun]; rfl) (by rw [hnext]; exact Nat.le_succ _)
        (e := some Recv.default) (by rw [hrun]; rfl) hc (.inr rfl) ?_ ?_ fun rs hrs => ?_
      · refine fun _ => ⟨StreamId.dir_new .., ?_⟩
        rw [hnext]
        change (StreamId.new r.state.side .bi (r.state.next .bi)).index < _
        rw [StreamId.index_new]
        exact Nat.lt_succ_self _
      · rw [hI.fresh _ hn hc]
        trivial
      · cases hrs
        rw [hI.fresh _ hn hc]
        exact ⟨Recv.default_wf, rfl⟩
  | made id hid hn hmake hwf hread hs ha =>
      obtain ⟨hc, hopen⟩ := hop.fresh hid hmake
      rw [hnote hid]
      refine hI.note ha.side ha.next.ge hs hc (.inr rfl) ?_ ?_ fun rs hrs => ?_
      · exact hopen.congr ha.side ha.next
      · rw [hI.fresh id hn hc]
        trivial
      · cases hrs
        rw [hI.fresh id hn hc]
        exact ⟨hwf, hread⟩
  | kept id hid he hwf hsize hs ha =>
      obtain ⟨hc, hsome, hopen⟩ := hthere he
      obtain ⟨-, hwf', hread⟩ := hI.entry id _ he
      rw [hnote hid]
      refine hI.note ha.side ha.next.ge hs hc (.inl hsome) (hopen.congr ha.side ha.next) ?_ fun rs hrs => ?_
      · rw [List.append_nil]
        exact hI.offsets id
      · cases hrs
        rw [List.append_nil, ← hread]
        exact hwf hwf'
  | discarded id hid he hs =>
      obtain ⟨hc, hsome, hopen⟩ := hthere he
      have hrun : r'.run.state = r.state.setRecv id none := hs
      rw [hnote hid]
      refine hI.note (by rw [hrun]; rfl) (by rw [hrun]; rfl) (e := none) (by rw [hrun]; rfl) hc (.inl hsome)
        (by rw [hrun]; exact hopen) ?_ fun rs hrs => by cases hrs
      rw [List.append_nil]
      exact hI.offsets id
  | read id hid he hcol hs =>
      obtain ⟨hc, hsome, hopen⟩ := hthere he
      obtain ⟨-, hwf, hread⟩ := hI.entry id _ he
      have hrun : r'.run.state = r.state.setRecv id _ := hs
      obtain ⟨hcons, hlast⟩ := Chunks.collect_spec rfl (fun x hx => by cases hx; exact ⟨hwf, hread⟩) hcol
      rw [hnote hid]
      refine hI.note (by rw [hrun]; rfl) (by rw [hrun]; rfl) (by rw [hrun]; rfl) hc (.inl hsome)
        (by rw [hrun]; exact hopen) ?_ fun rs hrs => ?_
      · rw [consecutive_append, Nat.zero_add]
        exact ⟨hI.offsets id, hcons⟩
      · obtain ⟨⟨hwf', hread'⟩, -⟩ := hlast rs hrs
        rw [List.flatMap_append, List.length_append]
        exact ⟨hwf', hread'⟩

/-- **A closed receive stream stays closed.** In every run without late frames, a stream whose receive
half was discarded has none before and after any further operation, which announces nothing about it; and
the chunks returned on each stream follow one another from offset 0. -/
theorem closed_stays_closed (side : Side) (ops : List StreamsOp) (op : StreamsOp) {r r' : ClosedRun}
    (hm : Meets closedStep (fun r op => op.Timely r) (ClosedRun.new side) (ops ++ [op]))
    (h : run closedStep (ClosedRun.new side) ops = .ok r) (h' : closedStep r op = .ok r') :
    (∀ id ∈ r.closed, r.state.recv id = none ∧ r'.state.recv id = none ∧
      .stream (.readable id) ∉ r'.state.events.drop r.state.events.length) ∧
    ∀ id, Consecutive 0 (r'.chunks id) := by
  have hI : r.Inv := by
    refine run_inv closedStep_inv (ClosedRun.inv_new side) ?_ h
    exact hm.left
  have hI' : r'.Inv := closedStep_inv r op r' hI (hm.of_append h).1 h'
  -- a receive half that is in the table is not closed
  have hnone : ∀ {t : ClosedRun} {id : StreamId}, t.Inv → id ∈ t.closed → t.state.recv id = none := by
    intro t id ht hid
    cases he : t.state.recv id with
    | none => rfl
    | some rs => exact absurd hid (ht.entry id rs he).1
  obtain ⟨chunks, hmove, hr'⟩ := closedStep_move h'
  have hmore : r.closed ⊆ r'.closed := by
    obtain ⟨-, hr'⟩ | ⟨id, -, hr'⟩ := hr'
    · rw [hr']
      exact List.Subset.refl _
    · rw [hr']
      unfold ClosedRun.note
      dsimp only
      split_ifs
      · exact List.subset_cons_self ..
      · exact List.Subset.refl _
  refine ⟨fun id hid => ?_, hI'.offsets⟩
  have hgone := hnone hI' (hmore hid)
  refine ⟨hnone hI hid, hgone, fun hev => ?_⟩
  have hsome := hmove.readable hev
  rw [hgone] at hsome
  cases hsome

/-- Two bytes and a FIN are read to the end, and then the second byte comes again. -/
theorem closed_stays_closed_two : ∃ (ops : List StreamsOp) (op : StreamsOp) (r r' : ClosedRun),
    run closedStep (ClosedRun.new .client) ops = .ok r ∧ closedStep r op = .ok r' ∧ ⟨3⟩ ∈ r.closed ∧
    (∀ id ∈ r.closed, r.state.recv id = none ∧ r'.state.recv id = none ∧
      .stream (.readable id) ∉ r'.state.events.drop r.state.events.length) ∧
    ∀ id, Consecutive 0 (r'.chunks id) := by
  let ops : List StreamsOp := [.received ⟨⟨3⟩, 0, false, [1, 2]⟩ 8, .received ⟨⟨3⟩, 2, true, []⟩ 8,
    .read ⟨3⟩ [9, 9]]
  let op : StreamsOp := .received ⟨⟨3⟩, 1, false, [2]⟩ 8
  exact ⟨ops, op, _, _, rfl, rfl, by decide, closed_stays_closed .client ops op (by decide) rfl rfl⟩

/-- Two bytes and a FIN are read to the end, and then the first frame comes again: there is a receive half
again, it is announced, and its bytes are returned a second time. -/
theorem late_frame_reopens : ∃ (ops : List StreamsOp) (op : StreamsOp) (r r' r'' : ClosedRun),
    run closedStep (ClosedRun.new .client) ops = .ok r ∧ closedStep r op = .ok r' ∧
    closedStep r' (.read ⟨3⟩ [9]) = .ok r'' ∧ ⟨3⟩ ∈ r.closed ∧ (r'.state.recv ⟨3⟩).isSome ∧
    .stream (.readable ⟨3⟩) ∈ r'.state.events.drop r.state.events.length ∧
    ¬ Consecutive 0 (r''.chunks ⟨3⟩) := by
  refine ⟨[.received ⟨⟨3⟩, 0, false, [1, 2]⟩ 8, .received ⟨⟨3⟩, 2, true, []⟩ 8, .read ⟨3⟩ [9, 9]],
    .received ⟨⟨3⟩, 0, false, [1, 2]⟩ 8, _, _, _, rfl, rfl, rfl, by decide, by decide, by decide, ?_⟩
  rintro ⟨-, h, -⟩
  revert h
  decide

end MzQuic
