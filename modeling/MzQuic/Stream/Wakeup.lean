import MzQuic.Stream.RecvMoves

/-!
# Readable events (`core/src/connection/stream/state.rs`, `recv.rs`)

* `streamsStep_recvWF`: the assemblers of the table stay well-formed along every run;
* `Assembler.firstMissing`: the first offset that an ordered read cannot reach;
* **`readable_iff`**: a frame that makes more bytes readable, or completes the stream, is followed by
  a `Readable` event, unless it fills a gap below the highest offset received.
-/

namespace MzQuic

open Lib

/-! ## The table of receive halves -/

namespace StreamsState

variable {s s' : StreamsState}

/-- Every assembler of the table is well-formed. -/
def RecvWF (s : StreamsState) : Prop := ∀ id, ∀ rs ∈ s.recv id, rs.assembler.WF

theorem RecvWF.update (h : s.RecvWF) {id : StreamId} {e : Option Recv}
    (he : ∀ rs ∈ e, rs.assembler.WF) (hs : s'.recv = Function.update s.recv id e) : s'.RecvWF := by
  unfold RecvWF
  rw [hs]
  exact (Function.forall_update_iff s.recv fun _ x => ∀ rs ∈ x, rs.assembler.WF).mpr
    ⟨he, fun i _ => h i⟩

theorem RecvWF.congr (h : s.RecvWF) (hs : s'.recv = s.recv) : s'.RecvWF := by
  unfold RecvWF
  rw [hs]
  exact h

theorem recvEntry_wf (h : s.RecvWF) {frame : Stream} {rs : Recv}
    (he : s.recvEntry frame = some rs) : rs.assembler.WF := by
  rcases recvEntry_eq he with hs | ⟨-, rfl, -⟩
  · exact h _ rs hs
  · exact Assembler.WF.default

/-- **Every move keeps the assemblers well-formed.** -/
theorem RecvWF.move (h : s.RecvWF) {op : StreamsOp} {chunks : List Chunk} (hm : RecvMove s op s' chunks) :
    s'.RecvWF := by
  cases hm with
  | same hs => exact h.congr hs.recv
  | opened hop hs =>
      rw [hs]
      exact h.update (fun x hx => by cases hx; exact Assembler.WF.default) rfl
  | made id hid hn hop hwf hread hs ha => exact h.update (fun x hx => by cases hx; exact hwf) hs
  | kept id hid he hwf hsize hs ha => exact h.update (fun x hx => by cases hx; exact (hwf (h id _ he)).1) hs
  | discarded id hid he hs =>
      rw [hs]
      exact h.update (fun x hx => by cases hx) rfl
  | read id hid he hc hs =>
      rw [hs]
      obtain ⟨-, hlast⟩ := Chunks.collect_spec rfl (fun x hx => by cases hx; exact ⟨h id _ he, rfl⟩) hc
      exact h.update (fun x hx => (hlast x hx).1.1) rfl

end StreamsState

/-- **Every operation keeps the assemblers well-formed.** -/
theorem streamsStep_recvWF (r : StreamsRun) (op : StreamsOp) (r' : StreamsRun) (hI : r.state.RecvWF)
    (_ : True) (h : streamsStep r op = .ok r') : r'.state.RecvWF := by
  obtain ⟨chunks, -, hm⟩ := streamsStep_recvMove h
  exact hI.move hm

/-! ## What can be read -/

/-- The first offset, from `pos` on, at which the segments leave a gap. -/
def contiguous : ℕ → List Buffer → ℕ
  | pos, [] => pos
  | pos, b :: rest => if b.offset = pos then contiguous b.bufEnd rest else pos

theorem contiguous_spec {lo : ℕ} {data : List Buffer} (h : SegsFrom lo data) :
    lo ≤ contiguous lo data ∧ (∀ x, lo ≤ x → x < contiguous lo data → Held data x) ∧
      ¬ Held data (contiguous lo data) := by
  induction data generalizing lo with
  | nil => exact ⟨le_rfl, fun x h1 h2 => absurd h2 (Nat.not_lt.mpr h1), held_nil _⟩
  | cons b rest ih =>
      obtain ⟨h1, h2, h3⟩ := h
      have hb := bufEnd_gt h2
      obtain ⟨g1, g2, g3⟩ := ih h3
      unfold contiguous
      split_ifs with heq
      · refine ⟨by omega, fun x hx1 hx2 => held_cons.mpr ?_, fun hx => ?_⟩
        · by_cases hx : x < b.bufEnd
          · exact .inl ⟨by omega, hx⟩
          · exact .inr (g2 x (by omega) hx2)
        · rcases held_cons.mp hx with hx | hx
          · omega
          · exact g3 hx
      · refine ⟨le_rfl, fun x h1 h2 => absurd h2 (Nat.not_lt.mpr h1), fun hx => ?_⟩
        rcases held_cons.mp hx with hx | hx
        · omega
        · have := h3.le_of_held hx
          omega

namespace Assembler

/-- The first offset that an ordered read cannot reach. -/
def firstMissing (a : Assembler) : ℕ := contiguous a.bytesRead a.data

/-- The number of bytes that an ordered read can return. -/
def available (a : Assembler) : ℕ := a.firstMissing - a.bytesRead

/-- **When a frame makes more bytes readable**: it holds the first missing offset, and it does not
begin inside a buffered segment. -/
theorem available_lt_iff {a a' : Assembler} (ha : a.WF) {offset allocationSize : ℕ} {bytes : Bytes}
    (h : a.insert offset bytes allocationSize = .ok a') : a.available < a'.available ↔
      (offset ≤ a.firstMissing ∧ a.firstMissing < offset + bytes.length) ∧ a.Apart offset bytes := by
  obtain ⟨hwf, hread, -, hcases⟩ := insert_ok ha h
  obtain ⟨h1, h2, h3⟩ := contiguous_spec ha.segs
  obtain ⟨g1, g2, g3⟩ := contiguous_spec hwf.segs
  unfold available firstMissing
  rw [hread] at g1 g2 g3 ⊢
  rcases hcases with ⟨hap, hheld⟩ | ⟨c, hc, hin, hheld⟩
  · constructor
    · intro hlt
      refine ⟨?_, hap⟩
      rcases (hheld _).mp (g2 (contiguous a.bytesRead a.data) h1 (by omega)) with hx | hx
      · exact absurd hx h3
      · omega
    · rintro ⟨hx, -⟩
      by_contra hle
      rcases Nat.lt_or_ge (contiguous a.bytesRead a'.data) (contiguous a.bytesRead a.data) with hlt | hge
      · exact g3 ((hheld _).mpr (.inl (h2 _ g1 hlt)))
      · have heq : contiguous a.bytesRead a'.data = contiguous a.bytesRead a.data := by omega
        rw [heq] at g3
        exact g3 ((hheld _).mpr (.inr (by omega)))
  · -- the segment `c` is gone, and `c.offset` is missing now
    refine ⟨fun hlt => ?_, fun ⟨hx, hap⟩ => ?_⟩
    · exfalso
      have hcb := (ha.segs.le_of_mem c hc)
      have hmiss : ∀ x, c.offset ≤ x → x < max offset a.bytesRead → ¬ Held a'.data x := by
        intro x hx1 hx2 hx
        rcases hheld x hx with ⟨-, hx⟩ | hx
        · omega
        · omega
      rcases Nat.lt_or_ge (contiguous a.bytesRead a.data) c.offset with hlt' | hge
      · -- the gap is before `c`, where nothing was added
        rcases hheld _ (g2 (contiguous a.bytesRead a.data) h1 (by omega)) with ⟨hx, -⟩ | hx
        · exact h3 hx
        · omega
      · exact hmiss c.offset le_rfl hin.1 (g2 c.offset (by omega) (by omega))
    · have hne : bytes ≠ [] := by
        intro hnil
        rw [hnil, List.length_nil] at hx
        omega
      exact absurd hin (hap hne (by omega) c hc)

end Assembler

/-! ## Completion -/

/-- `next` finds nothing to read: whether the stream is finished decides what it returns. -/
theorem Chunks.next_blocked {rs : Recv} (h : rs.assembler.WF) {id : StreamId} {m : ℕ} {c : Chunks}
    (hn : Chunks.next ⟨id, true, .readable rs, 0⟩ m = .ok (.error .blocked, c)) :
    ¬ (rs.state = .recv (some rs.end) ∧ rs.assembler.bytesRead = rs.end) := by
  unfold next at hn
  dsimp only at hn
  rcases Assembler.read_spec h m with ⟨e, -⟩ | ⟨chunk, a', e, -⟩
  · rw [e] at hn
    rintro ⟨hst, hend⟩
    simp only [Checked.ok_bind, hst, hend, and_self, if_true] at hn
    cases hn
  · rw [e] at hn
    cases hn

theorem Chunks.next_finished {rs : Recv} (h : rs.assembler.WF) {id : StreamId} {m : ℕ} {c : Chunks}
    (hn : Chunks.next ⟨id, true, .readable rs, 0⟩ m = .ok (.ok none, c)) :
    rs.state = .recv (some rs.end) ∧ rs.assembler.bytesRead = rs.end := by
  unfold next at hn
  dsimp only at hn
  rcases Assembler.read_spec h m with ⟨e, -⟩ | ⟨chunk, a', e, -⟩
  · rw [e] at hn
    cases hst : rs.state with
    | resetRecvd size code =>
        simp only [Checked.ok_bind, hst] at hn
        obtain ⟨u, -, hn⟩ := Checked.bind_eq_ok.mp hn
        cases hn
    | recv size =>
        simp only [Checked.ok_bind, hst] at hn
        split_ifs at hn with hf
        · exact ⟨by rw [hf.1], hf.2⟩
        · cases hn
  · rw [e] at hn
    cases hn

/-- No event is sent for a frame that neither raises the highest offset received nor brings the first FIN. -/
theorem Recv.wakes_eq_false (rs : Recv) {frame : Stream} : rs.wakes frame = false ↔
    frame.stop ≤ rs.end ∧ ¬ (frame.fin = true ∧ rs.finalOffsetUnknown = true) := by
  simp [Recv.wakes]

namespace StreamsState

variable {s s' : StreamsState}

/-- The number of bytes that an ordered read of the stream can return. -/
def available (s : StreamsState) (id : StreamId) : ℕ :=
  ((s.recv id).map fun rs => rs.assembler.available).getD 0

/-- The next `Chunks::next` finds the stream blocked before, and finished after. -/
def Completes (s s' : StreamsState) (id : StreamId) : Prop :=
  ∃ rs rs' m c c', s.recv id = some rs ∧ s'.recv id = some rs' ∧
    Chunks.next ⟨id, true, .readable rs, 0⟩ m = .ok (.error .blocked, c) ∧
    Chunks.next ⟨id, true, .readable rs', 0⟩ m = .ok (.ok none, c')

/-- If more can be read after than before, or the stream is completed, a `Readable` event was sent
in between. -/
def WakesUp (s s' : StreamsState) (id : StreamId) : Prop :=
  s.available id < s'.available id ∨ Completes s s' id →
    .stream (.readable id) ∈ s'.events.drop s.events.length

/-- The frame holds the first missing offset and does not begin inside a buffered segment, but it
neither raises the highest offset received nor brings the first FIN. -/
def FillsGap (s : StreamsState) (frame : Stream) : Prop :=
  ∃ rs ∈ s.recv frame.id, frame.stop ≤ rs.end ∧ ¬ (frame.fin = true ∧ rs.finalOffsetUnknown = true) ∧
    (frame.offset ≤ rs.assembler.firstMissing ∧ rs.assembler.firstMissing < frame.stop) ∧
    rs.assembler.Apart frame.offset frame.data

section Accepted

variable {frame : Stream} {rs : Recv} {a : Assembler} {payloadLen : ℕ}

theorem recvEntry_of_some {rs' : Recv} (he : s.recvEntry frame = some rs) (hs : s.recv frame.id = some rs') :
    rs' = rs := by
  unfold recvEntry at he
  rw [hs] at he
  exact Option.some.inj he

/-- A frame of a stream that is neither stopped nor reset is dropped, or accepted. -/
theorem received_ok (h : s.received frame payloadLen = .ok (.ok (), s'))
    (hlive : ∀ rs ∈ s.recv frame.id, rs.stopped = false ∧ rs.isReceiving = true) :
    (s.recv frame.id = none ∧ s' = s) ∨ ∃ rs a, s.recvEntry frame = some rs ∧ rs.isReceiving = true ∧
      rs.sizeError frame.stop frame.fin = false ∧
      rs.assembler.insert frame.offset frame.data payloadLen = .ok a ∧ s' = s.accepted frame rs a := by
  cases hv : s.validateReceiveId frame.id with
  | error e =>
      rw [received, hv] at h
      cases h
  | ok u =>
  cases he : s.recvEntry frame with
  | none =>
      refine .inl ⟨?_, ?_⟩
      · unfold recvEntry at he
        split at he
        · cases he
        · assumption
      · rw [received, hv] at h
        dsimp only at h
        rw [he] at h
        cases h
        rfl
  | some rs =>
      have hl : rs.stopped = false ∧ rs.isReceiving = true := by
        obtain hs | ⟨-, rfl, -⟩ := recvEntry_eq he
        · exact hlive rs hs
        · exact ⟨rfl, rfl⟩
      obtain ⟨hsize, a, ha, rfl⟩ := received_live_ok hv he hl.2 hl.1 h
      exact .inr ⟨rs, a, rfl, hl.2, hsize, ha, rfl⟩

/-- When an accepted frame makes more bytes readable. -/
theorem available_accepted (hrs : rs.assembler.WF) (he : s.recvEntry frame = some rs)
    (ha : rs.assembler.insert frame.offset frame.data payloadLen = .ok a) :
    s.available frame.id < (s.accepted frame rs a).available frame.id ↔
      (frame.offset ≤ rs.assembler.firstMissing ∧ rs.assembler.firstMissing < frame.stop) ∧
        rs.assembler.Apart frame.offset frame.data := by
  have hbefore : s.available frame.id = rs.assembler.available := by
    unfold available
    obtain hs | ⟨hs, rfl, -⟩ := recvEntry_eq he
    · rw [hs]
      rfl
    · rw [hs]
      rfl
  have hafter : (s.accepted frame rs a).available frame.id = a.available := by
    unfold available
    rw [accepted_recv, Function.update_self]
    rfl
  rw [hbefore, hafter, Stream.stop]
  exact Assembler.available_lt_iff hrs ha

theorem readable_mem_accepted : .stream (.readable frame.id) ∈ (s.accepted frame rs a).events.drop s.events.length ↔
    rs.wakes frame = true := by
  cases hw : rs.wakes frame with
  | true => simp [accepted, hw, sendEvent, setRecv]
  | false => simp [accepted, hw, setRecv]

end Accepted

/-- A frame that sends no event does not complete the stream. -/
theorem not_completes {frame : Stream} {rs : Recv} {a : Assembler} (hrs : rs.assembler.WF) (ha : a.WF)
    (hread : a.bytesRead = rs.assembler.bytesRead) (hs : s.recv frame.id = some rs)
    (hr : rs.isReceiving = true) (hsize : rs.sizeError frame.stop frame.fin = false)
    (hw : rs.wakes frame = false) : ¬ Completes s (s.accepted frame rs a) frame.id := by
  rintro ⟨rs₀, rs', m, c, c', h0, h', hb, hf⟩
  rw [hs] at h0
  cases h0
  rw [accepted_recv, Function.update_self] at h'
  cases h'
  refine Chunks.next_blocked hrs hb ?_
  obtain ⟨hst, hend⟩ := Chunks.next_finished ha hf
  obtain ⟨hle, hunk⟩ := rs.wakes_eq_false.mp hw
  have hmax : max rs.end frame.stop = rs.end := by omega
  simp only [Recv.ingested, hmax, hread] at hst hend
  refine ⟨?_, hend⟩
  cases hfin : frame.fin with
  | false => simpa [hfin] using hst
  | true =>
      -- the final size was known, and the frame agrees with it
      have hk : rs.finalOffsetUnknown = false := Bool.eq_false_iff.mpr fun h => hunk ⟨hfin, h⟩
      cases hrst : rs.state with
      | resetRecvd size code => simp [Recv.isReceiving, hrst] at hr
      | recv size =>
          cases size with
          | none => simp [Recv.finalOffsetUnknown, hrst] at hk
          | some final =>
              have heq : frame.stop = final := by
                simp only [Recv.sizeError, Recv.finalOffset, hrst, Option.any_some, hfin,
                  Bool.true_and, Bool.or_eq_false_iff, decide_eq_false_iff_not, not_not] at hsize
                exact hsize.2
              simpa [hfin, heq] using hst

end StreamsState

/-- **When a wake-up is lost**: in every reachable state, an accepted frame of a stream that is
neither stopped nor reset is followed by the `Readable` event that it calls for if and only if it
does not fill a gap below the highest offset received. -/
theorem readable_iff (side : Side) (ops : List StreamsOp) {r : StreamsRun}
    (h : run streamsStep (StreamsRun.new side) ops = .ok r) (frame : Stream) (payloadLen : ℕ)
    {s' : StreamsState} (hr : r.state.received frame payloadLen = .ok (.ok (), s'))
    (hlive : ∀ rs ∈ r.state.recv frame.id, rs.stopped = false ∧ rs.isReceiving = true) :
    r.state.WakesUp s' frame.id ↔ ¬ r.state.FillsGap frame := by
  have hI : r.state.RecvWF :=
    run_inv streamsStep_recvWF (fun id x hx => by cases hx) (Meets.of_forall fun _ _ => trivial) h
  obtain ⟨hn, rfl⟩ | ⟨rs, a, he, hrecv, hsize, ha, rfl⟩ := StreamsState.received_ok hr hlive
  · -- the frame is dropped, and there is no entry that it could fill
    refine ⟨fun _ ⟨rs, hs, _⟩ => ?_, fun _ => ?_⟩
    · rw [hn] at hs
      cases hs
    · rintro (hlt | ⟨rs, -, -, -, -, hs, -⟩)
      · exact absurd hlt (lt_irrefl _)
      · rw [hn] at hs
        cases hs
  have hrs := StreamsState.recvEntry_wf hI he
  obtain ⟨hwf, hread, -⟩ := Assembler.insert_ok hrs ha
  have hlt := StreamsState.available_accepted hrs he ha
  unfold StreamsState.WakesUp
  rw [StreamsState.readable_mem_accepted]
  refine ⟨fun hW ⟨rs', hs, hle, hnf, hgap⟩ => ?_, fun hng hW => ?_⟩
  · obtain rfl := StreamsState.recvEntry_of_some he hs
    have hquiet := rs'.wakes_eq_false.mpr ⟨hle, hnf⟩
    rw [hW (.inl (hlt.mpr hgap))] at hquiet
    cases hquiet
  · by_contra hquiet
    rw [Bool.not_eq_true] at hquiet
    obtain ⟨hle, hnf⟩ := rs.wakes_eq_false.mp hquiet
    obtain hs | ⟨hs, rfl, -⟩ := StreamsState.recvEntry_eq he
    · obtain hW | hW := hW
      · exact hng ⟨rs, hs, hle, hnf, hlt.mp hW⟩
      · exact StreamsState.not_completes hrs hwf hread hs hrecv hsize hquiet hW
    · -- the frame of a new stream is empty
      obtain hW | ⟨rs', -, -, -, -, hs', -⟩ := hW
      · exact absurd ((hlt.mp hW).1.2.trans_le hle) (Nat.not_lt_zero _)
      · rw [hs] at hs'
        cases hs'

/-- The bytes `0..1` have arrived, and the frame `1..3` continues them. -/
theorem readable_iff_in_order : ∃ ops r s', run streamsStep (StreamsRun.new .client) ops = .ok r ∧
    r.state.received ⟨⟨3⟩, 1, false, [2, 3]⟩ 8 = .ok (.ok (), s') ∧
    r.state.available ⟨3⟩ < s'.available ⟨3⟩ ∧ r.state.WakesUp s' ⟨3⟩ := by
  let ops : List StreamsOp := [.received ⟨⟨3⟩, 0, false, [1]⟩ 8]
  refine ⟨ops, _, _, rfl, rfl, by decide,
    (readable_iff .client ops rfl ⟨⟨3⟩, 1, false, [2, 3]⟩ 8 rfl (by decide)).mpr ?_⟩
  rintro ⟨rs, hs, hle, -⟩
  cases hs
  revert hle
  decide

/-- The bytes `0..1` and `2..3` have arrived. The frame `1..2` makes two more bytes readable, and no
event is sent. -/
theorem readable_lost : ∃ ops r s', run streamsStep (StreamsRun.new .client) ops = .ok r ∧
    r.state.received ⟨⟨3⟩, 1, false, [2]⟩ 8 = .ok (.ok (), s') ∧
    (∀ rs ∈ r.state.recv ⟨3⟩, rs.stopped = false ∧ rs.isReceiving = true) ∧
    ¬ r.state.WakesUp s' ⟨3⟩ := by
  refine ⟨[.received ⟨⟨3⟩, 0, false, [1]⟩ 8, .received ⟨⟨3⟩, 2, false, [3]⟩ 8], _, _, rfl, rfl,
    by decide, fun h => ?_⟩
  have := h (.inl (by decide))
  revert this
  decide

end MzQuic
