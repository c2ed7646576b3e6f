import MzQuic.Stream.Reassembly
import MzQuic.Stream.Transmit

/-!
# What the streams receive (`core/src/connection/stream/state.rs`, `recv.rs`)

* `received_live`: what `received` does with a frame of a stream that is neither stopped nor reset;
* **`arrival_order`**: frames that carry a string are read back as this string in whichever order
  they arrive, unless a frame is dropped for lack of an entry, begins inside a buffered segment or overflows
  the counter of allocated bytes.
-/

namespace MzQuic

open Lib

/-! ## One frame -/

/-- The frame ends here. -/
def Stream.stop (frame : Stream) : ℕ := frame.offset + frame.data.length

/-- The receive half after a frame of a stream that is not stopped. -/
def Recv.ingested (rs : Recv) (frame : Stream) (assembler : Assembler) : Recv :=
  { rs with
    state := if frame.fin then .recv (some frame.stop) else rs.state
    assembler := assembler
    «end» := max rs.end frame.stop }

/-- Whether `received` sends an event for a frame of a stream that is not stopped. -/
def Recv.wakes (rs : Recv) (frame : Stream) : Bool :=
  frame.stop - rs.end > 0 || (frame.fin && rs.finalOffsetUnknown)

theorem Recv.ingest_live {rs : Recv} {frame : Stream} {payloadLen : ℕ} (hr : rs.isReceiving = true)
    (hs : rs.stopped = false) :
    rs.ingest frame payloadLen =
      if frame.stop ≥ 2 ^ 62 then
        .ok (.error (TransportError.flowControlError "maximum stream offset too large"), rs)
      else if rs.sizeError frame.stop frame.fin then .ok (.error (TransportError.finalSizeError ""), rs)
      else rs.assembler.insert frame.offset frame.data payloadLen >>= fun assembler =>
        .ok (.ok (frame.stop - rs.end, false), rs.ingested frame assembler) := by
  unfold Recv.ingest
  simp only [Recv.ingested, Stream.stop, hs, hr, Bool.not_false, Bool.and_true, Bool.false_eq_true,
    if_false, Checked.pure_eq]

namespace StreamsState

variable {s s' : StreamsState} {frame : Stream} {payloadLen : ℕ} {rs : Recv}

/-- The state after a frame was accepted. -/
def accepted (s : StreamsState) (frame : Stream) (rs : Recv) (assembler : Assembler) :
    StreamsState :=
  let s := s.setRecv frame.id (some (rs.ingested frame assembler))
  if rs.wakes frame then s.sendEvent (.readable frame.id) else s

/-- **A frame of a stream that is neither stopped nor reset** is checked against the limit on offsets
and the final size, and then inserted. -/
theorem received_live (hv : s.validateReceiveId frame.id = .ok ()) (he : s.recvEntry frame = some rs)
    (hr : rs.isReceiving = true) (hs : rs.stopped = false) :
    s.received frame payloadLen =
      if frame.stop ≥ 2 ^ 62 then
        .ok (.error (TransportError.flowControlError "maximum stream offset too large"),
          s.setRecv frame.id (some rs))
      else if rs.sizeError frame.stop frame.fin then
        .ok (.error (TransportError.finalSizeError ""), s.setRecv frame.id (some rs))
      else rs.assembler.insert frame.offset frame.data payloadLen >>= fun assembler =>
        .ok (.ok (), s.accepted frame rs assembler) := by
  have hset : ∀ x y : Option Recv, (s.setRecv frame.id x).setRecv frame.id y = s.setRecv frame.id y :=
    fun x y => by simp [setRecv]
  unfold received
  rw [hv]
  dsimp only
  rw [he]
  dsimp only
  rw [if_neg (by simp [hr]), Recv.ingest_live hr hs]
  by_cases h1 : frame.stop ≥ 2 ^ 62
  · simp only [if_pos h1, Checked.ok_bind, Checked.pure_eq, hset]
  by_cases h2 : rs.sizeError frame.stop frame.fin = true
  · simp only [if_neg h1, if_pos h2, Checked.ok_bind, Checked.pure_eq, hset]
  simp only [if_neg h1, if_neg h2]
  cases hi : rs.assembler.insert frame.offset frame.data payloadLen with
  | error p => rfl
  | ok a =>
      have hst : (rs.ingested frame a).stopped = false := hs
      simp only [Checked.ok_bind, Checked.pure_eq, hset, hst, Bool.not_false, if_true]
      rfl

/-- An accepted frame passed all checks. -/
theorem received_live_ok (hv : s.validateReceiveId frame.id = .ok ())
    (he : s.recvEntry frame = some rs) (hr : rs.isReceiving = true) (hs : rs.stopped = false)
    (h : s.received frame payloadLen = .ok (.ok (), s')) :
    rs.sizeError frame.stop frame.fin = false ∧ ∃ a,
      rs.assembler.insert frame.offset frame.data payloadLen = .ok a ∧ s' = s.accepted frame rs a := by
  rw [received_live hv he hr hs] at h
  split_ifs at h with h1 h2
  · cases h
  · cases h
  · obtain ⟨a, ha, h⟩ := Checked.bind_eq_ok.mp h
    cases h
    exact ⟨by simpa using h2, a, ha, rfl⟩

@[simp] theorem accepted_recv (s : StreamsState) (frame : Stream) (rs : Recv) (a : Assembler) :
    (s.accepted frame rs a).recv = Function.update s.recv frame.id (some (rs.ingested frame a)) := by
  unfold accepted
  dsimp only
  split_ifs <;> rfl

@[simp] theorem accepted_side (s : StreamsState) (frame : Stream) (rs : Recv) (a : Assembler) :
    (s.accepted frame rs a).side = s.side := by
  unfold accepted
  dsimp only
  split_ifs <;> rfl

end StreamsState

/-! ## Frames in any order -/

/-- A state, and what `received` has returned so far. -/
structure ArrivalRun where
  state : StreamsState
  results : List (Except TransportError Unit)

/-- A frame of a payload of the given length arrives. -/
def arrivalStep (r : ArrivalRun) (f : Stream × ℕ) : Checked ArrivalRun := do
  let (res, s) ← r.state.received f.1 f.2
  return ⟨s, r.results ++ [res]⟩

/-- The frame has an entry, or begins the stream without ending it; and in this entry it does not begin inside a
buffered segment, and the counter of allocated bytes has room for it. -/
def StreamsState.Keeps (s : StreamsState) (f : Stream × ℕ) : Prop :=
  ((s.recv f.1.id).isSome ∨ (f.1.offset = 0 ∧ f.1.fin = false)) ∧
    ∀ rs ∈ s.recvEntry f.1, rs.assembler.Apart f.1.offset f.1.data ∧ rs.assembler.Room f.1.offset f.1.data f.2

instance (s : StreamsState) (f : Stream × ℕ) : Decidable (s.Keeps f) := by
  unfold StreamsState.Keeps; infer_instance

/-- The frame carries a slice of `S` on the stream `id`, and a FIN only at the end of `S`. -/
structure SliceOf (S : Bytes) (id : StreamId) (f : Stream × ℕ) : Prop where
  id : f.1.id = id
  data : f.1.data = (S.drop f.1.offset).take f.1.data.length
  stop : f.1.stop ≤ S.length
  fin : f.1.fin = true → f.1.stop = S.length
  alloc : f.1.data.length ≤ f.2

/-- Read with the given lengths until the stream ends or an error occurs. -/
def Chunks.drain : List ℕ → Chunks → Checked (Bytes × Option (Except ReadError Unit))
  | [], _ => .ok ([], none)
  | m :: ms, c => do
    match ← c.next m with
    | (.error e, _) => return ([], some (.error e))
    | (.ok none, _) => return ([], some (.ok ()))
    | (.ok (some chunk), c) =>
      let (bs, res) ← Chunks.drain ms c
      return (chunk.bytes ++ bs, res)

/-- What the entry holds once the frames `done` have arrived and nothing was read. -/
structure Recv.Holds (S : Bytes) (done : List (Stream × ℕ)) (rs : Recv) : Prop where
  wf : rs.assembler.WF
  ordered : rs.assembler.state = .ordered
  agrees : Agrees S rs.assembler.data
  unread : rs.assembler.bytesRead = 0
  stopped : rs.stopped = false
  held : ∀ x, Held rs.assembler.data x ↔ ∃ f ∈ done, f.1.offset ≤ x ∧ x < f.1.stop
  le : rs.end ≤ S.length
  state : (rs.state = .recv none ∧ ∀ f ∈ done, f.1.fin = false) ∨
    (rs.state = .recv (some S.length) ∧ rs.end = S.length)

theorem Recv.Holds.default (S : Bytes) : Recv.default.Holds S [] where
  wf := Assembler.WF.default
  ordered := rfl
  agrees := fun b hb => by cases hb
  unread := rfl
  stopped := rfl
  held x := by simp [Recv.default, Assembler.default, held_nil]
  le := Nat.zero_le _
  state := .inl ⟨rfl, fun f hf => by cases hf⟩

/-- **One frame more.** -/
theorem Recv.Holds.ingested {S : Bytes} (hS : S.length < 2 ^ 62) {done : List (Stream × ℕ)} {rs : Recv}
    (h : rs.Holds S done) {id : StreamId} {f : Stream × ℕ} (hf : SliceOf S id f)
    (hap : rs.assembler.Apart f.1.offset f.1.data) (hroom : rs.assembler.Room f.1.offset f.1.data f.2) :
    ¬ f.1.stop ≥ 2 ^ 62 ∧ rs.isReceiving = true ∧ rs.sizeError f.1.stop f.1.fin = false ∧
      ∃ a, rs.assembler.insert f.1.offset f.1.data f.2 = .ok a ∧
        (rs.ingested f.1 a).Holds S (done ++ [f]) := by
  obtain ⟨a, ha, hwf, hread, -, hheld, hag⟩ := Assembler.insert_total h.wf hf.alloc hap hroom
  have hle := hf.stop
  refine ⟨by omega, ?_, ?_, a, ha, hwf, ?_, hag S h.agrees hf.data, by rw [← h.unread]; exact hread,
    h.stopped, fun x => ?_, ?_, ?_⟩
  · rcases h.state with ⟨hs, -⟩ | ⟨hs, -⟩ <;> simp [Recv.isReceiving, hs]
  · rcases h.state with ⟨hs, -⟩ | ⟨hs, -⟩
    · simp [Recv.sizeError, Recv.finalOffset, hs]
    · have : ∀ b, f.1.fin = b → (decide (f.1.stop > S.length) || (b && decide (f.1.stop ≠ S.length))) =
          false := by
        intro b hb
        cases b with
        | false => simp [hle]
        | true => simp [hf.fin hb]
      simp only [Recv.sizeError, Recv.finalOffset, hs, Option.any_some]
      exact this _ rfl
  · rw [← h.ordered]; exact Assembler.insert_state ha
  · dsimp only [Recv.ingested]
    rw [hheld, h.held, h.unread]
    simp only [List.mem_append, List.mem_singleton, or_and_right, exists_or, exists_eq_left,
      Nat.max_zero]
    rfl
  · dsimp only [Recv.ingested]
    have := h.le
    omega
  · dsimp only [Recv.ingested]
    cases hfin : f.1.fin with
    | true =>
        have h1 := hf.fin hfin
        have h2 := h.le
        right
        simp only [if_true, h1, true_and]
        omega
    | false =>
        rcases h.state with ⟨hs, hall⟩ | ⟨hs, he⟩
        · left
          refine ⟨by simpa using hs, fun g hg => ?_⟩
          rcases List.mem_append.mp hg with hg | hg
          · exact hall g hg
          · rw [List.mem_singleton.mp hg]
            exact hfin
        · right
          refine ⟨by simpa using hs, ?_⟩
          rw [he]
          omega

/-- The state of a run in which the frames `done` have arrived. -/
structure ArrivalRun.Inv (S : Bytes) (id : StreamId) (side : Side) (done : List (Stream × ℕ))
    (r : ArrivalRun) : Prop where
  side : r.state.side = side
  ok : ∀ res ∈ r.results, res = .ok ()
  entry : (done = [] ∧ r.state.recv id = none) ∨ ∃ rs, r.state.recv id = some rs ∧ rs.Holds S done

theorem arrivalStep_spec {S : Bytes} (hS : S.length < 2 ^ 62) {id : StreamId} {side : Side}
    (hid : id.initiator ≠ side) {done : List (Stream × ℕ)} {r : ArrivalRun} {f : Stream × ℕ}
    (hI : r.Inv S id side done) (hf : SliceOf S id f) (hk : r.state.Keeps f) :
    ∃ r', arrivalStep r f = .ok r' ∧ r'.Inv S id side (done ++ [f]) := by
  -- the entry that the frame finds or makes
  have hentry : ∃ rs, r.state.recvEntry f.1 = some rs ∧ rs.Holds S done := by
    unfold StreamsState.recvEntry
    rcases hI.entry with ⟨rfl, hn⟩ | ⟨rs, hs, hrs⟩
    · obtain ⟨h | ⟨h0, hfin⟩, -⟩ := hk
      · rw [hf.id, hn] at h
        cases h
      · rw [hf.id, hn]
        dsimp only
        rw [hI.side, if_neg hid, if_neg (by simp [h0, hfin])]
        exact ⟨_, rfl, .default S⟩
    · rw [hf.id, hs]
      exact ⟨rs, rfl, hrs⟩
  obtain ⟨rs, he, hrs⟩ := hentry
  obtain ⟨hap, hroom⟩ := hk.2 rs he
  obtain ⟨h1, h2, h3, a, ha, hnew⟩ := hrs.ingested hS hf hap hroom
  have hv : r.state.validateReceiveId f.1.id = .ok () := by
    unfold StreamsState.validateReceiveId
    rw [if_neg (by rw [hf.id, hI.side]; exact fun h => hid h.symm)]
  refine ⟨⟨r.state.accepted f.1 rs a, r.results ++ [.ok ()]⟩, ?_, by simp [hI.side], ?_, ?_⟩
  · unfold arrivalStep
    rw [StreamsState.received_live hv he h2 hrs.stopped, if_neg h1, if_neg (by simp [h3]), ha]
    rfl
  · intro res hres
    rcases List.mem_append.mp hres with h | h
    · exact hI.ok res h
    · exact List.mem_singleton.mp h
  · refine .inr ⟨rs.ingested f.1 a, ?_, hnew⟩
    dsimp only
    rw [StreamsState.accepted_recv, hf.id, Function.update_self]

theorem arrivalRun_spec {S : Bytes} (hS : S.length < 2 ^ 62) {id : StreamId} {side : Side}
    (hid : id.initiator ≠ side) {done frames : List (Stream × ℕ)} {r : ArrivalRun}
    (hI : r.Inv S id side done) (hf : ∀ f ∈ frames, SliceOf S id f)
    (hk : Meets arrivalStep (fun r f => r.state.Keeps f) r frames) :
    ∃ r', run arrivalStep r frames = .ok r' ∧ r'.Inv S id side (done ++ frames) := by
  induction frames generalizing r done with
  | nil => exact ⟨r, rfl, by rwa [List.append_nil]⟩
  | cons f fs ih =>
      obtain ⟨r₁, h1, hI₁⟩ := arrivalStep_spec hS hid hI (hf f (by simp)) hk.1
      obtain ⟨r', h2, hI'⟩ := ih hI₁ (fun g hg => hf g (by simp [hg])) (hk.2 r₁ h1)
      refine ⟨r', by rw [run_cons, h1]; exact h2, ?_⟩
      rwa [List.append_assoc, List.singleton_append] at hI'

/-- **Reading a stream whose bytes are all there** delivers the rest of `S` and then the end. -/
theorem drain_spec {S : Bytes} {rs : Recv} {c : Chunks} (hc : c.state = .readable rs)
    (ho : c.ordered = true) (hwf : rs.assembler.WF) (hag : Agrees S rs.assembler.data)
    (hst : rs.state = .recv (some S.length)) (hend : rs.end = S.length)
    (hle : rs.assembler.bytesRead ≤ S.length)
    (hheld : ∀ x, Held rs.assembler.data x ↔ rs.assembler.bytesRead ≤ x ∧ x < S.length)
    {ms : List ℕ} (hm : ∀ m ∈ ms, 1 ≤ m) (hlen : S.length - rs.assembler.bytesRead < ms.length) :
    c.drain ms = .ok (S.drop rs.assembler.bytesRead, some (.ok ())) := by
  -- by induction on the lengths: each read takes at least one byte
  induction ms generalizing rs c with
  | nil => simp at hlen
  | cons m ms ih =>
      unfold Chunks.drain Chunks.next
      rw [hc]
      dsimp only
      rcases Assembler.read_spec hwf m with ⟨e, hmiss⟩ |
        ⟨chunk, a', e, hwf', -, hread, -, -, -, hpos, hheld', hag'⟩
      · have hall : rs.assembler.bytesRead = S.length := by
          by_contra hne
          exact hmiss ((hheld _).mpr ⟨le_rfl, by omega⟩)
        rw [ho, e]
        simp only [Checked.ok_bind, hst, hend, hall, and_self, if_true, Checked.pure_eq]
        rw [List.drop_length]
      · obtain ⟨hag'', hbytes⟩ := hag' S hag
        have hpos' := List.length_pos_iff.mpr (hpos (hm m (by simp)))
        have hle' : a'.bytesRead ≤ S.length := by rw [hread]; exact slice_bound hbytes hle
        have hrec := ih (c := { c with
            state := .readable { rs with assembler := a' }
            read := c.read + chunk.bytes.length }) rfl ho hwf' hag'' hst hend hle'
          (fun x => by
            have := hheld' x
            rw [hheld] at this
            constructor
            · intro hx
              refine ⟨hwf'.segs.le_of_held hx, (this.mpr (.inr hx)).2⟩
            · intro hx
              dsimp only at hx
              rcases this.mp ⟨by omega, hx.2⟩ with h | h
              · omega
              · exact h)
          (fun x hx => hm x (by simp [hx])) (by
            rw [List.length_cons] at hlen
            dsimp only
            omega)
        rw [ho, e]
        simp only [Checked.ok_bind, Checked.pure_eq]
        dsimp only at hrec
        rw [ho] at hrec
        rw [hrec, Checked.ok_bind, hread]
        have hjoin : chunk.bytes ++ S.drop (rs.assembler.bytesRead + chunk.bytes.length) =
            S.drop rs.assembler.bytesRead := by
          conv_rhs => rw [← List.take_append_drop chunk.bytes.length (S.drop rs.assembler.bytesRead)]
          rw [← hbytes, List.drop_drop]
        dsimp only
        rw [hjoin]

/-- **The order of arrival does not matter**: frames that cover `S`, one of them with the FIN, are all
accepted, and reading then delivers exactly `S` and the end, if each frame finds an entry or begins
the stream without ending it, none begins strictly inside a buffered segment, and the counter of allocated
bytes stays in range. -/
theorem arrival_order (S : Bytes) (hS : S.length < 2 ^ 62) (s : StreamsState) (id : StreamId)
    (hid : id.initiator ≠ s.side) (hfresh : s.recv id = none) (frames : List (Stream × ℕ))
    (hf : ∀ f ∈ frames, SliceOf S id f)
    (hcover : ∀ x < S.length, ∃ f ∈ frames, f.1.offset ≤ x ∧ x < f.1.stop)
    (hfin : ∃ f ∈ frames, f.1.fin = true)
    (hk : Meets arrivalStep (fun r f => r.state.Keeps f) ⟨s, []⟩ frames) :
    ∃ r, run arrivalStep ⟨s, []⟩ frames = .ok r ∧ (∀ res ∈ r.results, res = .ok ()) ∧
      ∀ ms : List ℕ, (∀ m ∈ ms, 1 ≤ m) → S.length < ms.length →
        ∃ c s', r.state.read id true = .ok (.ok c, s') ∧ c.drain ms = .ok (S, some (.ok ())) := by
  have hI : ArrivalRun.Inv S id s.side [] ⟨s, []⟩ :=
    ⟨rfl, fun res h => (by cases h), .inl ⟨rfl, hfresh⟩⟩
  obtain ⟨r, hr, hI⟩ := arrivalRun_spec hS hid hI hf hk
  refine ⟨r, hr, hI.ok, fun ms hm hlen => ?_⟩
  rw [List.nil_append] at hI
  obtain ⟨f, hfm, hff⟩ := hfin
  obtain ⟨rs, hrs, hh⟩ : ∃ rs, r.state.recv id = some rs ∧ rs.Holds S frames := by
    rcases hI.entry with ⟨rfl, -⟩ | h
    · cases hfm
    · exact h
  obtain ⟨hst, hend⟩ : rs.state = .recv (some S.length) ∧ rs.end = S.length := by
    rcases hh.state with ⟨-, hall⟩ | h
    · rw [hall f hfm] at hff
      cases hff
    · exact h
  refine ⟨⟨id, true, .readable rs, 0⟩, r.state.setRecv id none, ?_, ?_⟩
  · unfold StreamsState.read
    rw [hrs]
    simp only [hh.stopped, Bool.false_eq_true, if_false, hh.ordered]
  · have := drain_spec (c := ⟨id, true, .readable rs, 0⟩) rfl rfl hh.wf hh.agrees hst hend
      (by rw [hh.unread]; omega) (fun x => ?_) hm (by rw [hh.unread]; omega)
    · rwa [hh.unread, List.drop_zero] at this
    · rw [hh.held, hh.unread]
      constructor
      · rintro ⟨g, hg, h1, h2⟩
        exact ⟨Nat.zero_le _, h2.trans_le (hf g hg).stop⟩
      · exact fun h => hcover x h.2

/-- Three frames, the one with the FIN before the middle. -/
theorem arrival_order_three : ∃ r, run arrivalStep ⟨StreamsState.new .client, []⟩
      [(⟨⟨3⟩, 0, false, [1]⟩, 8), (⟨⟨3⟩, 2, true, [3]⟩, 8), (⟨⟨3⟩, 1, false, [2]⟩, 8)] = .ok r ∧
    (∀ res ∈ r.results, res = .ok ()) ∧ ∀ ms : List ℕ, (∀ m ∈ ms, 1 ≤ m) → 3 < ms.length →
      ∃ c s', r.state.read ⟨3⟩ true = .ok (.ok c, s') ∧ c.drain ms = .ok ([1, 2, 3], some (.ok ())) :=
  arrival_order [1, 2, 3] (by decide) (StreamsState.new .client) ⟨3⟩ (by decide) rfl _
    (by
      intro f hf
      simp only [List.mem_cons, List.not_mem_nil, or_false] at hf
      rcases hf with rfl | rfl | rfl <;> exact ⟨rfl, rfl, by decide, by decide, by decide⟩)
    (by decide) (by decide) (by decide)

/-- A stream of one frame, which has the FIN: the frame is dropped without an error, and the stream
does not exist for the application. -/
theorem arrival_single_frame_dropped : ∃ (S : Bytes) (id : StreamId) (frames : List (Stream × ℕ)),
    S.length < 2 ^ 62 ∧ id.initiator ≠ (StreamsState.new .client).side ∧
    (StreamsState.new .client).recv id = none ∧ (∀ f ∈ frames, SliceOf S id f) ∧
    (∀ x < S.length, ∃ f ∈ frames, f.1.offset ≤ x ∧ x < f.1.stop) ∧
    (∃ f ∈ frames, f.1.fin = true) ∧
    ∃ r s', run arrivalStep ⟨StreamsState.new .client, []⟩ frames = .ok r ∧
      r.state.read id true = .ok (.error .closedStream, s') := by
  refine ⟨[1], ⟨3⟩, [(⟨⟨3⟩, 0, true, [1]⟩, 8)], by decide, by decide, rfl, ?_, by decide, by decide, _,
    _, rfl, rfl⟩
  intro f hf
  rw [List.mem_singleton.mp hf]
  exact ⟨rfl, rfl, by decide, by decide, by decide⟩

end MzQuic
