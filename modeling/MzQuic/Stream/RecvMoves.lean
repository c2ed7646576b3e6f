import MzQuic.Stream.Incoming
import MzQuic.Stream.Moves

/-!
# What a step does to the receive halves (`core/src/connection/stream/state.rs`, `recv.rs`)

* `received_cases`, `receivedReset_cases`: what a frame of the peer does to the table;
* `RecvMove`: the ways in which an operation changes the table of receive halves, with the chunks that it
  returns to the application;
* **`streamsStep_recvMove`**: every operation moves in one of these ways. Each invariant of the receive
  side goes through the moves, not through the operations.
-/

namespace MzQuic

open Lib

/-! ## One receive half -/

theorem Recv.default_wf : Recv.default.assembler.WF := Assembler.WF.default

theorem Recv.ingest_wf {rs rs' : Recv} (h : rs.assembler.WF) {frame : Stream} {payloadLen : ℕ}
    {res : Except TransportError (ℕ × Bool)} (hi : rs.ingest frame payloadLen = .ok (res, rs')) :
    rs'.assembler.WF ∧ rs'.assembler.bytesRead = rs.assembler.bytesRead := by
  obtain ⟨rfl, -⟩ | ⟨-, -, -, -, -, -, ⟨-, e⟩ | ⟨-, ha⟩⟩ := ingest_cases hi
  · exact ⟨h, rfl⟩
  · rw [e]
    exact ⟨h, rfl⟩
  · obtain ⟨hwf, hread, -⟩ := Assembler.insert_ok h ha
    exact ⟨hwf, hread⟩

theorem Recv.stop_wf {rs rs' : Recv} (h : rs.assembler.WF) {res : Except ClosedStream (ℕ × Bool)}
    (hi : rs.stop = .ok (res, rs')) :
    rs'.assembler.WF ∧ rs'.assembler.bytesRead = rs.assembler.bytesRead := by
  obtain ⟨-, rfl, -⟩ | ⟨-, rfl, -⟩ := stop_cases hi
  · exact ⟨h, rfl⟩
  · exact ⟨h.clear, rfl⟩

theorem Recv.reset_wf {rs : Recv} (h : rs.assembler.WF) (errorCode finalOffset : ℕ) :
    (rs.reset errorCode finalOffset).2.assembler.WF ∧
      (rs.reset errorCode finalOffset).2.assembler.bytesRead = rs.assembler.bytesRead := by
  obtain ⟨⟨e, he⟩, -⟩ | ⟨he, -⟩ | ⟨he, -⟩ := rs.reset_cases errorCode finalOffset
  · rw [he]
    exact ⟨h, rfl⟩
  · rw [he]
    exact ⟨h, rfl⟩
  · rw [he]
    exact ⟨h.clear, rfl⟩

/-- A receive half that a reader holds, if it was neither reset nor finished. -/
def ChunksState.recv : ChunksState → Option Recv
  | .readable rs => some rs
  | _ => none

/-- **What `next` does** to a half that is read in order: a chunk, or nothing, and then the half may be
gone. -/
theorem Chunks.next_cases {c c' : Chunks} (ho : c.ordered = true)
    (hwf : ∀ rs, c.state = .readable rs → rs.assembler.WF) {m : ℕ}
    {res : Except ReadError (Option Chunk)} (hn : c.next m = .ok (res, c')) : c'.ordered = true ∧
    ((∃ rs chunk a, c.state = .readable rs ∧ res = .ok (some chunk) ∧
      c'.state = .readable { rs with assembler := a } ∧ a.WF ∧ chunk.offset = rs.assembler.bytesRead ∧
        a.bytesRead = rs.assembler.bytesRead + chunk.bytes.length) ∨
    (∀ chunk, res ≠ .ok (some chunk)) ∧ (c'.state = c.state ∨ c'.state.recv = none)) := by
  unfold next at hn
  cases hs : c.state with
  | reset code =>
      rw [hs] at hn
      cases hn
      exact ⟨ho, .inr ⟨(fun _ h => by cases h), .inl hs⟩⟩
  | finished =>
      rw [hs] at hn
      cases hn
      exact ⟨ho, .inr ⟨(fun _ h => by cases h), .inl hs⟩⟩
  | readable rs =>
      rw [hs, ho] at hn
      dsimp only at hn
      obtain ⟨e, -⟩ | ⟨chunk, a, e, ha, hoff, hread, -⟩ := Assembler.read_spec (hwf rs hs) m
      · rw [e, Checked.ok_bind] at hn
        dsimp only at hn
        split at hn
        · obtain ⟨_, -, hn⟩ := Checked.bind_eq_ok.mp hn
          cases hn
          exact ⟨rfl, .inr ⟨(fun _ h => by cases h), .inr rfl⟩⟩
        · split_ifs at hn
          · cases hn
            exact ⟨rfl, .inr ⟨(fun _ h => by cases h), .inr rfl⟩⟩
          · cases hn
            exact ⟨rfl, .inr ⟨(fun _ h => by cases h), .inl rfl⟩⟩
      · rw [e, Checked.ok_bind] at hn
        cases hn
        exact ⟨rfl, .inl ⟨rs, chunk, a, rfl, rfl, rfl, ha, hoff, hread⟩⟩

/-- Call `next` with each of the lengths, and keep the chunks. -/
def Chunks.collect : List ℕ → Chunks → Checked (List Chunk × Chunks)
  | [], c => .ok ([], c)
  | m :: ms, c => do
    let (res, c) ← c.next m
    let (chunks, c) ← Chunks.collect ms c
    match res with
    | .ok (some chunk) => return (chunk :: chunks, c)
    | _ => return (chunks, c)

theorem Chunks.next_id {c c' : Chunks} {m : ℕ} {res : Except ReadError (Option Chunk)}
    (h : c.next m = .ok (res, c')) : c'.id = c.id := by
  unfold next at h
  split at h
  · cases h
    rfl
  · cases h
    rfl
  · obtain ⟨⟨o, a⟩, -, h⟩ := Checked.bind_eq_ok.mp h
    cases o with
    | some chunk =>
        cases h
        rfl
    | none =>
        dsimp only at h
        split at h
        · obtain ⟨_, -, h⟩ := Checked.bind_eq_ok.mp h
          cases h
          rfl
        · split_ifs at h <;> cases h <;> rfl

theorem Chunks.collect_id {ms : List ℕ} {c c' : Chunks} {chunks : List Chunk}
    (h : c.collect ms = .ok (chunks, c')) : c'.id = c.id := by
  induction ms generalizing c chunks with
  | nil =>
      cases h
      rfl
  | cons m ms ih =>
      obtain ⟨⟨res, c₁⟩, h1, h⟩ := Checked.bind_eq_ok.mp h
      obtain ⟨⟨chunks₁, c₂⟩, h2, h⟩ := Checked.bind_eq_ok.mp h
      have hc : c' = c₂ := by
        dsimp only at h
        split at h <;> cases h <;> rfl
      subst hc
      rw [ih h2, next_id h1]

theorem Chunks.nexts_eq_collect (ms : List ℕ) (c : Chunks) :
    c.nexts ms = c.collect ms >>= fun p => .ok p.2 := by
  induction ms generalizing c with
  | nil => rfl
  | cons m ms ih =>
      unfold nexts collect
      cases c.next m with
      | error p => rfl
      | ok p =>
          obtain ⟨res, c₁⟩ := p
          rw [Checked.ok_bind, Checked.ok_bind]
          dsimp only
          rw [ih]
          cases c₁.collect ms with
          | error q => rfl
          | ok q =>
              rw [Checked.ok_bind, Checked.ok_bind]
              split <;> rfl

/-- Each chunk begins where the ones before it end. -/
def Consecutive : ℕ → List Chunk → Prop
  | _, [] => True
  | n, c :: cs => c.offset = n ∧ Consecutive (n + c.bytes.length) cs

theorem consecutive_append {n : ℕ} {cs ds : List Chunk} : Consecutive n (cs ++ ds) ↔
    Consecutive n cs ∧ Consecutive (n + (cs.flatMap Chunk.bytes).length) ds := by
  induction cs generalizing n with
  | nil => simp [Consecutive]
  | cons d cs ih =>
      rw [List.cons_append, Consecutive, ih, Consecutive, List.flatMap_cons, List.length_append, and_assoc,
        Nat.add_assoc]

/-- **Reading**: the chunks continue what was read before, and the half counts them. -/
theorem Chunks.collect_spec {ms : List ℕ} {c c' : Chunks} {n : ℕ} {chunks : List Chunk}
    (ho : c.ordered = true) (hc : ∀ rs ∈ c.state.recv, rs.assembler.WF ∧ rs.assembler.bytesRead = n)
    (h : c.collect ms = .ok (chunks, c')) : Consecutive n chunks ∧
    ∀ rs' ∈ c'.state.recv, (rs'.assembler.WF ∧
      rs'.assembler.bytesRead = n + (chunks.flatMap Chunk.bytes).length) ∧
      ∃ rs ∈ c.state.recv, rs'.state = rs.state ∧ rs'.end = rs.end ∧ rs'.stopped = rs.stopped := by
  induction ms generalizing c n chunks with
  | nil =>
      cases h
      exact ⟨trivial, fun rs hrs => ⟨hc rs hrs, rs, hrs, rfl, rfl, rfl⟩⟩
  | cons m ms ih =>
      obtain ⟨⟨res, c₁⟩, h1, h⟩ := Checked.bind_eq_ok.mp h
      obtain ⟨⟨chunks₁, c₂⟩, h2, h⟩ := Checked.bind_eq_ok.mp h
      have hwf : ∀ rs, c.state = .readable rs → rs.assembler.WF := fun rs hs =>
        (hc rs (by rw [hs]; rfl)).1
      obtain ⟨ho₁, ⟨rs, chunk, a, hs, rfl, hs₁, ha, hoff, hread⟩ | ⟨hno, hs₁⟩⟩ := Chunks.next_cases ho hwf h1
      · cases h
        have hn : rs.assembler.bytesRead = n := (hc rs (by rw [hs]; rfl)).2
        rw [hn] at hoff hread
        obtain ⟨hcons, hlast⟩ := ih (n := n + chunk.bytes.length) ho₁ (fun rs' hrs' => by
          rw [hs₁] at hrs'
          cases hrs'
          exact ⟨ha, hread⟩) h2
        refine ⟨⟨hoff, hcons⟩, fun rs' hrs' => ?_⟩
        obtain ⟨⟨hw', hb'⟩, rs₁, hrs₁, hkeep⟩ := hlast rs' hrs'
        rw [hs₁] at hrs₁
        cases hrs₁
        refine ⟨⟨hw', ?_⟩, rs, by rw [hs]; rfl, hkeep⟩
        rw [hb', List.flatMap_cons, List.length_append, Nat.add_assoc]
      · have hres : chunks = chunks₁ ∧ c' = c₂ := by
          dsimp only at h
          split at h
          · exact absurd rfl (hno _)
          · cases h
            exact ⟨rfl, rfl⟩
        obtain ⟨rfl, rfl⟩ := hres
        -- what is left of the half is the half itself
        have hleft : ∀ rs ∈ c₁.state.recv, rs ∈ c.state.recv := by
          intro rs hrs
          rcases hs₁ with hs₁ | hs₁
          · rwa [← hs₁]
          · rw [hs₁] at hrs
            cases hrs
        obtain ⟨hcons, hlast⟩ := ih ho₁ (fun rs hrs => hc rs (hleft rs hrs)) h2
        refine ⟨hcons, fun rs' hrs' => ?_⟩
        obtain ⟨hb', rs, hrs, hkeep⟩ := hlast rs' hrs'
        exact ⟨hb', rs, hleft rs hrs, hkeep⟩

namespace StreamsState

variable {s s' : StreamsState}

/-! ## Frames of the peer -/

theorem recvEntry_eq {frame : Stream} {rs : Recv} (he : s.recvEntry frame = some rs) :
    s.recv frame.id = some rs ∨ (s.recv frame.id = none ∧ rs = Recv.default ∧ frame.id.initiator ≠ s.side ∧
      frame.offset = 0 ∧ frame.fin = false) := by
  unfold recvEntry at he
  cases hs : s.recv frame.id with
  | some rs' =>
      rw [hs] at he
      exact .inl he
  | none =>
      rw [hs] at he
      dsimp only at he
      split_ifs at he with h1 h2
      cases he
      rw [not_or, Nat.not_lt, Nat.le_zero, Bool.not_eq_true] at h2
      exact .inr ⟨rfl, rfl, h1, h2⟩

/-- The entry that `received` leaves. -/
structure Ingests (s : StreamsState) (frame : Stream) (payloadLen : ℕ) (rs : Recv)
    (res : Except TransportError (ℕ × Bool)) (rs' : Recv) : Prop where
  valid : s.validateReceiveId frame.id = .ok ()
  entry : s.recvEntry frame = some rs
  receiving : rs.isReceiving = true
  ingest : rs.ingest frame payloadLen = .ok (res, rs')

/-- **What `received` does.** -/
theorem received_cases {frame : Stream} {payloadLen : ℕ} {res : Except TransportError Unit}
    (h : s.received frame payloadLen = .ok (res, s')) :
    (∃ e, s.validateReceiveId frame.id = .error e ∧ res = .error e ∧ s' = s) ∨
    (s.validateReceiveId frame.id = .ok () ∧ s.recvEntry frame = none ∧ res = .ok () ∧ s' = s) ∨
    (∃ rs, s.validateReceiveId frame.id = .ok () ∧ s.recvEntry frame = some rs ∧ rs.isReceiving = false ∧
      res = .ok () ∧ s' = s.setRecv frame.id (some rs)) ∨
    (∃ rs e rs', s.Ingests frame payloadLen rs (.error e) rs' ∧ res = .error e ∧
      s' = s.setRecv frame.id (some rs')) ∨
    (∃ rs v rs', s.Ingests frame payloadLen rs (.ok v) rs' ∧ res = .ok () ∧
      (s' = s.setRecv frame.id (some rs') ∨
        s' = (s.setRecv frame.id (some rs')).sendEvent (.readable frame.id))) ∨
    ∃ rs n rs', s.Ingests frame payloadLen rs (.ok (n, true)) rs' ∧ res = .ok () ∧ rs'.stopped = true ∧
      s' = s.setRecv frame.id none := by
  have hset : ∀ x y : Option Recv, (s.setRecv frame.id x).setRecv frame.id y = s.setRecv frame.id y :=
    fun x y => by simp [setRecv]
  unfold received at h
  cases hv : s.validateReceiveId frame.id with
  | error e =>
      rw [hv] at h
      cases h
      exact .inl ⟨e, rfl, rfl, rfl⟩
  | ok u =>
  right
  rw [hv] at h
  cases he : s.recvEntry frame with
  | none =>
      rw [he] at h
      cases h
      exact .inl ⟨rfl, rfl, rfl, rfl⟩
  | some rs =>
      right
      rw [he] at h
      dsimp only at h
      split_ifs at h with hr
      · cases h
        exact .inl ⟨rs, rfl, rfl, by simpa using hr, rfl, rfl⟩
      · right
        obtain ⟨⟨res', rs'⟩, hi, h⟩ := Checked.bind_eq_ok.mp h
        have hin : s.Ingests frame payloadLen rs res' rs' := ⟨hv, he, by simpa using hr, hi⟩
        rcases res' with e | ⟨n, closed⟩
        · dsimp only at h
          rw [hset] at h
          cases h
          exact .inl ⟨rs, e, rs', hin, rfl, rfl⟩
        · right
          dsimp only at h
          simp only [hset] at h
          split_ifs at h with h1 h2 h2
          · cases h
            exact .inl ⟨rs, _, rs', hin, rfl, .inr rfl⟩
          · cases h
            exact .inl ⟨rs, _, rs', hin, rfl, .inl rfl⟩
          · cases h
            rw [h2] at hin
            exact .inr ⟨rs, n, rs', hin, rfl, by simpa using h1, rfl⟩
          · cases h
            exact .inl ⟨rs, _, rs', hin, rfl, .inl rfl⟩

/-- **What `received_reset` does.** -/
theorem receivedReset_cases (s : StreamsState) (frame : ResetStream) {rs : Recv}
    (hrs : (s.recv frame.id).getD Recv.default = rs) :
    (∃ e, s.validateReceiveId frame.id = .error e ∧ s.receivedReset frame = (.error e, s)) ∨
    s.validateReceiveId frame.id = .ok () ∧
      ((∃ e rs', rs.reset frame.errorCode frame.finalOffset = (.error e, rs') ∧
        s.receivedReset frame = (.error e, s.setRecv frame.id (some rs'))) ∨
      (∃ rs', rs.reset frame.errorCode frame.finalOffset = (.ok false, rs') ∧
        s.receivedReset frame = (.ok (), s.setRecv frame.id (some rs'))) ∨
      (∃ rs', rs.reset frame.errorCode frame.finalOffset = (.ok true, rs') ∧ rs'.stopped = true ∧
        s.receivedReset frame = (.ok (), s.setRecv frame.id none)) ∨
      ∃ rs', rs.reset frame.errorCode frame.finalOffset = (.ok true, rs') ∧ rs'.stopped = false ∧
        s.receivedReset frame =
          (.ok (), (s.setRecv frame.id (some rs')).sendEvent (.readable frame.id))) := by
  unfold receivedReset
  cases hv : s.validateReceiveId frame.id with
  | error e => exact .inl ⟨e, rfl, rfl⟩
  | ok u =>
      refine .inr ⟨rfl, ?_⟩
      dsimp only
      rw [hrs]
      rcases hr : rs.reset frame.errorCode frame.finalOffset with ⟨_ | _ | _, rs'⟩
      · exact .inl ⟨_, rs', rfl, rfl⟩
      · exact .inr (.inl ⟨rs', rfl, rfl⟩)
      · right; right
        dsimp only
        split_ifs with hst
        · exact .inl ⟨rs', rfl, hst, rfl⟩
        · exact .inr ⟨rs', rfl, Bool.eq_false_iff.mpr hst, rfl⟩

/-! ## Operations that leave the receive side alone -/

/-- The receive side is the same, and nothing was announced as readable. -/
structure SameRecv (s s' : StreamsState) : Prop where
  side : s'.side = s.side
  next : s'.next .bi = s.next .bi
  recv : s'.recv = s.recv
  events : ∃ l, s'.events = s.events ++ l ∧ ∀ id, .stream (.readable id) ∉ l

theorem SameRecv.of_eq (h1 : s'.side = s.side) (h2 : s'.next .bi = s.next .bi) (h3 : s'.recv = s.recv)
    (h4 : s'.events = s.events) : SameRecv s s' :=
  ⟨h1, h2, h3, [], by rw [h4, List.append_nil], fun _ h => by cases h⟩

theorem SameRecv.refl (s : StreamsState) : SameRecv s s := .of_eq rfl rfl rfl rfl

/-- That a stream can be read is announced as an event of its own. -/
theorem OnlySend.sameRecv {es : List StreamEvent} (h : s.OnlySend s' es) (hes : ∀ id, .readable id ∉ es) :
    SameRecv s s' := by
  rw [h]
  refine ⟨rfl, rfl, rfl, es.map .stream, rfl, fun id hm => ?_⟩
  obtain ⟨e, he, heq⟩ := List.mem_map.mp hm
  cases heq
  exact hes id he

theorem open_uni_sameRecv (s : StreamsState) : SameRecv s (s.open .uni).2 := by
  refine .of_eq rfl ?_ rfl rfl
  exact Function.update_of_ne (show Dir.bi ≠ Dir.uni by decide) (s.next .uni + 1) s.next

end StreamsState

/-! ## The moves -/

/-- The receive half that an operation works on. -/
def StreamsOp.recvId (s : StreamsState) : StreamsOp → Option StreamId
  | .open .bi => some (s.open .bi).1
  | .read id _ | .stop id _ | .takeReset id => some id
  | .received frame _ => some frame.id
  | .receivedReset frame => some frame.id
  | _ => none

/-- The operation is a frame for a receive half. -/
def StreamsOp.isFrame : StreamsOp → Bool
  | .received .. | .receivedReset _ => true
  | _ => false

/-- The operation may make an entry where there is none: a STREAM frame at the beginning of a stream of
the peer, or a RESET_STREAM frame. -/
def StreamsOp.Makes (s : StreamsState) : StreamsOp → Prop
  | .received frame _ => frame.id.initiator ≠ s.side ∧ frame.offset = 0 ∧ frame.fin = false
  | .receivedReset frame => s.validateReceiveId frame.id = .ok ()
  | _ => False

/-- The chunks that an operation returns to the application. -/
def StreamsOp.delivers (s : StreamsState) : StreamsOp → Checked (List Chunk)
  | .read id lengths => do
    match ← s.read id true with
    | (.error _, _) => return []
    | (.ok c, _) =>
      let (chunks, _) ← c.collect lengths
      return chunks
  | _ => .ok []

/-- The move keeps the side and the counter of bidirectional streams, and announces at most that `id` is readable. -/
structure StreamsState.Announces (s : StreamsState) (id : StreamId) (s' : StreamsState) : Prop where
  side : s'.side = s.side
  next : s'.next .bi = s.next .bi
  events : s'.events = s.events ∨ s'.events = s.events ++ [.stream (.readable id)]

/-- The moves of the receive side, with the chunks that are returned. -/
inductive RecvMove (s : StreamsState) (op : StreamsOp) (s' : StreamsState) : List Chunk → Prop
  /-- Nothing changes. -/
  | same (h : s.SameRecv s') : RecvMove s op s' []
  | opened (hop : op = .open .bi) (hs : s' = (s.open .bi).2) : RecvMove s op s' []
  /-- An entry appears. -/
  | made (id : StreamId) {rs' : Recv} (hid : op.recvId s = some id) (hn : s.recv id = none) (hop : op.Makes s)
      (hwf : rs'.assembler.WF) (hread : rs'.assembler.bytesRead = 0)
      (hs : s'.recv = Function.update s.recv id (some rs')) (ha : s.Announces id s') : RecvMove s op s' []
  /-- An entry changes, and nothing is read from it. -/
  | kept (id : StreamId) {rs rs' : Recv} (hid : op.recvId s = some id) (he : s.recv id = some rs)
      (hwf : rs.assembler.WF →
        rs'.assembler.WF ∧ rs'.assembler.bytesRead = rs.assembler.bytesRead)
      (hsize : op.isFrame = false → rs'.state = rs.state ∧ rs'.end = rs.end)
      (hs : s'.recv = Function.update s.recv id (some rs')) (ha : s.Announces id s') : RecvMove s op s' []
  /-- An entry is discarded, and nothing is read from it. -/
  | discarded (id : StreamId) {rs : Recv} (hid : op.recvId s = some id) (he : s.recv id = some rs)
      (hs : s' = s.setRecv id none) : RecvMove s op s' []
  /-- An entry is read. -/
  | read (id : StreamId) {rs : Recv} {lengths : List ℕ} {chunks : List Chunk} {c : Chunks}
      (hid : op.recvId s = some id) (he : s.recv id = some rs)
      (hc : Chunks.collect lengths ⟨id, true, .readable rs, 0⟩ = .ok (chunks, c))
      (hs : s' = s.setRecv id c.state.recv) : RecvMove s op s' chunks

namespace StreamsState

variable {s s' : StreamsState}

theorem received_move {frame : Stream} {payloadLen : ℕ} {res : Except TransportError Unit}
    (h : s.received frame payloadLen = .ok (res, s')) : RecvMove s (.received frame payloadLen) s' [] := by
  -- the entry that is left after `ingest`, with or without an event
  have hput : ∀ {rs res' rs'}, s.Ingests frame payloadLen rs res' rs' →
      s'.recv = Function.update s.recv frame.id (some rs') → s.Announces frame.id s' →
      RecvMove s (.received frame payloadLen) s' [] := by
    intro rs res' rs' hin hs ha
    obtain he | ⟨hn, rfl, hmake⟩ := recvEntry_eq hin.entry
    · exact .kept frame.id rfl he (fun hwf => Recv.ingest_wf hwf hin.ingest) nofun hs ha
    · obtain ⟨hwf, hread⟩ := Recv.ingest_wf Recv.default_wf hin.ingest
      exact .made frame.id rfl hn hmake hwf hread hs ha
  obtain ⟨e, -, -, rfl⟩ | ⟨-, -, -, rfl⟩ | ⟨rs, -, he, hr, -, rfl⟩ | ⟨rs, e, rs', hin, -, rfl⟩ |
    ⟨rs, v, rs', hin, -, rfl | rfl⟩ | ⟨rs, n, rs', hin, -, hst, rfl⟩ := received_cases h
  · exact .same (.refl _)
  · exact .same (.refl _)
  · obtain he | ⟨-, rfl, -⟩ := recvEntry_eq he
    · exact .kept frame.id rfl he (fun hwf => ⟨hwf, rfl⟩) nofun rfl ⟨rfl, rfl, .inl rfl⟩
    · cases hr
  · exact hput hin rfl ⟨rfl, rfl, .inl rfl⟩
  · exact hput hin rfl ⟨rfl, rfl, .inl rfl⟩
  · exact hput hin rfl ⟨rfl, rfl, .inr rfl⟩
  · obtain he | ⟨-, rfl, -⟩ := recvEntry_eq hin.entry
    · exact .discarded frame.id rfl he rfl
    · -- a new entry is not stopped
      obtain ⟨-, ⟨e, he⟩, -⟩ | ⟨-, -, -, -, hst', -⟩ := Recv.ingest_cases hin.ingest
      · cases he
      · rw [hst'] at hst
        cases hst

theorem receivedReset_move (s : StreamsState) (frame : ResetStream) :
    RecvMove s (.receivedReset frame) (s.receivedReset frame).2 [] := by
  cases hv : s.validateReceiveId frame.id with
  | error e =>
      obtain ⟨e', -, he⟩ | ⟨hv', -⟩ := s.receivedReset_cases frame rfl
      · rw [he]
        exact .same (.refl _)
      · rw [hv] at hv'
        cases hv'
  | ok u =>
  have hput : ∀ {t : StreamsState} {rs' : Recv},
      rs' = (((s.recv frame.id).getD Recv.default).reset frame.errorCode frame.finalOffset).2 →
      t.recv = Function.update s.recv frame.id (some rs') → s.Announces frame.id t →
      RecvMove s (.receivedReset frame) t [] := by
    intro t rs' hrs' hs ha
    cases he : s.recv frame.id with
    | some rs =>
        rw [he, Option.getD_some] at hrs'
        exact .kept frame.id rfl he (fun hwf => by rw [hrs']; exact Recv.reset_wf hwf _ _) nofun hs ha
    | none =>
        rw [he, Option.getD_none] at hrs'
        obtain ⟨hwf, hread⟩ := Recv.reset_wf Recv.default_wf frame.errorCode frame.finalOffset
        exact .made frame.id rfl he hv (by rw [hrs']; exact hwf) (by rw [hrs']; exact hread) hs ha
  obtain ⟨e, hv', -⟩ | ⟨-, ⟨e, rs', hr, hs⟩ | ⟨rs', hr, hs⟩ | ⟨rs', hr, hst, hs⟩ | ⟨rs', hr, -, hs⟩⟩ :=
    s.receivedReset_cases frame rfl
  · rw [hv] at hv'
    cases hv'
  · rw [hs]
    exact hput (by rw [hr]) rfl ⟨rfl, rfl, .inl rfl⟩
  · rw [hs]
    exact hput (by rw [hr]) rfl ⟨rfl, rfl, .inl rfl⟩
  · rw [hs]
    cases he : s.recv frame.id with
    | some rs => exact .discarded frame.id rfl he rfl
    | none =>
        -- a new entry is not stopped
        rw [he, Option.getD_none] at hr
        cases hr
        cases hst
  · rw [hs]
    exact hput (by rw [hr]) rfl ⟨rfl, rfl, .inr rfl⟩

theorem stop_move {pending pending' : Retransmits} {id : StreamId} {errorCode : ℕ}
    {res : Except ClosedStream Unit} (h : s.stop pending id errorCode = .ok (res, s', pending')) :
    RecvMove s (.stop id errorCode) s' [] := by
  unfold stop at h
  cases he : s.recv id with
  | none =>
      rw [he] at h
      cases h
      exact .same (.refl _)
  | some rs =>
      rw [he] at h
      obtain ⟨⟨res', rs'⟩, hi, h⟩ := Checked.bind_eq_ok.mp h
      rcases res' with e | ⟨n, b⟩
      · cases h
        exact .same (.refl _)
      · cases h
        split_ifs
        · refine .kept id rfl he (fun hwf => Recv.stop_wf hwf hi) (fun _ => ?_) rfl ⟨rfl, rfl, .inl rfl⟩
          obtain ⟨-, rfl, -⟩ | ⟨-, rfl, -⟩ := Recv.stop_cases hi
          · exact ⟨rfl, rfl⟩
          · exact ⟨rfl, rfl⟩
        · exact .discarded id rfl he rfl

theorem takeReset_move (s : StreamsState) (id : StreamId) :
    RecvMove s (.takeReset id) (s.takeReset id).2 [] := by
  unfold takeReset
  cases he : s.recv id with
  | none => exact .same (.refl _)
  | some rs =>
      dsimp only
      split_ifs
      · exact .same (.refl _)
      · split
        · exact .same (.refl _)
        · exact .discarded id rfl he rfl

/-- What a reader holds goes back to the table. -/
theorem dropChunks_eq (s : StreamsState) (c : Chunks) :
    (s.setRecv c.id none).dropChunks c = s.setRecv c.id c.state.recv := by
  unfold dropChunks
  cases c.state with
  | readable rs => simp [setRecv, ChunksState.recv]
  | reset code => rfl
  | finished => rfl

theorem readChunks_move {id : StreamId} {lengths : List ℕ} (h : s.readChunks id lengths = .ok s') :
    ∃ chunks, (StreamsOp.read id lengths).delivers s = .ok chunks ∧ RecvMove s (.read id lengths) s' chunks := by
  obtain ⟨⟨res, s₁⟩, hread, h⟩ := Checked.bind_eq_ok.mp h
  unfold StreamsOp.delivers
  dsimp only
  rw [hread, Checked.ok_bind]
  unfold read at hread
  cases he : s.recv id with
  | none =>
      rw [he] at hread
      cases hread
      cases h
      exact ⟨[], rfl, .same (.refl _)⟩
  | some rs =>
      rw [he] at hread
      dsimp only at hread
      split_ifs at hread
      · cases hread
        cases h
        exact ⟨[], rfl, .same (.refl _)⟩
      · split at hread
        · cases hread
          cases h
          exact ⟨[], rfl, .discarded id rfl he rfl⟩
        · cases hread
        · cases hread
          dsimp only at h
          rw [Chunks.nexts_eq_collect] at h
          obtain ⟨c, hc, h⟩ := Checked.bind_eq_ok.mp h
          obtain ⟨⟨chunks, c'⟩, hcol, hc⟩ := Checked.bind_eq_ok.mp hc
          cases hc
          cases h
          refine ⟨chunks, by dsimp only; rw [hcol]; rfl, .read id rfl he hcol ?_⟩
          have hid : c'.id = id := Chunks.collect_id hcol
          rw [← hid]
          exact dropChunks_eq s c'

end StreamsState

/-- **Every operation moves.** -/
theorem streamsStep_recvMove {r r' : StreamsRun} {op : StreamsOp} (h : streamsStep r op = .ok r') :
    ∃ chunks, op.delivers r.state = .ok chunks ∧ RecvMove r.state op r'.state chunks := by
  -- an operation of the send side
  have hsend : op.receives = false → (∀ dir, op ≠ .open dir) → RecvMove r.state op r'.state [] := by
    intro hrecv hopen
    obtain ⟨es, hs, hes⟩ := streamsStep_onlySend h hrecv hopen
    refine .same (hs.sameRecv fun id hm => ?_)
    obtain ⟨i, he⟩ | ⟨frame, -, he⟩ := hes _ hm
    · cases he
    · cases he
  cases op with
  | «open» dir =>
      cases h
      cases dir with
      | bi => exact ⟨[], rfl, .opened rfl rfl⟩
      | uni => exact ⟨[], rfl, .same (r.state.open_uni_sameRecv)⟩
  | read id lengths =>
      obtain ⟨s, hs, h⟩ := Checked.bind_eq_ok.mp h
      cases h
      exact StreamsState.readChunks_move hs
  | stop id errorCode =>
      obtain ⟨⟨res, s, q⟩, hs, h⟩ := Checked.bind_eq_ok.mp h
      cases h
      exact ⟨[], rfl, StreamsState.stop_move hs⟩
  | takeReset id =>
      cases h
      exact ⟨[], rfl, r.state.takeReset_move id⟩
  | received frame payloadLen =>
      obtain ⟨⟨res, s⟩, hs, h⟩ := Checked.bind_eq_ok.mp h
      cases h
      exact ⟨[], rfl, StreamsState.received_move hs⟩
  | receivedReset frame =>
      cases h
      exact ⟨[], rfl, r.state.receivedReset_move frame⟩
  | _ => exact ⟨[], rfl, hsend rfl nofun⟩

end MzQuic
