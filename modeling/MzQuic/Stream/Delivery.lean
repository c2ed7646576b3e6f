import MzQuic.Stream.RecvMoves

/-!
# Delivered bytes are a prefix (`core/src/connection/stream/recv.rs`)

One receive half, given slices of a string `S` in any order, resets and stops, while the application
opens it for reading, takes chunks, and puts it back.

* `RecvRun`: the half in the table or in the hands of a reader, with the chunks returned so far;
* `Recv.Carries S`: what is buffered agrees with `S`, and a known size is that of `S`;
* **`delivered_prefix`**: the chunks are consecutive pieces of `S` from its beginning, and the end of the
  stream is reported only once a FIN has been received and all of `S` has been returned.
-/

namespace MzQuic

open Lib

/-! ## Runs of one receive half -/

/-- An operation on a receive half. -/
inductive RecvOp
  | ingest (frame : Stream) (payloadLen : ℕ)
  | reset (errorCode finalOffset : ℕ)
  | stop
  /-- `Chunks::new`, for ordered reads. -/
  | «open»
  | next (maxLength : ℕ)
  /-- `Drop for Chunks`. -/
  | drop

/-- A receive half with its history. It is in the table, or taken out of it by a reader, or gone. -/
structure RecvRun where
  recv : Option Recv
  reading : Option Chunks
  /-- The chunks that were returned. -/
  chunks : List Chunk
  /-- Whether a frame with a FIN was ingested. -/
  fin : Bool

/-- The start of a run. -/
def RecvRun.init : RecvRun := ⟨some Recv.default, none, [], false⟩

/-- The bytes that were returned. -/
def RecvRun.delivered (s : RecvRun) : Bytes := s.chunks.flatMap Chunk.bytes

/-- One operation. Operations on a half that is not where they look for it do nothing. -/
def recvStep (s : RecvRun) : RecvOp → Checked RecvRun
  | .ingest frame payloadLen =>
    match s.recv with
    | none => .ok s
    | some rs => do
      match ← rs.ingest frame payloadLen with
      | (.error _, rs) => return { s with recv := some rs }
      | (.ok _, rs) => return { s with recv := some rs, fin := s.fin || frame.fin }
  | .reset errorCode finalOffset =>
    .ok { s with recv := s.recv.map fun rs => (rs.reset errorCode finalOffset).2 }
  | .stop =>
    match s.recv with
    | none => .ok s
    | some rs => do
      let (_, rs) ← rs.stop
      return { s with recv := some rs }
  | .open =>
    match s.recv with
    | none => .ok s
    | some rs =>
      if rs.stopped then .ok s
      else .ok { s with recv := none, reading := some ⟨⟨0⟩, true, .readable rs, 0⟩ }
  | .next maxLength =>
    match s.reading with
    | none => .ok s
    | some c => do
      match ← c.next maxLength with
      | (.ok (some chunk), c) => return { s with reading := some c, chunks := s.chunks ++ [chunk] }
      | (_, c) => return { s with reading := some c }
  | .drop =>
    match s.reading with
    | some ⟨_, _, .readable rs, _⟩ => .ok { s with recv := some rs, reading := none }
    | _ => .ok { s with reading := none }

/-- The frame carries a slice of `S`, and a FIN only at the end of `S`. -/
def RecvOp.Carries (S : Bytes) : RecvOp → Prop
  | .ingest frame _ => frame.data = (S.drop frame.offset).take frame.data.length ∧
      frame.stop ≤ S.length ∧ (frame.fin = true → frame.stop = S.length)
  | _ => True

instance (S : Bytes) : ∀ op : RecvOp, Decidable (op.Carries S)
  | .ingest frame _ => inferInstanceAs (Decidable (frame.data =
      (S.drop frame.offset).take frame.data.length ∧ frame.stop ≤ S.length ∧
        (frame.fin = true → frame.stop = S.length)))
  | .reset .. | .stop | .open | .next _ | .drop => .isTrue trivial

/-! ## The invariant -/

/-- A receive half of which `n` bytes were read: what it buffers agrees with `S`, and if its size is
known then a FIN was ingested and the size is that of `S`. -/
structure Recv.Carries (S : Bytes) (n : ℕ) (fin : Bool) (rs : Recv) : Prop where
  wf : rs.assembler.WF
  agrees : Agrees S rs.assembler.data
  read : rs.assembler.bytesRead = n
  size : ∀ size, rs.state = .recv (some size) → fin = true ∧ size = S.length

/-- What the application holds while it reads. -/
structure Chunks.Carries (S : Bytes) (delivered : Bytes) (fin : Bool) (c : Chunks) : Prop where
  ordered : c.ordered = true
  readable : ∀ rs, c.state = .readable rs → rs.Carries S delivered.length fin
  finished : c.state = .finished → fin = true ∧ delivered = S

/-- The invariant of a run. -/
structure RecvRun.Inv (S : Bytes) (s : RecvRun) : Prop where
  recv : ∀ rs ∈ s.recv, rs.Carries S s.delivered.length s.fin
  reading : ∀ c ∈ s.reading, c.Carries S s.delivered s.fin
  apart : s.recv = none ∨ s.reading = none
  delivered : s.delivered = S.take s.delivered.length
  offsets : Consecutive 0 s.chunks

variable {S : Bytes} {n : ℕ} {fin : Bool}

theorem Recv.Carries.default : Recv.default.Carries S 0 fin where
  wf := Assembler.WF.default
  agrees := fun b hb => by cases hb
  read := rfl
  size := fun size h => by cases h

theorem Recv.Carries.ingest {rs rs' : Recv} (h : rs.Carries S n fin) {frame : Stream} {payloadLen : ℕ}
    (hf : (RecvOp.ingest frame payloadLen).Carries S) {res : Except TransportError (ℕ × Bool)}
    (hi : rs.ingest frame payloadLen = .ok (res, rs')) :
    (rs' = rs ∧ ∃ e, res = .error e) ∨ (∃ v, res = .ok v) ∧ rs'.Carries S n (fin || frame.fin) := by
  obtain ⟨hdata, hstop, hfin⟩ := hf
  obtain ⟨rfl, herr, -⟩ | ⟨-, -, hres, -, -, hst, hasm⟩ := Recv.ingest_cases hi
  · exact .inl ⟨rfl, herr⟩
  refine .inr ⟨⟨_, hres⟩, ?_⟩
  -- the size that a FIN sets is that of `S`
  have hsize : ∀ size, rs'.state = .recv (some size) → (fin || frame.fin) = true ∧ size = S.length := by
    intro size hs
    rw [hst] at hs
    split_ifs at hs with hset
    · cases hs
      simp only [Bool.and_eq_true] at hset
      have hf : frame.fin = true := hset.1.1
      exact ⟨by simp [hf], hfin hf⟩
    · obtain ⟨h3, h4⟩ := h.size size hs
      exact ⟨by simp [h3], h4⟩
  rcases hasm with ⟨-, e⟩ | ⟨-, ha⟩
  · exact ⟨by rw [e]; exact h.wf, by rw [e]; exact h.agrees, by rw [e]; exact h.read, hsize⟩
  · obtain ⟨hwf, hread, hagrees, -⟩ := Assembler.insert_ok h.wf ha
    exact ⟨hwf, hagrees S h.agrees hdata, hread.trans h.read, hsize⟩

theorem Recv.Carries.reset {rs : Recv} (h : rs.Carries S n fin) (errorCode finalOffset : ℕ) :
    (rs.reset errorCode finalOffset).2.Carries S n fin := by
  obtain ⟨⟨e, he⟩, -⟩ | ⟨he, -⟩ | ⟨he, -⟩ := rs.reset_cases errorCode finalOffset
  · rw [he]
    exact h
  · rw [he]
    exact h
  · rw [he]
    exact ⟨h.wf.clear, (fun b hb => by cases hb), h.read, fun size hs => by cases hs⟩

theorem Recv.Carries.stop {rs rs' : Recv} (h : rs.Carries S n fin) {res : Except ClosedStream (ℕ × Bool)}
    (hs : rs.stop = .ok (res, rs')) : rs'.Carries S n fin := by
  obtain ⟨-, rfl, -⟩ | ⟨-, rfl, -⟩ := Recv.stop_cases hs
  · exact h
  · exact ⟨h.wf.clear, (fun b hb => by cases hb), h.read, h.size⟩

/-- **`Chunks::next`** returns the next bytes of `S`, or ends at the end of `S`, or returns an error. -/
theorem Chunks.Carries.next {c c' : Chunks} {delivered : Bytes} (h : c.Carries S delivered fin)
    (hd : delivered = S.take delivered.length) {maxLength : ℕ} {res : Except ReadError (Option Chunk)}
    (hn : c.next maxLength = .ok (res, c')) :
    (∃ chunk, res = .ok (some chunk) ∧ chunk.offset = delivered.length ∧
      c'.Carries S (delivered ++ chunk.bytes) fin ∧
      delivered ++ chunk.bytes = S.take (delivered.length + chunk.bytes.length)) ∨
    (res = .ok none ∧ fin = true ∧ delivered = S ∧ c'.Carries S delivered fin) ∨
    (∃ e, res = .error e) ∧ c'.Carries S delivered fin := by
  obtain ⟨hord, hread, hfin⟩ := h
  unfold Chunks.next at hn
  cases hst : c.state with
  | reset errorCode =>
      rw [hst] at hn
      cases hn
      exact .inr (.inr ⟨⟨_, rfl⟩, hord, hread, hfin⟩)
  | finished =>
      rw [hst] at hn
      cases hn
      exact .inr (.inl ⟨rfl, (hfin hst).1, (hfin hst).2, hord, hread, hfin⟩)
  | readable rs =>
      rw [hst, hord] at hn
      have hrs := hread rs hst
      dsimp only at hn
      obtain ⟨h1, -⟩ | ⟨chunk, a', h1, hwf, hoff, hbr, -, -, -, -, -, hagrees⟩ := Assembler.read_spec hrs.wf maxLength
      · rw [h1, Checked.ok_bind] at hn
        dsimp only at hn
        cases hrst : rs.state with
        | resetRecvd size errorCode =>
            rw [hrst] at hn
            obtain ⟨_, -, hn⟩ := Checked.bind_eq_ok.mp hn
            cases hn
            exact .inr (.inr ⟨⟨_, rfl⟩, rfl, (fun _ hs => by cases hs), fun hs => by cases hs⟩)
        | recv size =>
            rw [hrst] at hn
            dsimp only at hn
            split_ifs at hn with hend
            · cases hn
              -- the size is known and everything up to it was read
              obtain ⟨h2, h3⟩ := hrs.size rs.end (by rw [hrst, hend.1])
              have hall : delivered = S := by
                rw [hd, ← hrs.read, hend.2, h3, List.take_length]
              exact .inr (.inl ⟨rfl, h2, hall, rfl, (fun _ hs => by cases hs), fun _ => ⟨h2, hall⟩⟩)
            · cases hn
              refine .inr (.inr ⟨⟨_, rfl⟩, rfl, fun _ hs => ?_, fun hs => by cases hs⟩)
              cases hs
              rw [← hrst]
              exact hrs
      · rw [h1, Checked.ok_bind] at hn
        cases hn
        obtain ⟨hagrees, hslice⟩ := hagrees S hrs.agrees
        rw [hrs.read] at hoff hbr hslice
        have happ : delivered ++ chunk.bytes = S.take (delivered.length + chunk.bytes.length) := by
          rw [← take_append_slice hslice rfl, ← hd]
        refine .inl ⟨chunk, rfl, hoff, ⟨rfl, fun rs' hs => ?_, fun hs => ?_⟩, happ⟩
        · cases hs
          exact ⟨hwf, hagrees, by rw [hbr, List.length_append], hrs.size⟩
        · cases hs

/-- A half in which a FIN may have been seen. -/
theorem Recv.Carries.mono {rs : Recv} (h : rs.Carries S n fin) (fin' : Bool) : rs.Carries S n (fin || fin') :=
  ⟨h.wf, h.agrees, h.read, fun size hs => ⟨by rw [(h.size size hs).1, Bool.true_or], (h.size size hs).2⟩⟩

theorem Chunks.Carries.mono {c : Chunks} {delivered : Bytes} (h : c.Carries S delivered fin) (fin' : Bool) :
    c.Carries S delivered (fin || fin') :=
  ⟨h.ordered, fun rs hs => (h.readable rs hs).mono fin',
    fun hs => ⟨by rw [(h.finished hs).1, Bool.true_or], (h.finished hs).2⟩⟩

/-! ## Steps and runs -/

theorem RecvRun.inv_init (S : Bytes) : RecvRun.init.Inv S where
  recv := fun _ hm => by cases hm; exact Recv.Carries.default
  reading := fun _ hm => by cases hm
  apart := .inr rfl
  delivered := rfl
  offsets := trivial

/-- An operation that changes only the half in the table. -/
theorem RecvRun.Inv.setRecv {s : RecvRun} (hI : s.Inv S) {rs rs' : Recv} (hr : s.recv = some rs)
    {fin' : Bool} (hc : rs'.Carries S s.delivered.length (s.fin || fin')) :
    RecvRun.Inv S { s with recv := some rs', fin := s.fin || fin' } where
  recv := fun _ hm => by cases hm; exact hc
  reading := fun c hm => (hI.reading c hm).mono fin'
  apart := .inr (hI.apart.resolve_left (by rw [hr]; simp))
  delivered := hI.delivered
  offsets := hI.offsets

/-- A reader goes on. -/
theorem RecvRun.Inv.next {s s' : RecvRun} {maxLength : ℕ} (hI : s.Inv S)
    (h : recvStep s (.next maxLength) = .ok s') : s'.Inv S := by
  cases hr : s.reading with
  | none =>
      simp only [recvStep, hr] at h
      cases h
      exact hI
  | some c =>
      simp only [recvStep, hr] at h
      obtain ⟨⟨res, c'⟩, hn, h⟩ := Checked.bind_eq_ok.mp h
      have hnone : s.recv = none := hI.apart.resolve_right (by rw [hr]; simp)
      obtain ⟨chunk, rfl, ho, hc, happ⟩ | ⟨rfl, -, -, hc⟩ | ⟨⟨e, rfl⟩, hc⟩ :=
        (hI.reading c hr).next hI.delivered hn
      · cases h
        have hd : (s.chunks ++ [chunk]).flatMap Chunk.bytes = s.delivered ++ chunk.bytes := by
          rw [List.flatMap_append, List.flatMap_singleton]
          rfl
        refine ⟨fun rs hm => ?_, fun _ hm => ?_, .inl hnone, ?_, consecutive_append.mpr ⟨hI.offsets, ?_⟩⟩
        · rw [hnone] at hm
          cases hm
        · cases hm
          rw [RecvRun.delivered, hd]
          exact hc
        · rw [RecvRun.delivered, hd, List.length_append]
          exact happ
        · rw [Nat.zero_add]
          exact ⟨ho, trivial⟩
      · cases h
        exact ⟨hI.recv, (fun _ hm => by cases hm; exact hc), .inl hnone, hI.delivered, hI.offsets⟩
      · cases h
        exact ⟨hI.recv, (fun _ hm => by cases hm; exact hc), .inl hnone, hI.delivered, hI.offsets⟩

/-- **One operation keeps the invariant.** -/
theorem recvStep_inv (s : RecvRun) (op : RecvOp) (s' : RecvRun) (hI : s.Inv S) (hop : op.Carries S)
    (h : recvStep s op = .ok s') : s'.Inv S := by
  cases op with
  | ingest frame payloadLen =>
      cases hr : s.recv with
      | none =>
          simp only [recvStep, hr] at h
          cases h
          exact hI
      | some rs =>
          simp only [recvStep, hr] at h
          obtain ⟨⟨res, rs'⟩, hi, h⟩ := Checked.bind_eq_ok.mp h
          obtain ⟨rfl, e, rfl⟩ | ⟨⟨v, rfl⟩, hc⟩ := (hI.recv rs hr).ingest hop hi
          · cases h
            rw [← hr]
            exact hI
          · cases h
            exact hI.setRecv hr hc
  | reset errorCode finalOffset =>
      cases h
      cases hr : s.recv with
      | none =>
          rw [Option.map_none, ← hr]
          exact hI
      | some rs =>
          have hc := (hI.recv rs hr).reset errorCode finalOffset
          simpa using hI.setRecv hr (hc.mono false)
  | stop =>
      cases hr : s.recv with
      | none =>
          simp only [recvStep, hr] at h
          cases h
          exact hI
      | some rs =>
          simp only [recvStep, hr] at h
          obtain ⟨⟨res, rs'⟩, hi, h⟩ := Checked.bind_eq_ok.mp h
          cases h
          have hc := (hI.recv rs hr).stop hi
          simpa using hI.setRecv hr (hc.mono false)
  | «open» =>
      cases hr : s.recv with
      | none =>
          simp only [recvStep, hr] at h
          cases h
          exact hI
      | some rs =>
          simp only [recvStep, hr] at h
          split_ifs at h
          · cases h
            exact hI
          · cases h
            refine ⟨(fun _ hm => by cases hm), fun _ hm => ?_, .inl rfl, hI.delivered, hI.offsets⟩
            cases hm
            exact ⟨rfl, (fun _ hs => by cases hs; exact hI.recv rs hr), fun hs => by cases hs⟩
  | next maxLength => exact hI.next h
  | drop =>
      unfold recvStep at h
      dsimp only at h
      split at h
      case h_1 id ordered rs read hr =>
        cases h
        refine ⟨fun _ hm => ?_, (fun _ hm => by cases hm), .inr rfl, hI.delivered, hI.offsets⟩
        cases hm
        exact (hI.reading _ hr).readable rs rfl
      case h_2 =>
        cases h
        exact ⟨hI.recv, (fun _ hm => by cases hm), .inr rfl, hI.delivered, hI.offsets⟩

/-- The bytes that the half has counted as read, while it is in the table or with a reader. -/
def RecvRun.bytesRead (s : RecvRun) : Option ℕ :=
  match s.recv, s.reading with
  | some rs, _ => some rs.assembler.bytesRead
  | none, some ⟨_, _, .readable rs, _⟩ => some rs.assembler.bytesRead
  | none, _ => none

theorem RecvRun.Inv.bytesRead {s : RecvRun} (hI : s.Inv S) : ∀ n ∈ s.bytesRead, n = s.delivered.length := by
  intro n hn
  unfold RecvRun.bytesRead at hn
  split at hn
  case h_1 _ _ rs hr =>
    cases hn
    exact (hI.recv rs hr).read
  case h_2 id ordered rs read _ hr =>
    cases hn
    exact ((hI.reading _ hr).readable rs rfl).read
  case h_3 => cases hn

/-- **Delivered bytes are a prefix.** In every run of one receive half that is given slices of `S`, the
chunks returned make up the first `bytes_read` bytes of `S`, each chunk's offset is the number of bytes
returned before it, and `next` reports the end of the stream only after a FIN and all of `S`. -/
theorem delivered_prefix (S : Bytes) (ops : List RecvOp) (hops : ∀ op ∈ ops, op.Carries S) (s : RecvRun)
    (hs : run recvStep RecvRun.init ops = .ok s) :
    s.delivered = S.take s.delivered.length ∧ (∀ n ∈ s.bytesRead, s.delivered = S.take n) ∧
      Consecutive 0 s.chunks ∧
      ∀ c ∈ s.reading, ∀ maxLength c', c.next maxLength = .ok (.ok none, c') →
        s.fin = true ∧ s.delivered = S := by
  have hI : s.Inv S := run_inv recvStep_inv (RecvRun.inv_init S) (Meets.of_forall hops) hs
  refine ⟨hI.delivered, fun n hn => ?_, hI.offsets, fun c hc maxLength c' hn => ?_⟩
  · rw [hI.bytesRead n hn]
    exact hI.delivered
  · obtain ⟨_, h, -⟩ | ⟨-, h1, h2, -⟩ | ⟨⟨_, h⟩, -⟩ := (hI.reading c hc).next hI.delivered hn
    · cases h
    · exact ⟨h1, h2⟩
    · cases h

/-- Three frames out of order, one of them twice; the reader comes in between. -/
theorem delivered_prefix_six : ∃ (S : Bytes) (ops : List RecvOp) (s : RecvRun),
    run recvStep RecvRun.init ops = .ok s ∧ (∀ op ∈ ops, op.Carries S) ∧ s.delivered = S ∧
      s.chunks.map Chunk.offset = [0, 1, 4] ∧ s.delivered = S.take s.delivered.length ∧
      (∀ n ∈ s.bytesRead, s.delivered = S.take n) ∧ Consecutive 0 s.chunks ∧
      ∀ c ∈ s.reading, ∀ maxLength c', c.next maxLength = .ok (.ok none, c') →
        s.fin = true ∧ s.delivered = S := by
  let S : Bytes := [10, 11, 12, 13, 14, 15]
  let ops : List RecvOp := [.ingest ⟨⟨0⟩, 4, true, [14, 15]⟩ 2, .open, .next 9, .drop,
    .ingest ⟨⟨0⟩, 0, false, [10, 11, 12, 13]⟩ 4, .ingest ⟨⟨0⟩, 4, true, [14, 15]⟩ 2, .open, .next 1,
    .next 9, .next 9, .next 9]
  have hops : ∀ op ∈ ops, op.Carries S := by decide
  obtain ⟨s, hs, hv⟩ := Checked.map_eq_ok.mp (show (fun s => (s.delivered, s.chunks.map Chunk.offset)) <$>
    run recvStep RecvRun.init ops = .ok (S, [0, 1, 4]) by decide +kernel)
  obtain ⟨h1, h2⟩ := Prod.mk.inj hv
  exact ⟨S, ops, s, hs, hops, h1, h2, delivered_prefix S ops hops s hs⟩

end MzQuic
