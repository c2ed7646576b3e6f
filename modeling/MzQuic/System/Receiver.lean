import MzQuic.Stream.Closed
import MzQuic.Stream.Delivery
import MzQuic.System.Packets

/-!
# What a party hears is true

* `StreamPast.Hears`: what is heard of a stream agrees with what its sender did;
* `Recv.Follows`, `RecvHalf`: a receive half, with what was heard of its stream; `received_halves`,
  `receivedReset_halves`: frames that are true leave it so;
* `Chunks.Follows`, `hear_follows`: so does a reader;
* `Party.Attends`, **`network_attends`**: in every run of a client and a server, whatever the network does, what either
  application hears of a stream is what the other has done with it;
* **`delivered_end_to_end`**: the bytes that it reads are those that the other has written, in their order.
-/

namespace MzQuic

open Lib Connection

/-! ## What is heard -/

/-- What was heard agrees with what the sender has done so far. After `some n`, the next chunk begins at offset `n`, and
everything before it was returned; after `none` the stream has ended for the reader. A late frame can make the
receive half anew, and then it is read from the beginning. -/
inductive StreamPast.Hears (s : StreamPast) : List Heard → Option ℕ → Prop
  | start : Hears s [] (some 0)
  | chunk {log : List Heard} {n : ℕ} {c : Chunk} (h : Hears s log (some n)) (hoff : c.offset = n)
      (hbytes : c.bytes = (s.wrote.drop n).take c.bytes.length) (hle : n + c.bytes.length ≤ s.wrote.length) :
      Hears s (log ++ [.chunk c]) (some (n + c.bytes.length))
  | finished {log : List Heard} {n : ℕ} (h : Hears s log (some n)) (hf : s.finished = true)
      (hn : n = s.wrote.length) : Hears s (log ++ [.finished]) none
  | reset {log : List Heard} {n errorCode : ℕ} (h : Hears s log (some n)) (hcode : errorCode ∈ s.resets) :
      Hears s (log ++ [.reset errorCode]) none
  | stopped {log : List Heard} {n : ℕ} (h : Hears s log (some n)) : Hears s (log ++ [.stopped]) none
  /-- A reader that is asked again gives the same answer. -/
  | again {log : List Heard} {x : Heard} (h : Hears s (log ++ [x]) none) : Hears s (log ++ [x] ++ [x]) none
  | anew {log : List Heard} (h : Hears s log none) : Hears s log (some 0)

section Hears

variable {s s' : StreamPast} {log : List Heard} {pos : Option ℕ}

/-- **What was heard stays true.** -/
theorem StreamPast.Hears.grows (h : s.Hears log pos) (hg : s.Grows s') : s'.Hears log pos := by
  induction h with
  | start => exact .start
  | chunk _ hoff hbytes hle ih =>
      exact .chunk ih hoff (hbytes.trans (hg.slice hle).symm) (hle.trans hg.wrote.length_le)
  | finished _ hf hn ih => exact .finished ih (hg.finished hf) (by rw [hg.shut (.inl hf)]; exact hn)
  | reset _ hcode ih => exact .reset ih (hg.resets hcode)
  | stopped _ ih => exact .stopped ih
  | again _ ih => exact .again ih
  | anew _ ih => exact .anew ih

/-- As much was read as was written. -/
theorem StreamPast.Hears.le (h : s.Hears log pos) : ∀ n ∈ pos, n ≤ s.wrote.length := by
  cases h with
  | start | anew =>
      rintro n ⟨⟩
      exact Nat.zero_le _
  | chunk _ _ _ hle =>
      rintro n ⟨⟩
      exact hle
  | finished | reset | stopped | again => nofun

end Hears

/-! ## Receive halves -/

/-- A receive half of a stream of which `s` is what its sender has done, and `log` what was heard. -/
structure Recv.Follows (s : StreamPast) (log : List Heard) (rs : Recv) : Prop where
  ordered : rs.assembler.state = .ordered
  carries : ∃ n, rs.Carries s.wrote n s.finished ∧ (rs.stopped = false → s.Hears log (some n))
  stopped : rs.stopped = true → s.Hears log none
  code : ∀ size errorCode, rs.state = .resetRecvd size errorCode → errorCode ∈ s.resets

/-- An entry of the table of receive halves. Where there is none, nothing was heard, or the stream has ended. -/
def RecvHalf (s : StreamPast) (log : List Heard) : Option Recv → Prop
  | some rs => rs.Follows s log
  | none => s.Hears log (some 0)

section Halves

variable {s s' : StreamPast} {log : List Heard} {rs rs' : Recv}

theorem agrees_prefix {S S' : Bytes} (h : S <+: S') {data : List Buffer} (hd : Agrees S data) : Agrees S' data := by
  obtain ⟨rest, rfl⟩ := h
  intro b hb
  have hbytes := hd b hb
  have hlen := congrArg List.length hbytes
  rw [List.length_take, List.length_drop] at hlen
  by_cases hle : b.offset ≤ S.length
  · rw [List.drop_append_of_le_length hle, List.take_append_of_le_length (by rw [List.length_drop]; omega)]
    exact hbytes
  · have hnil : b.bytes.length = 0 := by omega
    rw [hnil, List.take_zero]
    exact List.length_eq_zero_iff.mp hnil

/-- What the sender does later changes nothing. -/
theorem Recv.Follows.grows (h : rs.Follows s log) (hg : s.Grows s') : rs.Follows s' log := by
  obtain ⟨n, hc, hopen⟩ := h.carries
  refine ⟨h.ordered, ⟨n, ⟨hc.wf, agrees_prefix hg.wrote hc.agrees, hc.read, fun size hs => ?_⟩, fun hst =>
    (hopen hst).grows hg⟩, fun hst => (h.stopped hst).grows hg, fun size code hs => hg.resets (h.code size code hs)⟩
  obtain ⟨hf, hsize⟩ := hc.size size hs
  exact ⟨hg.finished hf, by rw [hg.shut (.inl hf)]; exact hsize⟩

theorem RecvHalf.grows {e : Option Recv} (h : RecvHalf s log e) (hg : s.Grows s') : RecvHalf s' log e := by
  cases e with
  | some rs => exact Recv.Follows.grows h hg
  | none => exact StreamPast.Hears.grows h hg

/-- A new half. -/
theorem Recv.Follows.default (h : s.Hears log (some 0)) : Recv.default.Follows s log where
  ordered := rfl
  carries := ⟨0, .default, fun _ => h⟩
  stopped := nofun
  code := nofun

/-- The half that an entry is, or a new one. -/
theorem RecvHalf.getD {e : Option Recv} (h : RecvHalf s log e) : (e.getD Recv.default).Follows s log := by
  cases e with
  | some rs => exact h
  | none => exact .default h

/-- A half that was stopped is gone. -/
theorem Recv.Follows.gone (h : rs.Follows s log) (hst : rs.stopped = true) : s.Hears log (some 0) :=
  .anew (h.stopped hst)

/-- **A STREAM frame that is true.** -/
theorem Recv.Follows.ingest (h : rs.Follows s log) {frame : Stream} {payloadLen : ℕ}
    (hf : (RecvOp.ingest frame payloadLen).Carries s.wrote) (hfin : frame.fin = true → s.finished = true)
    {res : Except TransportError (ℕ × Bool)} (hi : rs.ingest frame payloadLen = .ok (res, rs')) :
    rs'.Follows s log ∧ rs'.stopped = rs.stopped := by
  obtain ⟨n, hc, hopen⟩ := h.carries
  obtain ⟨rfl, -, -⟩ | ⟨-, -, -, -, hst, hstate, hasm⟩ := Recv.ingest_cases hi
  · exact ⟨h, rfl⟩
  have hcarries : rs'.Carries s.wrote n s.finished := by
    rcases hc.ingest hf hi with ⟨rfl, -⟩ | ⟨-, hc'⟩
    · exact hc
    · have hsame : (s.finished || frame.fin) = s.finished := by
        cases hx : frame.fin with
        | false => exact Bool.or_false _
        | true => rw [hfin hx, Bool.or_true]
      rwa [hsame] at hc'
  refine ⟨⟨?_, ⟨n, hcarries, fun hx => hopen (hst ▸ hx)⟩, fun hx => h.stopped (hst ▸ hx), fun size code hs => ?_⟩, hst⟩
  · rcases hasm with ⟨-, he⟩ | ⟨-, ha⟩
    · rw [he]
      exact h.ordered
    · rw [Assembler.insert_state ha]
      exact h.ordered
  · rw [hstate] at hs
    split_ifs at hs
    exact h.code size code hs

/-- **A RESET_STREAM frame that is true.** -/
theorem Recv.Follows.reset (h : rs.Follows s log) {errorCode : ℕ} (hcode : errorCode ∈ s.resets) (finalOffset : ℕ) :
    (rs.reset errorCode finalOffset).2.Follows s log ∧ (rs.reset errorCode finalOffset).2.stopped = rs.stopped := by
  obtain ⟨n, hc, hopen⟩ := h.carries
  have hcarries := hc.reset errorCode finalOffset
  obtain ⟨⟨e, he⟩, -⟩ | ⟨he, -⟩ | ⟨he, -⟩ := rs.reset_cases errorCode finalOffset
  · rw [he]
    exact ⟨h, rfl⟩
  · rw [he]
    exact ⟨h, rfl⟩
  · rw [he] at hcarries ⊢
    refine ⟨⟨h.ordered, ⟨n, hcarries, hopen⟩, h.stopped, ?_⟩, rfl⟩
    rintro size code ⟨⟩
    exact hcode

/-- **A half is stopped**, once. -/
theorem Recv.Follows.stop (h : rs.Follows s log) {res : Except ClosedStream (ℕ × Bool)}
    (hs : rs.stop = .ok (res, rs')) :
    (rs' = rs ∧ ∃ e, res = .error e) ∨ (∃ v, res = .ok v) ∧ rs'.stopped = true ∧ rs'.Follows s (log ++ [.stopped]) := by
  obtain ⟨n, hc, hopen⟩ := h.carries
  have hcarries := hc.stop hs
  obtain ⟨-, rfl, he⟩ | ⟨hst, rfl, v, hv⟩ := Recv.stop_cases hs
  · exact .inl ⟨rfl, he⟩
  · exact .inr ⟨⟨_, hv⟩, rfl, h.ordered, ⟨n, hcarries, nofun⟩, fun _ => .stopped (hopen hst), h.code⟩

end Halves

/-! ## Readers -/

theorem Assembler.read_state {a a' : Assembler} {maxLength : ℕ} {o : Option Chunk}
    (h : a.read maxLength true = .ok (o, a')) : a'.state = a.state := by
  unfold read at h
  rw [if_neg (by simp)] at h
  split at h
  · cases h
    rfl
  · split_ifs at h
    · cases h
      rfl
    · obtain ⟨b, -, h⟩ := Checked.bind_eq_ok.mp h
      cases h
      rfl
    · obtain ⟨b, -, h⟩ := Checked.bind_eq_ok.mp h
      obtain ⟨n, -, h⟩ := Checked.bind_eq_ok.mp h
      cases h
      rfl

/-- What an application holds while it reads. -/
structure Chunks.Follows (s : StreamPast) (log : List Heard) (c : Chunks) : Prop where
  ordered : c.ordered = true
  readable : ∀ rs, c.state = .readable rs → rs.Follows s log ∧ rs.stopped = false
  reset : ∀ errorCode, c.state = .reset errorCode → ∃ before, log = before ++ [.reset errorCode] ∧ s.Hears log none
  finished : c.state = .finished → ∃ before, log = before ++ [.finished] ∧ s.Hears log none

section Readers

variable {s : StreamPast} {log : List Heard} {c c' : Chunks}

/-- What a reader leaves. -/
theorem Chunks.Follows.half (h : c.Follows s log) : RecvHalf s log c.state.recv := by
  unfold ChunksState.recv
  cases hs : c.state with
  | readable rs => exact (h.readable rs hs).1
  | reset errorCode =>
      obtain ⟨-, -, hended⟩ := h.reset errorCode hs
      exact .anew hended
  | finished =>
      obtain ⟨-, -, hended⟩ := h.finished hs
      exact .anew hended

/-- **`Chunks::next`** tells what the sender has done. -/
theorem Chunks.Follows.next (h : c.Follows s log) {m : ℕ} {res : Except ReadError (Option Chunk)}
    (hn : c.next m = .ok (res, c')) : c'.Follows s (log ++ Heard.ofNext res) := by
  unfold Chunks.next at hn
  cases hs : c.state with
  | reset errorCode =>
      rw [hs] at hn
      cases hn
      obtain ⟨before, rfl, hended⟩ := h.reset errorCode hs
      refine ⟨h.ordered, fun rs hr => ?_, fun code hr => ?_, fun hr => ?_⟩
      · rw [hs] at hr
        cases hr
      · rw [hs] at hr
        cases hr
        exact ⟨_, rfl, .again hended⟩
      · rw [hs] at hr
        cases hr
  | finished =>
      rw [hs] at hn
      cases hn
      obtain ⟨before, rfl, hended⟩ := h.finished hs
      refine ⟨h.ordered, fun rs hr => ?_, fun code hr => ?_, fun _ => ⟨_, rfl, .again hended⟩⟩
      · rw [hs] at hr
        cases hr
      · rw [hs] at hr
        cases hr
  | readable rs =>
      obtain ⟨hrs, hopen⟩ := h.readable rs hs
      obtain ⟨n, hc, hears⟩ := hrs.carries
      have hears := hears hopen
      rw [hs, h.ordered] at hn
      dsimp only at hn
      obtain ⟨h1, -⟩ | ⟨chunk, a', h1, hwf, hoff, hread, -, -, -, -, -, hagrees⟩ := Assembler.read_spec hc.wf m
      · rw [h1, Checked.ok_bind] at hn
        dsimp only at hn
        cases hst : rs.state with
        | resetRecvd size errorCode =>
            rw [hst] at hn
            obtain ⟨_, -, hn⟩ := Checked.bind_eq_ok.mp hn
            cases hn
            refine ⟨rfl, nofun, ?_, nofun⟩
            rintro code ⟨⟩
            exact ⟨log, rfl, .reset hears (hrs.code size errorCode hst)⟩
        | recv size =>
            rw [hst] at hn
            dsimp only at hn
            split_ifs at hn with hend
            · cases hn
              -- the size is known and everything up to it was read
              obtain ⟨hf, hsize⟩ := hc.size rs.end (by rw [hst, hend.1])
              exact ⟨rfl, nofun, nofun, fun _ => ⟨log, rfl, .finished hears hf (by rw [← hc.read, hend.2, hsize])⟩⟩
            · cases hn
              rw [Heard.ofNext, List.append_nil]
              refine ⟨rfl, ?_, nofun, nofun⟩
              rintro rs' ⟨⟩
              rw [← hst]
              exact ⟨hrs, hopen⟩
      · have hstate := Assembler.read_state h1
        rw [h1, Checked.ok_bind] at hn
        cases hn
        obtain ⟨hagrees, hslice⟩ := hagrees s.wrote hc.agrees
        rw [hc.read] at hoff hread hslice
        -- the chunk is a part of what was written
        have hle : n + chunk.bytes.length ≤ s.wrote.length := slice_bound hslice (hears.le n rfl)
        refine ⟨rfl, ?_, nofun, nofun⟩
        rintro rs' ⟨⟩
        exact ⟨⟨hstate.trans hrs.ordered, ⟨_, ⟨hwf, hagrees, hread, hc.size⟩, fun _ => .chunk hears hoff hslice hle⟩,
          fun hx => absurd hx (by rw [hopen]; exact Bool.false_ne_true), hrs.code⟩, hopen⟩

/-- **A reader** hears what the sender has done. -/
theorem hear_follows {lengths : List ℕ} {heard : List Heard} (h : c.Follows s log)
    (hh : c.hear lengths = .ok (heard, c')) : c'.Follows s (log ++ heard) ∧ c'.id = c.id := by
  induction lengths generalizing c log heard with
  | nil =>
      cases hh
      rw [List.append_nil]
      exact ⟨h, rfl⟩
  | cons m lengths ih =>
      obtain ⟨res, c₁, rest, hn, hrest, rfl⟩ := Chunks.hear_cons hh
      obtain ⟨hfollows, hid⟩ := ih (h.next hn) hrest
      rw [← List.append_assoc]
      exact ⟨hfollows, hid.trans (Chunks.next_id hn)⟩

end Readers

/-! ## The table of receive halves -/

section Table

variable {past : StreamId → StreamPast} {logs : StreamId → List Heard} {f : StreamId → Option Recv} {id : StreamId}
  {st st' : StreamsState}

/-- One of the receive halves changes. -/
theorem RecvHalf.update {e : Option Recv} (h : ∀ i, RecvHalf (past i) (logs i) (f i))
    (he : RecvHalf (past id) (logs id) e) (i : StreamId) : RecvHalf (past i) (logs i) (Function.update f id e i) :=
  (Function.forall_update_iff f fun i e => RecvHalf (past i) (logs i) e).mpr ⟨he, fun i _ => h i⟩ i

/-- The half that a STREAM frame comes to. -/
theorem recvEntry_follows (h : ∀ i, RecvHalf (past i) (logs i) (st.recv i)) {frame : Stream} {rs : Recv}
    (he : st.recvEntry frame = some rs) : rs.Follows (past frame.id) (logs frame.id) := by
  have hframe := h frame.id
  rcases StreamsState.recvEntry_eq he with hs | ⟨hs, rfl, -⟩
  · rw [hs] at hframe
    exact hframe
  · rw [hs] at hframe
    exact .default hframe

/-- **A STREAM frame that is true** leaves the receive halves true. -/
theorem received_halves (h : ∀ i, RecvHalf (past i) (logs i) (st.recv i)) {frame : Stream} {payloadLen : ℕ}
    (hf : (RecvOp.ingest frame payloadLen).Carries (past frame.id).wrote)
    (hfin : frame.fin = true → (past frame.id).finished = true) {res : Except TransportError Unit}
    (hr : st.received frame payloadLen = .ok (res, st')) : ∀ i, RecvHalf (past i) (logs i) (st'.recv i) := by
  rcases StreamsState.received_cases hr with ⟨e, -, -, rfl⟩ | ⟨-, -, -, rfl⟩ | ⟨rs, -, he, -, -, rfl⟩ |
    ⟨rs, e, rs', hin, -, rfl⟩ | ⟨rs, v, rs', hin, -, hs⟩ | ⟨rs, n, rs', hin, -, hstopped, rfl⟩
  · exact h
  · exact h
  · exact RecvHalf.update (e := some rs) h (recvEntry_follows h he)
  · exact RecvHalf.update (e := some rs') h ((recvEntry_follows h hin.entry).ingest hf hfin hin.ingest).1
  · have hupdate := RecvHalf.update (e := some rs') h ((recvEntry_follows h hin.entry).ingest hf hfin hin.ingest).1
    rcases hs with rfl | rfl
    · exact hupdate
    · exact hupdate
  · have hfollows := ((recvEntry_follows h hin.entry).ingest hf hfin hin.ingest).1
    exact RecvHalf.update (e := none) h (hfollows.gone hstopped)

/-- **A RESET_STREAM frame that is true** leaves the receive halves true. -/
theorem receivedReset_halves (h : ∀ i, RecvHalf (past i) (logs i) (st.recv i)) {frame : ResetStream}
    (hcode : frame.errorCode ∈ (past frame.id).resets) :
    ∀ i, RecvHalf (past i) (logs i) ((st.receivedReset frame).2.recv i) := by
  have hreset := ((h frame.id).getD.reset hcode frame.finalOffset).1
  rcases st.receivedReset_cases frame rfl with ⟨e, -, hs⟩ | ⟨-, ⟨e, rs', hr, hs⟩ | ⟨rs', hr, hs⟩ | ⟨rs', hr, hst, hs⟩ |
    ⟨rs', hr, -, hs⟩⟩
  · rw [hs]
    exact h
  all_goals
    rw [hr] at hreset
    rw [hs]
  · exact RecvHalf.update (e := some rs') h hreset
  · exact RecvHalf.update (e := some rs') h hreset
  · exact RecvHalf.update (e := none) h (hreset.gone hst)
  · exact RecvHalf.update (e := some rs') h hreset

end Table

/-! ## Acts -/

/-- What an act brings to the streams is true, if the peer has the history `h`. -/
def StreamsAct.Honest (h : History) : StreamsAct → Prop
  | .op (.received frame _) => h.Says .data (.stream frame)
  | .op (.receivedReset frame) => h.Says .data (.resetStream frame)
  | .op (.receivedStopSending frame) => h.Says .data (.stopSending frame)
  | .op _ => True
  | .told e => e.ofConnection = true

/-- What the streams of a party, of which `logs` was heard, know of the peer is true. -/
structure StreamsState.Attends (h : History) (logs : StreamId → List Heard) (s : StreamsState) : Prop where
  halves : ∀ i, RecvHalf (h.streams i) (logs i) (s.recv i)
  stops : ∀ i errorCode, .stream (.stopped i errorCode) ∈ s.events → errorCode ∈ (h.streams i).stops

section Acts

variable {h h' : History} {logs : StreamId → List Heard}

theorem StreamsState.Attends.grows {s : StreamsState} (hs : s.Attends h logs)
    (hg : ∀ i, (h.streams i).Grows (h'.streams i)) : s.Attends h' logs :=
  ⟨fun i => (hs.halves i).grows (hg i), fun i errorCode he => (hg i).stops (hs.stops i errorCode he)⟩

/-- No stop is announced. -/
theorem StreamsState.Attends.steady {s s' : StreamsState} (hs : s.Attends h logs) (hst : s.Steady s')
    (hr : ∀ i, RecvHalf (h.streams i) (logs i) (s'.recv i)) : s'.Attends h logs := by
  obtain ⟨l, hl, hno⟩ := hst.events
  refine ⟨hr, fun i errorCode he => ?_⟩
  rw [hl] at he
  rcases List.mem_append.mp he with he | he
  · exact hs.stops i errorCode he
  · exact absurd he (hno i errorCode)

/-- **What happens to the streams apart from the calls of the application** leaves what they know true. -/
theorem actStep_attends {r r' : StreamsRun} {a : StreamsAct} (hr : r.state.Attends h logs) (hof : a.ofTask = true)
    (ha : a.Honest h) (hs : actStep r a = .ok r') : r'.state.Attends h logs := by
  cases a with
  | told e =>
      cases hs
      refine ⟨hr.halves, fun i errorCode he => ?_⟩
      rcases List.mem_append.mp he with he | he
      · exact hr.stops i errorCode he
      · obtain rfl := List.mem_singleton.mp he
        cases ha
  | op o =>
      have hs : streamsStep r o = .ok r' := hs
      have hmove : o.receives = false → (∀ frame, o ≠ .receivedStopSending frame) → (∀ dir, o ≠ .open dir) →
          r'.state.Attends h logs := by
        intro hrecv hstop hopen
        obtain ⟨es, honly, -⟩ := streamsStep_onlySend hs hrecv hopen
        refine hr.steady (streamsStep_steady hs hopen hstop) ?_
        rw [honly]
        exact hr.halves
      cases o with
      | received frame payloadLen =>
          refine hr.steady (streamsStep_steady hs nofun nofun) ?_
          obtain ⟨⟨res, s⟩, h1, hs⟩ := Checked.bind_eq_ok.mp hs
          cases hs
          obtain ⟨hdata, hstop, hfin⟩ := ha
          exact received_halves hr.halves ⟨hdata, hstop, fun hx => (hfin hx).2⟩ (fun hx => (hfin hx).1) h1
      | receivedReset frame =>
          refine hr.steady (streamsStep_steady hs nofun nofun) ?_
          cases hs
          exact receivedReset_halves hr.halves ha.1
      | receivedStopSending frame =>
          obtain ⟨es, honly, hes⟩ := streamsStep_onlySend hs rfl nofun
          refine ⟨by rw [honly]; exact hr.halves, fun i errorCode he => ?_⟩
          rw [honly.events] at he
          rcases List.mem_append.mp he with he | he
          · exact hr.stops i errorCode he
          · obtain ⟨e, he, heq⟩ := List.mem_map.mp he
            cases heq
            rcases hes _ he with ⟨j, hj⟩ | ⟨frame', hframe, hj⟩
            · cases hj
            · cases hframe
              cases hj
              exact ha
      | writeStreamFrames | receivedAckOf | retransmit => exact hmove rfl nofun nofun
      | _ => cases hof

end Acts

/-! ## Calls -/

section Calls

variable {h : History} {logs : StreamId → List Heard} {s s' : StreamsState} {id : StreamId}

/-- One of the receive halves changes, and something is heard of its stream. -/
theorem RecvHalf.hear {past : StreamId → StreamPast} {f : StreamId → Option Recv} {e : Option Recv} {log : List Heard}
    (h : ∀ i, RecvHalf (past i) (logs i) (f i)) (he : RecvHalf (past id) log e) (i : StreamId) :
    RecvHalf (past i) (Function.update logs id log i) (Function.update f id e i) := by
  by_cases hi : i = id
  · subst hi
    rw [Function.update_self, Function.update_self]
    exact he
  · rw [Function.update_of_ne hi, Function.update_of_ne hi]
    exact h i

/-- **`read`, and the calls of `next` that follow it.** -/
theorem readChunks_attends (hs : s.Attends h logs) {lengths : List ℕ} {heard : List Heard}
    (hread : s.readChunks id lengths = .ok s') (hh : s.hears id lengths = .ok heard) :
    s'.Attends h (Function.update logs id (logs id ++ heard)) := by
  have hhalf := hs.halves id
  -- nothing is read
  have hnothing : heard = [] → s' = s → s'.Attends h (Function.update logs id (logs id ++ heard)) := by
    rintro rfl rfl
    rw [List.append_nil, Function.update_eq_self]
    exact hs
  obtain ⟨⟨res, s₁⟩, h1, hread⟩ := Checked.bind_eq_ok.mp hread
  unfold StreamsState.hears at hh
  rw [h1, Checked.ok_bind] at hh
  unfold StreamsState.read at h1
  cases he : s.recv id with
  | none =>
      rw [he] at h1
      cases h1
      cases hread
      cases hh
      exact hnothing rfl rfl
  | some rs =>
      rw [he] at h1 hhalf
      have hrs : rs.Follows (h.streams id) (logs id) := hhalf
      dsimp only at h1
      split_ifs at h1 with hst
      · cases h1
        cases hread
        cases hh
        exact hnothing rfl rfl
      · rw [hrs.ordered] at h1
        cases h1
        dsimp only at hread hh
        obtain ⟨⟨heard', c'⟩, hhear, hh⟩ := Checked.bind_eq_ok.mp hh
        cases hh
        rw [Chunks.nexts_eq_hear, hhear, Checked.ok_bind, Checked.ok_bind] at hread
        cases hread
        have hopen : Chunks.Follows (h.streams id) (logs id) ⟨id, true, .readable rs, 0⟩ := by
          refine ⟨rfl, ?_, nofun, nofun⟩
          rintro rs' ⟨⟩
          exact ⟨hrs, Bool.eq_false_iff.mpr hst⟩
        obtain ⟨hfollows, hid⟩ := hear_follows hopen hhear
        have hdrop : (s.setRecv id none).dropChunks c' = s.setRecv id c'.state.recv := by
          rw [← show c'.id = id from hid]
          exact s.dropChunks_eq c'
        rw [hdrop]
        exact ⟨RecvHalf.hear hs.halves hfollows.half, hs.stops⟩

/-- **`stop`.** -/
theorem stop_attends (hs : s.Attends h logs) {pending pending' : Retransmits} {errorCode : ℕ}
    {res : Except ClosedStream Unit} (hstop : s.stop pending id errorCode = .ok (res, s', pending')) :
    (∀ u, res = .ok u → s'.Attends h (Function.update logs id (logs id ++ [.stopped]))) ∧
      ∀ e, res = .error e → s'.Attends h logs := by
  have hhalf := hs.halves id
  unfold StreamsState.stop at hstop
  cases he : s.recv id with
  | none =>
      rw [he] at hstop
      cases hstop
      exact ⟨nofun, fun _ _ => hs⟩
  | some rs =>
      rw [he] at hstop hhalf
      have hrs : rs.Follows (h.streams id) (logs id) := hhalf
      obtain ⟨⟨res', rs'⟩, h1, hstop⟩ := Checked.bind_eq_ok.mp hstop
      rcases hrs.stop h1 with ⟨-, e, rfl⟩ | ⟨⟨v, rfl⟩, hst, hfollows⟩
      · cases hstop
        exact ⟨nofun, fun _ _ => hs⟩
      · cases hstop
        refine ⟨fun _ _ => ⟨RecvHalf.hear hs.halves ?_, hs.stops⟩, nofun⟩
        split_ifs
        · exact hfollows
        · exact hfollows.gone hst

/-- **`received_reset`.** -/
theorem takeReset_attends (hs : s.Attends h logs) (id : StreamId) :
    (∀ errorCode, (s.takeReset id).1 = .ok (some errorCode) →
      (s.takeReset id).2.Attends h (Function.update logs id (logs id ++ [.reset errorCode]))) ∧
    ((∀ errorCode, (s.takeReset id).1 ≠ .ok (some errorCode)) → (s.takeReset id).2.Attends h logs) := by
  have hhalf := hs.halves id
  unfold StreamsState.takeReset
  cases he : s.recv id with
  | none => exact ⟨nofun, fun _ => hs⟩
  | some rs =>
      rw [he] at hhalf
      have hrs : rs.Follows (h.streams id) (logs id) := hhalf
      dsimp only
      split_ifs with hst
      · exact ⟨nofun, fun _ => hs⟩
      · cases hcode : rs.resetCode with
        | none => exact ⟨nofun, fun _ => hs⟩
        | some errorCode =>
            refine ⟨?_, fun hno => absurd rfl (hno errorCode)⟩
            rintro _ ⟨⟩
            refine ⟨RecvHalf.hear (e := none) hs.halves ?_, hs.stops⟩
            obtain ⟨n, -, hopen⟩ := hrs.carries
            refine .anew (.reset (hopen (Bool.eq_false_iff.mpr hst)) ?_)
            unfold Recv.resetCode at hcode
            split at hcode
            next size code hstate =>
              cases hcode
              exact hrs.code _ _ hstate
            next => cases hcode

/-- The receive halves are those of streams that were opened. -/
def StreamsState.RecvOpened (s : StreamsState) : Prop := ∀ id, (s.recv id).isSome → s.Opened id

/-- **`open`** makes a receive half where none was. -/
theorem open_attends (hs : s.Attends h logs) (ho : s.RecvOpened) (dir : Dir) : (s.open dir).2.Attends h logs := by
  cases dir with
  | uni => exact ⟨hs.halves, hs.stops⟩
  | bi =>
      suffices h0 : RecvHalf (h.streams (s.open .bi).1) (logs (s.open .bi).1) (some Recv.default) from
        ⟨RecvHalf.update hs.halves h0, hs.stops⟩
      have hhalf := hs.halves (s.open .bi).1
      have hnone : s.recv (s.open .bi).1 = none := by
        rw [← Option.not_isSome_iff_eq_none]
        intro hsome
        have hlt := (ho _ hsome (StreamId.initiator_new ..)).2
        change (StreamId.new s.side .bi (s.next .bi)).index < _ at hlt
        rw [StreamId.index_new] at hlt
        exact absurd hlt (lt_irrefl _)
      rw [hnone] at hhalf
      exact Recv.Follows.default hhalf

/-- The entries are among those before, and that of `id`. -/
theorem StreamsState.RecvOpened.update (ho : s.RecvOpened) {e : Option Recv}
    (hr : s'.recv = Function.update s.recv id e) (hside : s'.side = s.side) (hnext : s'.next .bi = s.next .bi)
    (hid : e.isSome → s.Opened id) : s'.RecvOpened := by
  intro i hi
  refine StreamsState.Opened.congr ?_ hside hnext
  rw [hr] at hi
  by_cases hii : i = id
  · subst hii
    rw [Function.update_self] at hi
    exact hid hi
  · rw [Function.update_of_ne hii] at hi
    exact ho i hi

/-- **Every operation** makes receive halves only of streams that were opened. -/
theorem RecvMove.recvOpened {op : StreamsOp} {chunks : List Chunk} (h : RecvMove s op s' chunks) (ho : s.RecvOpened) :
    s'.RecvOpened := by
  cases h with
  | same h =>
      intro i hi
      rw [h.recv] at hi
      exact (ho i hi).congr h.side h.next
  | opened hop hs =>
      subst hs
      intro i hi
      by_cases hii : i = (s.open .bi).1
      · subst hii
        intro _
        refine ⟨StreamId.dir_new .., ?_⟩
        change (StreamId.new s.side .bi (s.next .bi)).index < _
        rw [StreamId.index_new, (s.open_next .bi).2, Function.update_self]
        exact Nat.lt_succ_self _
      · have hi : (Function.update s.recv (s.open .bi).1 (some Recv.default) i).isSome := hi
        rw [Function.update_of_ne hii] at hi
        intro hside
        obtain ⟨hdir, hlt⟩ := ho i hi hside
        refine ⟨hdir, hlt.trans_le ?_⟩
        rw [(s.open_next .bi).2, Function.update_self]
        exact Nat.le_succ _
  | made id hid hn hop hwf hread hs ha =>
      refine ho.update hs ha.side ha.next fun _ => ?_
      cases op with
      | received frame payloadLen =>
          cases hid
          exact fun hside => absurd hside hop.1
      | receivedReset frame =>
          cases hid
          exact .of_valid hop
      | _ => cases hop
  | kept id hid he hwf hsize hs ha => exact ho.update hs ha.side ha.next fun _ => ho id (by rw [he]; rfl)
  | discarded id hid he hs =>
      subst hs
      exact ho.update rfl rfl rfl nofun
  | read id hid he hc hs =>
      subst hs
      exact ho.update rfl rfl rfl fun _ => ho id (by rw [he]; rfl)

end Calls

/-! ## Parties -/

/-- What was heard of each stream. -/
def History.heard (h : History) (i : StreamId) : List Heard := (h.streams i).heard

theorem History.heard_modify {h : History} {id : StreamId} {f : StreamPast → StreamPast} {log : List Heard}
    (hf : (f (h.streams id)).heard = log) : (h.modify id f).heard = Function.update h.heard id log := by
  funext i
  unfold heard
  by_cases hi : i = id
  · subst hi
    rw [modify_self, Function.update_self, hf]
  · rw [modify_of_ne _ hi, Function.update_of_ne hi]

/-- Nothing is heard but by the calls of the receive side. -/
theorem History.note_heard {h h' : History} {c : Connection} {op : ConnectionOp} (hop : op.reads = false)
    (hn : h.note c op = .ok h') : h'.heard = h.heard := by
  have hsame : ∀ id f, (f (h.streams id)).heard = h.heard id → (h.modify id f).heard = h.heard := by
    intro id f hf
    rw [heard_modify hf, Function.update_eq_self]
  cases op with
  | read | stop | takeReset => cases hop
  | openStream dir =>
      cases hn
      exact hsame _ _ rfl
  | write id data =>
      dsimp only [note] at hn
      split at hn
      · cases hn
        rfl
      · split at hn <;> cases hn <;> exact hsame _ _ rfl
  | finish id | reset id errorCode =>
      dsimp only [note] at hn
      split at hn <;> cases hn
      · exact hsame _ _ rfl
      · rfl
  | _ =>
      cases hn
      rfl

/-- What a party knows of the peer is true. -/
def Party.Attends (p q : Party) : Prop := p.conn.streams.Attends q.past p.past.heard

section Parties

variable {p p' q : Party} {op : ConnectionOp}

/-- **What arrives from an honest peer** brings nothing that is not true. -/
theorem ConnectionOp.Does.honest {r : StreamsRun} {a : StreamsAct} (hd : op.Does p.conn r a) (hq : q.Honest)
    (hs : q.Sends op) (hop : op.call p.conn = none) : a.Honest q.past := by
  have hpacket : ∀ {packet : Packet} {w : ScheduledPacket}, w ∈ q.past.wire → packetOf w.packet = some packet →
      packet.Does p.conn a → a.Honest q.past := by
    intro packet w hw hdecode hdoes
    obtain ⟨fs, packet', hreads, htrue⟩ := hq.wire w hw
    obtain rfl : packet' = packet := Option.some.inj (hreads.decode.symm.trans hdecode)
    have hsaid : ∀ {f : Frame}, packet'.Reads f → q.past.Says w.metaInfo.spaceId f :=
      fun hf => htrue _ (PayloadReads.mem hf hreads.spells)
    cases hdoes with
    | received hs hf => exact hsaid hf
    | receivedReset hs hf => exact hsaid hf
    | receivedStopSending hs hf => exact hsaid hf
    | acked | lost => trivial
    | told he => exact he
  cases hd with
  | sent | lost => trivial
  | packet hdecode hdoes =>
      obtain ⟨w, hw, hdata⟩ := hs
      exact hpacket hw (by rw [hdata]; exact hdecode) hdoes
  | first hdoes =>
      obtain ⟨w, hw, hdecode⟩ := hs
      exact hpacket hw hdecode hdoes
  | call hcall =>
      rw [hop] at hcall
      cases hcall

/-- **The calls of the application** leave what is known of the peer true. -/
theorem partyStep_call_attends {sop : StreamsOp} {h : History} (ho : p.conn.streams.RecvOpened)
    (hA : p.conn.streams.Attends h p.past.heard) (hop : op.call p.conn = some sop) (hstep : partyStep p op = .ok p') :
    p'.conn.streams.Attends h p'.past.heard := by
  obtain ⟨hc, hn⟩ := partyStep_eq_ok.mp hstep
  obtain ⟨r', hr', hs, -⟩ := call_streams hop hc (r := ⟨p.conn.streams, fun _ => [], [], []⟩) rfl
  rw [← hs]
  -- a call of the send side
  have hsend : sop.receives = false → (∀ dir, sop ≠ .open dir) → (∀ frame, sop ≠ .receivedStopSending frame) →
      r'.state.Attends h p.past.heard := by
    intro hrecv hopen hstop
    obtain ⟨es, honly, -⟩ := streamsStep_onlySend hr' hrecv hopen
    refine hA.steady (streamsStep_steady hr' hopen hstop) ?_
    rw [honly]
    exact hA.halves
  cases op with
  | read id lengths =>
      cases hop
      obtain ⟨s, hread, hr'⟩ := Checked.bind_eq_ok.mp hr'
      obtain ⟨heard, hh, hn⟩ := Checked.bind_eq_ok.mp hn
      cases hr'
      obtain hpast := Except.ok.inj hn
      rw [← hpast, History.heard_modify rfl]
      exact readChunks_attends hA hread hh
  | stop id errorCode =>
      cases hop
      obtain ⟨⟨res, s, pending⟩, hstop, hr'⟩ := Checked.bind_eq_ok.mp hr'
      obtain ⟨q, hstop', hn⟩ := Checked.bind_eq_ok.mp hn
      obtain rfl := Except.ok.inj (hstop'.symm.trans hstop)
      cases hr'
      have hafter := stop_attends hA hstop
      cases res with
      | ok u =>
          obtain hpast := Except.ok.inj hn
          rw [← hpast, History.heard_modify rfl]
          exact hafter.1 u rfl
      | error e =>
          obtain hpast := Except.ok.inj hn
          rw [← hpast]
          exact hafter.2 e rfl
  | takeReset id =>
      cases hop
      cases hr'
      have hafter := takeReset_attends hA id
      dsimp only [History.note] at hn
      split at hn
      next errorCode hcode =>
        rw [← Except.ok.inj hn, History.heard_modify rfl]
        exact hafter.1 errorCode hcode
      next hno =>
        rw [← Except.ok.inj hn]
        exact hafter.2 hno
  | openStream dir =>
      cases hop
      cases hr'
      rw [History.note_heard rfl hn]
      exact open_attends hA ho dir
  | write | finish | reset | setPriority =>
      cases hop
      rw [History.note_heard rfl hn]
      exact hsend rfl nofun nofun
  | _ => cases hop

/-- **A step of a party** leaves what it knows of the peer true. -/
theorem partyStep_attends (hp : p.Honest) (hq : q.Honest) (ho : p.conn.streams.RecvOpened) (hA : p.Attends q)
    (hsends : q.Sends op) (h : partyStep p op = .ok p') : p'.Attends q := by
  cases hop : op.call p.conn with
  | some sop => exact partyStep_call_attends ho hA hop h
  | none =>
      obtain ⟨hc, hn⟩ := partyStep_eq_ok.mp h
      unfold Party.Attends
      have hheard : p'.past.heard = p.past.heard := by
        unfold History.heard
        rw [History.note_streams hop hn]
      rw [hheard]
      exact connectionStep_streams (J := fun s => s.Attends q.past p.past.heard) hp.accounted hp.framed hc
        (fun r a r' hd hJ hs => actStep_attends hJ (hd.ofTask hop) (hd.honest hq hsends hop) hs) hA

theorem partyStep_recvOpened (hp : p.Honest) (ho : p.conn.streams.RecvOpened) (h : partyStep p op = .ok p') :
    p'.conn.streams.RecvOpened := by
  refine connectionStep_streams (J := StreamsState.RecvOpened) hp.accounted hp.framed (partyStep_eq_ok.mp h).1
    (fun r a r' _ hJ hs => ?_) ho
  cases a with
  | told e =>
      cases hs
      exact hJ
  | op o =>
      obtain ⟨chunks, -, hmove⟩ := streamsStep_recvMove (show streamsStep r o = .ok r' from hs)
      exact hmove.recvOpened hJ

end Parties

/-! ## Runs -/

/-- The bytes of what was heard. -/
def Heard.bytes : Heard → Bytes
  | .chunk c => c.bytes
  | _ => []

def Heard.isChunk : Heard → Bool
  | .chunk _ => true
  | _ => false

/-- What was heard earlier was true, too. -/
theorem StreamPast.Hears.before {s : StreamPast} {log before : List Heard} {pos : Option ℕ} (h : s.Hears log pos)
    (hb : before <+: log) : ∃ pos', s.Hears before pos' := by
  induction h with
  | start =>
      obtain rfl := List.prefix_nil.mp hb
      exact ⟨_, .start⟩
  | chunk h hoff hbytes hle ih =>
      rcases List.prefix_concat_iff.mp hb with rfl | hb
      · exact ⟨_, .chunk h hoff hbytes hle⟩
      · exact ih hb
  | finished h hf hn ih =>
      rcases List.prefix_concat_iff.mp hb with rfl | hb
      · exact ⟨_, .finished h hf hn⟩
      · exact ih hb
  | reset h hcode ih =>
      rcases List.prefix_concat_iff.mp hb with rfl | hb
      · exact ⟨_, .reset h hcode⟩
      · exact ih hb
  | stopped h ih =>
      rcases List.prefix_concat_iff.mp hb with rfl | hb
      · exact ⟨_, .stopped h⟩
      · exact ih hb
  | again h ih =>
      rcases List.prefix_concat_iff.mp hb with rfl | hb
      · exact ⟨_, .again h⟩
      · exact ih hb
  | anew h ih => exact ih hb

/-- What comes before the end of the stream. -/
theorem before_finished {log before after : List Heard} {x : Heard} (h : log ++ [x] = before ++ .finished :: after) :
    log = before ∧ x = .finished ∨ ∃ after', log = before ++ .finished :: after' := by
  rcases List.eq_nil_or_concat after with rfl | ⟨after', y, rfl⟩
  · obtain ⟨h1, h2⟩ := List.append_inj' h rfl
    exact .inl ⟨h1, List.head_eq_of_cons_eq h2⟩
  · rw [List.concat_eq_append, ← List.cons_append, ← List.append_assoc] at h
    exact .inr ⟨after', (List.append_inj' h rfl).1⟩

/-- As long as there are only chunks, they are what was written from the beginning on; if the end follows them, they are
all of it. -/
theorem StreamPast.Hears.bytes {s : StreamPast} {log : List Heard} {pos : Option ℕ} (h : s.Hears log pos) :
    ((∀ x ∈ log, x.isChunk) → pos = some (log.flatMap Heard.bytes).length ∧
      log.flatMap Heard.bytes = s.wrote.take (log.flatMap Heard.bytes).length) ∧
    ∀ before after, log = before ++ .finished :: after → (∀ x ∈ before, x.isChunk) →
      s.finished = true ∧ before.flatMap Heard.bytes = s.wrote := by
  -- what ends the stream is no chunk
  have hended : ∀ {log : List Heard} {x : Heard}, x.isChunk = false → ¬ ∀ y ∈ log ++ [x], y.isChunk := by
    intro log x hx hall
    rw [hall x (List.mem_append_right _ List.mem_cons_self)] at hx
    cases hx
  induction h with
  | start => exact ⟨fun _ => ⟨rfl, rfl⟩, fun before after he => by cases before <;> cases he⟩
  | @chunk log n c h hoff hbytes hle ih =>
      refine ⟨fun hall => ?_, fun before after he hb => ?_⟩
      · obtain ⟨hn, htake⟩ := ih.1 fun x hx => hall x (List.mem_append_left _ hx)
        obtain rfl := Option.some.inj hn
        rw [List.flatMap_append, List.length_append]
        have hone : [Heard.chunk c].flatMap Heard.bytes = c.bytes := List.append_nil _
        rw [hone]
        refine ⟨rfl, ?_⟩
        conv_lhs => rw [htake]
        exact take_append_slice hbytes rfl
      · rcases before_finished he with ⟨-, hx⟩ | ⟨after', he⟩
        · cases hx
        · exact ih.2 before after' he hb
  | @finished log n h hf hn ih =>
      refine ⟨fun hall => absurd hall (hended rfl), fun before after he hb => ?_⟩
      rcases before_finished he with ⟨rfl, -⟩ | ⟨after', he⟩
      · obtain ⟨hlen, htake⟩ := ih.1 hb
        obtain rfl := Option.some.inj hlen
        rw [hn, List.take_length] at htake
        exact ⟨hf, htake⟩
      · exact ih.2 before after' he hb
  | reset h hcode ih | stopped h ih =>
      refine ⟨fun hall => absurd hall (hended rfl), fun before after he hb => ?_⟩
      rcases before_finished he with ⟨-, hx⟩ | ⟨after', he⟩
      · cases hx
      · exact ih.2 before after' he hb
  | again h ih =>
      refine ⟨fun hall => ?_, fun before after he hb => ?_⟩
      · obtain ⟨hnone, -⟩ := ih.1 fun x hx => hall x (List.mem_append_left _ hx)
        cases hnone
      · rcases before_finished he with ⟨rfl, -⟩ | ⟨after', he⟩
        · obtain ⟨hnone, -⟩ := ih.1 hb
          cases hnone
        · exact ih.2 before after' he hb
  | anew h ih =>
      refine ⟨fun hall => ?_, ih.2⟩
      obtain ⟨hnone, -⟩ := ih.1 hall
      cases hnone

/-- What is heard of a stream agrees with its sender. -/
theorem RecvHalf.hears {s : StreamPast} {log : List Heard} {e : Option Recv} (h : RecvHalf s log e) :
    ∃ pos, s.Hears log pos := by
  cases e with
  | none => exact ⟨some 0, h⟩
  | some rs =>
      obtain ⟨n, -, hopen⟩ := Recv.Follows.carries h
      cases hst : rs.stopped with
      | true => exact ⟨none, Recv.Follows.stopped h hst⟩
      | false => exact ⟨some n, hopen hst⟩

theorem Party.attends_new (now : Instant) (side : Side) (q : Party) : (Party.new now side).Attends q where
  halves := fun i => by cases side <;> exact StreamPast.Hears.start
  stops := fun i errorCode he => by cases side <;> cases he

theorem Party.recvOpened_new (now : Instant) (side : Side) : (Party.new now side).conn.streams.RecvOpened :=
  fun id hid => by cases side <;> cases hid

/-- **Runs of a client and a server.** Both stay honest, and what they know of each other is true. -/
theorem network_attends (start : Side → Instant) (ops : List (Side × ConnectionOp)) (f : Side → Party)
    (hm : Meets network.step (network.Legal fun p _ op => op.Proper p) (network.start start) ops)
    (h : run network.step (network.start start) ops = .ok f) (side : Side) :
    (f side).Honest ∧ (f side).Attends (f side.peer) := by
  have hrun := Exchange.run_inv (e := network) (L := fun _ p => p.Honest ∧ p.conn.streams.RecvOpened)
    (V := fun _ p q => p.Attends q)
    (fun _ p q op p' hp hop hs => ⟨partyStep_honest hp.1 hop hs, partyStep_recvOpened hp.1 hp.2 hs⟩)
    (fun _ p q op p' hp hq hA hB hsends hop hs => ⟨partyStep_attends hp.1 hq.1 hp.2 hA hsends hs,
      StreamsState.Attends.grows hB (partyStep_grows hp.1 hop hs).streams⟩)
    (fun i => ⟨Party.honest_new (start i) i, Party.recvOpened_new (start i) i⟩)
    (fun i => Party.attends_new (start i) i _) hm h side
  exact ⟨hrun.1.1, hrun.2⟩

/-- **What either end of a connection hears is what the other has done**, in every run of a client and a server whose
applications make no send half a second time and whose polls cut no range that they send, whatever the network loses,
duplicates, delays or reorders. What is heard of a stream agrees with its sender; the chunks before the first end of
the stream make up a prefix of what was written, and all of it if that end is not a reset, and then the sender has
finished the stream; and a stop that is announced was asked for with that code. -/
theorem delivered_end_to_end (start : Side → Instant) (ops : List (Side × ConnectionOp)) (f : Side → Party)
    (hm : Meets network.step (network.Legal fun p _ op => op.Proper p) (network.start start) ops)
    (h : run network.step (network.start start) ops = .ok f) (side : Side) (id : StreamId) :
    let sender := (f side.peer).past.streams id
    let heard := ((f side).past.streams id).heard
    (∃ pos, sender.Hears heard pos) ∧
    (∀ before after, heard = before ++ after → (∀ x ∈ before, x.isChunk) →
      before.flatMap Heard.bytes <+: sender.wrote) ∧
    (∀ before after, heard = before ++ .finished :: after → (∀ x ∈ before, x.isChunk) →
      before.flatMap Heard.bytes = sender.wrote ∧ sender.finished = true) ∧
    ∀ errorCode, .stream (.stopped id errorCode) ∈ (f side).conn.streams.events → errorCode ∈ sender.stops := by
  have hA := (network_attends start ops f hm h side).2
  obtain ⟨pos, hears⟩ := (hA.halves id).hears
  refine ⟨⟨pos, hears⟩, fun before after he hb => ?_, fun before after he hb => (hears.bytes.2 before after he hb).symm,
    hA.stops id⟩
  obtain ⟨pos', hears'⟩ := hears.before (show before <+: _ from ⟨after, he.symm⟩)
  exact List.prefix_iff_eq_take.mpr (hears'.bytes.1 hb).2

/-- Three bytes and the end of the stream cross the network; a copy of the first packet comes after them. -/
theorem delivered_end_to_end_three : ∃ f : Side → Party,
    ((f .server).past.streams ⟨0⟩).heard = [.chunk ⟨0, [1, 2, 3]⟩, .finished] ∧
    ((f .client).past.streams ⟨0⟩).wrote = [1, 2, 3] ∧ ((f .client).past.streams ⟨0⟩).finished = true := by
  let short (bytes : Bytes) : Bytes := 64 :: fakeCid.bytes ++ bytes
  let hello : InitialPacket := ⟨⟨fakeCid, fakeCid, [], .u8 0, 1⟩, [6, 0, 1, 0]⟩
  let ops : List (Side × ConnectionOp) :=
    [(.client, .openStream .bi), (.client, .write ⟨0⟩ [1, 2, 3]), (.client, .pollTransmit 1), (.client, .sendOne 1),
      (.client, .sendOne 1), (.client, .finish ⟨0⟩), (.client, .pollTransmit 1), (.client, .sendOne 1),
      (.server, .handleFirstPacket 2 hello), (.server, .handleData 3 (short [0, 10, 0, 3, 1, 2, 3])),
      (.server, .handleData 3 (short [1, 15, 0, 3, 0])), (.server, .handleData 3 (short [0, 10, 0, 3, 1, 2, 3])),
      (.server, .read ⟨0⟩ [8, 8])]
  obtain ⟨f, hf, hv⟩ := Checked.map_eq_ok.mp (show (fun f : Side → Party => ((f .server).past.streams ⟨0⟩).heard) <$>
    run network.step (network.start fun _ => 0) ops = .ok [.chunk ⟨0, [1, 2, 3]⟩, .finished] by decide +kernel)
  obtain ⟨-, -, hend, -⟩ := delivered_end_to_end (fun _ => 0) ops f (by decide +kernel) hf .server ⟨0⟩
  obtain ⟨hwrote, hfinished⟩ := hend [.chunk ⟨0, [1, 2, 3]⟩] [] hv fun x hx => by rw [List.mem_singleton.mp hx]; rfl
  exact ⟨f, hv, hwrote.symm, hfinished⟩

end MzQuic
