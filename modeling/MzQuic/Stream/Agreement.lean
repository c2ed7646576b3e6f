import MzQuic.Stream.Closed
import MzQuic.Stream.Moves

/-!
# Sender and receiver agree on the final size (`core/src/connection/stream/state.rs`, `recv.rs`, `send.rs`)

One send half, from its creation until its entry is removed, and the streams of the other side. Whatever
the sender has emitted on the stream may arrive at any time, any number of times or never.

* `AgreeRun`: the streams of both sides, with the STREAM and RESET_STREAM frames that were emitted;
* `Sends`: every frame ends within what was written, and a FIN or a reset tells its length, which is
  fixed by then;
* `Recv.Fits`: the receiver has seen nothing else;
* **`final_size_agreed`**: `received` and `received_reset` never return an error.
-/

namespace MzQuic

open Lib

/-! ## Two sides -/

/-- The streams of both sides, and what was emitted on the stream `id`. -/
structure AgreeRun where
  sender : StreamsRun
  receiver : StreamsRun
  metas : List StreamMeta
  resets : List ResetStream

/-- A step of either side, or of the network. -/
inductive AgreeOp
  | send (op : StreamsOp)
  /-- A RESET_STREAM frame is written, as in `write_control_frames`. -/
  | sendReset (errorCode : ℕ)
  | recv (op : StreamsOp)
  | deliver (m : StreamMeta) (payloadLen : ℕ)
  | deliverReset (frame : ResetStream)

/-- One step, for the stream `id`. -/
def agreeStep (id : StreamId) (r : AgreeRun) : AgreeOp → Checked AgreeRun
  | .send op => do
    let sender ← streamsStep r.sender op
    let metas ← op.emits r.sender.state
    return { r with sender := sender, metas := r.metas ++ metas.filter (·.id = id) }
  | .sendReset errorCode =>
    match r.sender.state.send id with
    | none => .ok r
    | some stream => .ok { r with resets := r.resets ++ [⟨id, errorCode, stream.offset⟩] }
  | .recv op => do
    let receiver ← streamsStep r.receiver op
    return { r with receiver := receiver }
  | .deliver m payloadLen => do
    let receiver ← streamsStep r.receiver (.received (m.frame (r.sender.wrote id)) payloadLen)
    return { r with receiver := receiver }
  | .deliverReset frame => do
    let receiver ← streamsStep r.receiver (.receivedReset frame)
    return { r with receiver := receiver }

/-- The sender does not make the stream again, and writes less than `2 ^ 62` bytes to it. -/
def StreamsOp.Within (id : StreamId) (r : StreamsRun) : StreamsOp → Prop
  | .open dir => (r.state.open dir).1 ≠ id
  | .write _ i data => i = id → (r.wrote id ++ data).length < 2 ^ 62
  | _ => True

instance (id : StreamId) (r : StreamsRun) : ∀ op : StreamsOp, Decidable (op.Within id r)
  | .open dir => inferInstanceAs (Decidable ((r.state.open dir).1 ≠ id))
  | .write _ i data => inferInstanceAs (Decidable (i = id → (r.wrote id ++ data).length < 2 ^ 62))
  | .finish _ | .reset .. | .setPriority .. | .read .. | .stop .. | .takeReset _ | .received ..
  | .receivedReset _ | .receivedStopSending _ | .resetAcked _ | .writeStreamFrames ..
  | .receivedAckOf _ | .retransmit _ => .isTrue trivial

/-- The sender works on the stream while its entry is there, and writes RESET_STREAM frames after a reset;
what arrives was emitted, on a stream of the sender or one that the receiver has opened. -/
def AgreeOp.Legal (id : StreamId) (r : AgreeRun) : AgreeOp → Prop
  | .send op => (r.sender.state.send id).isSome ∧ op.Within id r.sender
  | .sendReset _ => ∀ stream ∈ r.sender.state.send id, stream.state = .resetSent
  | .recv op => op.recvId r.receiver.state = some id → op.isFrame = false
  | .deliver m _ => m ∈ r.metas ∧ r.receiver.state.Opened id
  | .deliverReset frame => frame ∈ r.resets ∧ r.receiver.state.Opened id

instance (s : StreamsState) (id : StreamId) : Decidable (s.Opened id) :=
  inferInstanceAs (Decidable (id.initiator = s.side → id.dir = .bi ∧ id.index < s.next .bi))

instance AgreeOp.decidableLegal (id : StreamId) (r : AgreeRun) : ∀ op : AgreeOp, Decidable (op.Legal id r)
  | .send op => inferInstanceAs (Decidable ((r.sender.state.send id).isSome ∧ op.Within id r.sender))
  | .sendReset _ => inferInstanceAs (Decidable (∀ stream ∈ r.sender.state.send id, stream.state = .resetSent))
  | .recv op => inferInstanceAs (Decidable (op.recvId r.receiver.state = some id → op.isFrame = false))
  | .deliver m _ => inferInstanceAs (Decidable (m ∈ r.metas ∧ r.receiver.state.Opened id))
  | .deliverReset frame => inferInstanceAs (Decidable (frame ∈ r.resets ∧ r.receiver.state.Opened id))

/-- The stream was just made, and the receiver is fresh. -/
structure AgreeRun.Fresh (id : StreamId) (r : AgreeRun) : Prop where
  entry : r.sender.state.send id = some Send.default
  wrote : r.sender.wrote id = []
  receiver : r.receiver = StreamsRun.new r.receiver.state.side
  metas : r.metas = []
  resets : r.resets = []

/-! ## The sender -/

/-- Nothing more is written to the send half. -/
def Sealed (e : Option Send) : Prop := ∀ stream ∈ e, stream.state ≠ .ready

/-- What was emitted on the stream `id`, on which `W` was written, and what is left of its send half. -/
structure Sends (id : StreamId) (W : Bytes) (e : Option Send) (metas : List StreamMeta)
    (resets : List ResetStream) : Prop where
  wf : ∀ stream ∈ e, stream.pending.WF W
  fin : ∀ stream ∈ e, stream.finPending = true → stream.state ≠ .ready
  metas : ∀ m ∈ metas, m.id = id ∧ m.offsets.start ≤ m.offsets.end ∧ m.offsets.end ≤ W.length ∧
    (m.fin = true → m.offsets.end = W.length ∧ Sealed e)
  resets : ∀ frame ∈ resets, frame.id = id ∧ frame.finalOffset = W.length ∧ Sealed e

variable {id : StreamId} {W : Bytes} {e e' : Option Send} {stream : Send} {metas : List StreamMeta}
  {resets : List ResetStream}

/-- The send half changes, but not what was written. -/
theorem Sends.update (h : Sends id W e metas resets) (hwf : ∀ stream ∈ e', stream.pending.WF W)
    (hfin : ∀ stream ∈ e', stream.finPending = true → stream.state ≠ .ready) (hs : Sealed e → Sealed e') :
    Sends id W e' metas resets where
  wf := hwf
  fin := hfin
  metas := fun m hm => by
    obtain ⟨h1, h2, h3, h4⟩ := h.metas m hm
    exact ⟨h1, h2, h3, fun hf => ⟨(h4 hf).1, hs (h4 hf).2⟩⟩
  resets := fun frame hf => by
    obtain ⟨h1, h2, h3⟩ := h.resets frame hf
    exact ⟨h1, h2, hs h3⟩

/-- The send half is no longer in the state `Ready`. -/
theorem Sends.leave (h : Sends id W e metas resets) {stream' : Send} (hp : stream'.pending.WF W)
    (hst : stream'.state ≠ .ready) : Sends id W (some stream') metas resets := by
  refine h.update (fun x hx => ?_) (fun x hx _ => ?_) (fun _ x hx => ?_)
  · cases hx
    exact hp
  · cases hx
    exact hst
  · cases hx
    exact hst

/-- The send half changes in neither its state nor what it holds. -/
theorem Sends.congr (h : Sends id W e metas resets) {stream stream' : Send} (he : e = some stream)
    (hp : stream'.pending.WF W) (hst : stream'.state = stream.state)
    (hfin : stream'.finPending = true → stream.finPending = true) :
    Sends id W (some stream') metas resets := by
  refine h.update (fun x hx => ?_) (fun x hx hf => ?_) (fun hs x hx => ?_)
  · cases hx
    exact hp
  · cases hx
    rw [hst]
    exact h.fin stream he (hfin hf)
  · cases hx
    rw [hst]
    exact hs stream he

/-- More is written while nothing has told the length. -/
theorem Sends.write (h : Sends id W (some stream) metas resets) (hst : stream.state = .ready) (data : Bytes) :
    Sends id (W ++ data) (some { stream with pending := stream.pending.write data }) metas resets := by
  have hopen : ¬ Sealed (some stream) := fun hs => hs stream rfl hst
  constructor
  · intro x hx
    cases hx
    exact (h.wf stream rfl).write data
  · intro x hx hf
    cases hx
    exact h.fin stream rfl hf
  · intro m hm
    obtain ⟨h1, h2, h3, h4⟩ := h.metas m hm
    refine ⟨h1, h2, ?_, fun hf => absurd (h4 hf).2 hopen⟩
    rw [List.length_append]
    omega
  · intro frame hf
    exact absurd (h.resets frame hf).2.2 hopen

/-- A round of `write_stream_frames`. -/
theorem streamTurn_sends {fair : Bool} {s s' : StreamsState} {buf buf' : BufMut} {t : StreamsState.Turn}
    {ms : List StreamMeta} (h : Sends id W (s.send id) (metas ++ ms.filter (·.id = id)) resets)
    (ht : StreamsState.streamTurn fair s buf = .ok (t, s', buf')) :
    Sends id W (s'.send id) (metas ++ (ms ++ t.metas).filter (·.id = id)) resets := by
  obtain ⟨hmetas, hs⟩ | ⟨m, stream, enc, hp, hms⟩ := StreamsState.streamTurn_polls ht
  · rwa [hmetas, List.append_nil, hs]
  -- a stream that is polled keeps its state
  have hsame : Sends id W (s'.send id) (metas ++ ms.filter (·.id = id)) resets := by
    rw [hp.send]
    by_cases hid : id = m.id
    · subst hid
      rw [Function.update_self]
      obtain ⟨-, hc, -, -⟩ := SendBuffer.pollTransmit_ok hp.polled
      obtain ⟨h1, h2⟩ := clampNew_ok hc
      refine h.congr hp.entry ((h.wf stream hp.entry).sent h1 h2).1 rfl fun hf => ?_
      exact (Bool.and_eq_true_iff.mp hf).1
    · rw [Function.update_of_ne hid]
      exact h
  obtain hms | ⟨hms, -⟩ := hms
  · refine ⟨hsame.wf, hsame.fin, fun x hx => ?_, hsame.resets⟩
    rw [hms, List.filter_append, ← List.append_assoc, List.mem_append] at hx
    rcases hx with hx | hx
    · exact hsame.metas x hx
    · obtain ⟨hx, hid⟩ := List.mem_filter.mp hx
      rw [List.mem_singleton] at hx
      subst hx
      have hid : x.id = id := of_decide_eq_true hid
      subst hid
      obtain ⟨-, hc, hstart, -⟩ := SendBuffer.pollTransmit_ok hp.polled
      obtain ⟨h1, h2⟩ := clampNew_ok hc
      have hwf := h.wf stream hp.entry
      have hoff := hwf.offset
      have hle := (SendBuffer.nextRange_bounds hwf).2
      refine ⟨rfl, by omega, by omega, fun hf => ?_⟩
      rw [hp.fin, Bool.and_eq_true, decide_eq_true_eq] at hf
      refine ⟨hf.2.trans hoff, fun y hy => ?_⟩
      rw [hp.send, Function.update_self] at hy
      cases hy
      exact h.fin stream hp.entry hf.1
  · rwa [hms, List.append_nil]

theorem Sends.sent {fair : Bool} {s s' : StreamsState} {buf buf' : BufMut} {ms : List StreamMeta}
    (h : Sends id W (s.send id) metas resets) (hw : s.writeStreamFrames buf fair = .ok (ms, s', buf')) :
    Sends id W (s'.send id) (metas ++ ms.filter (·.id = id)) resets :=
  StreamsState.writeStreamFrames_inv
    (I := fun ms s _ => Sends id W (s.send id) (metas ++ ms.filter (·.id = id)) resets)
    (fun _ _ _ _ _ _ hI _ ht => streamTurn_sends hI ht) (by rwa [List.filter_nil, List.append_nil])
    (StreamsState.TurnsMeet.trivial ..) hw

theorem Send.acked_ne_ready (stream : Send) (m : StreamMeta) (pending : SendBuffer) (h : stream.state ≠ .ready) :
    (stream.acked m pending).state ≠ .ready := by
  unfold Send.acked
  dsimp only
  split
  · exact SendState.noConfusion
  · exact h

/-- **An operation of the sender that emits nothing.** -/
theorem Sends.quiet {r r' : StreamsRun} {op : StreamsOp} (h : Sends id (r.wrote id) (r.state.send id) metas resets)
    (hsome : (r.state.send id).isSome) (hopen : ∀ dir, op = .open dir → (r.state.open dir).1 ≠ id)
    (hno : ∀ buf fair, op ≠ .writeStreamFrames buf fair) (hstep : streamsStep r op = .ok r') :
    Sends id (r'.wrote id) (r'.state.send id) metas resets := by
  -- another stream changes
  have hother : ∀ {s : StreamsState} {i : StreamId} {x : Option Send}, i ≠ id →
      s.send = Function.update r.state.send i x → Sends id (r.wrote id) (s.send id) metas resets := by
    intro s i x hi hs
    rw [hs, Function.update_of_ne hi.symm]
    exact h
  cases streamsStep_move hstep with
  | same hop hs hd =>
      dsimp only
      rw [hs]
      exact h
  | @tuned _ s i stream stream' hop he hs hst hp hfin =>
      by_cases hi : i = id
      · subst hi
        dsimp only
        rw [hs, Function.update_self]
        exact h.congr he (by rw [hp]; exact h.wf stream he) hst (by rw [hfin]; exact fun x => x)
      · exact hother hi hs
  | opened dir => exact hother (hopen dir rfl) (StreamsState.open_send r.state dir)
  | @written s i data hst hs =>
      by_cases hi : i = id
      · subst hi
        obtain ⟨stream, he⟩ := Option.isSome_iff_exists.mp hsome
        rw [he, Option.getD_some] at hst hs
        rw [he] at h
        dsimp only
        rw [hs, Function.update_self, Function.update_self]
        exact h.write hst data
      · dsimp only
        rw [Function.update_of_ne (Ne.symm hi)]
        exact hother hi hs
  | @finished s i stream hok he hst hs =>
      by_cases hi : i = id
      · subst hi
        dsimp only
        rw [hs, Function.update_self]
        exact h.leave (h.wf stream he) SendState.noConfusion
      · exact hother hi hs
  | @reset s i errorCode stream he hs =>
      by_cases hi : i = id
      · subst hi
        dsimp only
        rw [hs, Function.update_self]
        exact h.leave (h.wf stream he) SendState.noConfusion
      · exact hother hi hs
  | @dropped s i hs =>
      by_cases hi : i = id
      · subst hi
        dsimp only
        rw [hs, Function.update_self]
        exact h.update nofun nofun (fun _ => nofun)
      · exact hother hi hs
  | sent buf fair hw => exact absurd rfl (hno buf fair)
  | @acked s m stream pending he hlive hp hs =>
      by_cases hi : m.id = id
      · subst hi
        dsimp only
        rcases hs with hs | hs
        · rw [hs, Function.update_self]
          exact h.update nofun nofun (fun _ => nofun)
        · rw [hs, Function.update_self]
          refine h.update (fun x hx => ?_) (fun x hx hf => ?_) (fun hsl x hx => ?_)
          · cases hx
            exact ((h.wf stream he).ack hp).1
          · cases hx
            exact stream.acked_ne_ready m pending (h.fin stream he hf)
          · cases hx
            exact stream.acked_ne_ready m pending (hsl stream he)
      · rcases hs with hs | hs
        · exact hother hi hs
        · exact hother hi hs
  | @lost s m stream pending he hlive hp hs =>
      by_cases hi : m.id = id
      · subst hi
        dsimp only
        rw [hs, Function.update_self]
        exact h.congr he ((h.wf stream he).retransmit hp).2.1 rfl fun x => x
      · exact hother hi hs
  | ackIgnored m hg | lossIgnored m hg => exact h

/-- **An operation of the sender.** -/
theorem Sends.step {r r' : StreamsRun} {op : StreamsOp} {ms : List StreamMeta}
    (h : Sends id (r.wrote id) (r.state.send id) metas resets) (hsome : (r.state.send id).isSome)
    (hopen : ∀ dir, op = .open dir → (r.state.open dir).1 ≠ id) (hs : streamsStep r op = .ok r')
    (hms : op.emits r.state = .ok ms) :
    Sends id (r'.wrote id) (r'.state.send id) (metas ++ ms.filter (·.id = id)) resets := by
  by_cases hop : ∃ buf fair, op = .writeStreamFrames buf fair
  · obtain ⟨buf, fair, rfl⟩ := hop
    obtain ⟨⟨ms', s', buf'⟩, hw, hs⟩ := Checked.bind_eq_ok.mp hs
    obtain ⟨p, hw', hms⟩ := Checked.bind_eq_ok.mp hms
    rw [hw] at hw'
    cases hw'
    cases hms
    cases hs
    exact h.sent hw
  · have hnil : ms = [] := by
      cases op with
      | writeStreamFrames buf fair => exact absurd ⟨buf, fair, rfl⟩ hop
      | _ =>
          cases hms
          rfl
    rw [hnil, List.filter_nil, List.append_nil]
    exact h.quiet hsome hopen (fun buf fair he => hop ⟨buf, fair, he⟩) hs

/-! ## The receiver -/

/-- The receive half has seen a part of `n` bytes, and a final size only once it is `n` and fixed. -/
structure Recv.Fits (n : ℕ) (fixed : Prop) (rs : Recv) : Prop where
  wf : rs.assembler.WF
  le : rs.end ≤ n
  size : ∀ k, rs.finalOffset = some k → k = n ∧ fixed

variable {n : ℕ} {fixed : Prop} {rs rs' : Recv}

theorem Recv.Fits.default : Recv.default.Fits n fixed := ⟨Recv.default_wf, Nat.zero_le n, nofun⟩

/-- Nothing of what decides about errors changes. -/
theorem Recv.Fits.congr (h : rs.Fits n fixed) (hwf : rs'.assembler.WF) (hst : rs'.state = rs.state)
    (hend : rs'.end = rs.end) : rs'.Fits n fixed :=
  ⟨hwf, by rw [hend]; exact h.le, by rw [Recv.finalOffset_congr hst]; exact h.size⟩

/-- A frame that fits is accepted. -/
theorem Recv.Fits.sizeError (h : rs.Fits n fixed) {stop : ℕ} {fin : Bool} (hstop : stop ≤ n)
    (hfin : fin = true → stop = n ∧ fixed) : rs.sizeError stop fin = false := by
  rw [Bool.eq_false_iff]
  intro he
  obtain ⟨k, hk, herr⟩ := Recv.sizeError_eq_true.mp he
  obtain ⟨rfl, -⟩ := h.size k hk
  rcases herr with hlt | ⟨hf, hne⟩
  · omega
  · exact hne (hfin hf).1

theorem Recv.Fits.ingest (h : rs.Fits n fixed) (hn : n < 2 ^ 62) {frame : Stream} {payloadLen : ℕ}
    (hstop : frame.offset + frame.data.length ≤ n)
    (hfin : frame.fin = true → frame.offset + frame.data.length = n ∧ fixed)
    {res : Except TransportError (ℕ × Bool)} (hi : rs.ingest frame payloadLen = .ok (res, rs')) :
    (∃ v, res = .ok v) ∧ rs'.Fits n fixed := by
  have hok := h.sizeError hstop hfin
  obtain ⟨-, -, hlarge | herr⟩ | ⟨-, -, hres, hend, -, hst, -⟩ := Recv.ingest_cases hi
  · omega
  · rw [hok] at herr
    cases herr
  · refine ⟨⟨_, hres⟩, (Recv.ingest_wf h.wf hi).1, ?_, fun k hk => ?_⟩
    · rw [hend]
      exact max_le h.le hstop
    · split_ifs at hst with hset
      · simp only [Bool.and_eq_true] at hset
        unfold Recv.finalOffset at hk
        rw [hst] at hk
        cases hk
        exact hfin hset.1.1
      · rw [Recv.finalOffset_congr hst] at hk
        exact h.size k hk

theorem Recv.Fits.reset (h : rs.Fits n fixed) (hfixed : fixed) (errorCode : ℕ) :
    (∃ b, (rs.reset errorCode n).1 = .ok b) ∧ (rs.reset errorCode n).2.Fits n fixed := by
  obtain ⟨-, ⟨k, hk, hne⟩ | ⟨-, hlt⟩⟩ | ⟨he, -⟩ | ⟨he, -⟩ := rs.reset_cases errorCode n
  · exact absurd (h.size k hk).1.symm hne
  · exact absurd h.le (Nat.not_le_of_lt hlt)
  · rw [he]
    exact ⟨⟨false, rfl⟩, h⟩
  · rw [he]
    exact ⟨⟨true, rfl⟩, h.wf.clear, h.le, fun k hk => by cases hk; exact ⟨rfl, hfixed⟩⟩

theorem StreamsState.Opened.valid {s : StreamsState} (h : s.Opened id) : s.validateReceiveId id = .ok () := by
  unfold validateReceiveId
  by_cases hside : s.side = id.initiator
  · obtain ⟨hd, hi⟩ := h hside.symm
    rw [if_pos hside, hd]
    exact if_neg (Nat.not_le_of_lt hi)
  · rw [if_neg hside]

theorem StreamsState.setRecv_self (s : StreamsState) (id : StreamId) (x : Option Recv) :
    (s.setRecv id x).recv id = x := Function.update_self ..

/-- **A STREAM frame that fits.** -/
theorem StreamsState.received_fits {s s' : StreamsState} {frame : Stream} {payloadLen : ℕ}
    {res : Except TransportError Unit} (hv : s.validateReceiveId frame.id = .ok ()) (hn : n < 2 ^ 62)
    (hs : ∀ rs ∈ s.recv frame.id, rs.Fits n fixed) (hstop : frame.offset + frame.data.length ≤ n)
    (hfin : frame.fin = true → frame.offset + frame.data.length = n ∧ fixed)
    (h : s.received frame payloadLen = .ok (res, s')) :
    res = .ok () ∧ ∀ rs ∈ s'.recv frame.id, rs.Fits n fixed := by
  have hentry : ∀ {rs}, s.recvEntry frame = some rs → rs.Fits n fixed := by
    intro rs he
    obtain he | ⟨-, rfl, -⟩ := recvEntry_eq he
    · exact hs rs he
    · exact .default
  have hput : ∀ {rs : Recv}, rs.Fits n fixed → ∀ x ∈ (s.setRecv frame.id (some rs)).recv frame.id,
      x.Fits n fixed := by
    intro rs hrs x hx
    rw [setRecv_self] at hx
    cases hx
    exact hrs
  obtain ⟨e, he, -⟩ | ⟨-, -, hres, rfl⟩ | ⟨rs, -, he, -, hres, rfl⟩ | ⟨rs, e, rs', hin, -, rfl⟩ |
    ⟨rs, v, rs', hin, hres, rfl | rfl⟩ | ⟨rs, k, rs', hin, hres, -, rfl⟩ := received_cases h
  · rw [hv] at he
    cases he
  · exact ⟨hres, hs⟩
  · exact ⟨hres, hput (hentry he)⟩
  · obtain ⟨⟨v, hv⟩, -⟩ := (hentry hin.entry).ingest hn hstop hfin hin.ingest
    cases hv
  · exact ⟨hres, hput ((hentry hin.entry).ingest hn hstop hfin hin.ingest).2⟩
  · exact ⟨hres, hput ((hentry hin.entry).ingest hn hstop hfin hin.ingest).2⟩
  · refine ⟨hres, fun x hx => ?_⟩
    rw [setRecv_self] at hx
    cases hx

/-- A STREAM frame does not make `received` panic, if it does not begin inside a buffered segment of its entry and
the counter of allocated bytes has room for it. -/
theorem StreamsState.received_returns {s : StreamsState} {frame : Stream} {payloadLen : ℕ}
    (hs : ∀ rs ∈ s.recv frame.id, rs.assembler.WF) (hlen : frame.data.length ≤ payloadLen)
    (hap : ∀ rs ∈ s.recvEntry frame, rs.assembler.Apart frame.offset frame.data ∧
      rs.assembler.Room frame.offset frame.data payloadLen) : ∃ p, s.received frame payloadLen = .ok p := by
  unfold received
  cases s.validateReceiveId frame.id with
  | error e => exact ⟨_, rfl⟩
  | ok u =>
  cases he : s.recvEntry frame with
  | none => exact ⟨_, rfl⟩
  | some rs =>
      have hwf : rs.assembler.WF := by
        obtain hold | ⟨-, rfl, -⟩ := recvEntry_eq he
        · exact hs rs hold
        · exact Recv.default_wf
      have hi : ∃ p, rs.ingest frame payloadLen = .ok p := by
        obtain ⟨a, ha, -⟩ := Assembler.insert_total hwf hlen (hap rs he).1 (hap rs he).2
        unfold Recv.ingest
        dsimp only
        rw [ha]
        split_ifs <;> exact ⟨_, rfl⟩
      obtain ⟨⟨res, rs'⟩, hi⟩ := hi
      dsimp only
      split_ifs
      · exact ⟨_, rfl⟩
      · rw [hi, Checked.ok_bind]
        rcases res with e | ⟨k, closed⟩
        · exact ⟨_, rfl⟩
        · dsimp only
          split_ifs <;> exact ⟨_, rfl⟩

/-- **A RESET_STREAM frame that tells the size.** -/
theorem StreamsState.receivedReset_fits {s : StreamsState} {frame : ResetStream}
    (hv : s.validateReceiveId frame.id = .ok ()) (hs : ∀ rs ∈ s.recv frame.id, rs.Fits n fixed)
    (hsize : frame.finalOffset = n) (hfixed : fixed) : (s.receivedReset frame).1 = .ok () ∧
      ∀ rs ∈ (s.receivedReset frame).2.recv frame.id, rs.Fits n fixed := by
  have hentry : ((s.recv frame.id).getD Recv.default).Fits n fixed := by
    cases he : s.recv frame.id with
    | none => exact .default
    | some rs => exact hs rs he
  subst hsize
  obtain ⟨⟨b, hb⟩, hnew⟩ := hentry.reset hfixed frame.errorCode
  have hput : ∀ rs' : Recv, rs' = (((s.recv frame.id).getD Recv.default).reset frame.errorCode
      frame.finalOffset).2 → ∀ x ∈ (s.setRecv frame.id (some rs')).recv frame.id,
      x.Fits frame.finalOffset fixed := by
    intro rs' hrs' x hx
    rw [setRecv_self] at hx
    cases hx
    rw [hrs']
    exact hnew
  obtain ⟨e, hv', -⟩ | ⟨-, ⟨e, rs', hr, hs⟩ | ⟨rs', hr, hs⟩ | ⟨rs', hr, hst, hs⟩ | ⟨rs', hr, -, hs⟩⟩ :=
    s.receivedReset_cases frame rfl
  · rw [hv] at hv'
    cases hv'
  · rw [hr] at hb
    cases hb
  · rw [hs]
    exact ⟨rfl, hput rs' (by rw [hr])⟩
  · rw [hs]
    refine ⟨rfl, fun x hx => ?_⟩
    rw [setRecv_self] at hx
    cases hx
  · rw [hs]
    exact ⟨rfl, hput rs' (by rw [hr])⟩

/-- **An operation of the receiver** other than a frame of the stream. -/
theorem StreamsState.recv_fits {s s' : StreamsState} {op : StreamsOp} {chunks : List Chunk}
    (h : RecvMove s op s' chunks) (hop : op.recvId s = some id → op.isFrame = false)
    (hs : ∀ rs ∈ s.recv id, rs.Fits n fixed) : ∀ rs ∈ s'.recv id, rs.Fits n fixed := by
  -- one entry changes, and if it is ours then it fits
  have hput : ∀ {i : StreamId} {x : Option Recv}, s'.recv = Function.update s.recv i x →
      (i = id → ∀ rs ∈ x, rs.Fits n fixed) → ∀ rs ∈ s'.recv id, rs.Fits n fixed := by
    intro i x hs' hx
    rw [hs']
    by_cases hi : i = id
    · subst hi
      rw [Function.update_self]
      exact hx rfl
    · rw [Function.update_of_ne (Ne.symm hi)]
      exact hs
  cases h with
  | same h =>
      rw [h.recv]
      exact hs
  | opened hop' hs' => exact hput (by rw [hs']; rfl) fun _ x hx => by cases hx; exact .default
  | made i hi hn hmake hwf hread hs' ha =>
      refine hput hs' fun hid => ?_
      subst hid
      have hframe := hop hi
      cases op with
      | received frame payloadLen => cases hframe
      | receivedReset frame => cases hframe
      | _ => exact hmake.elim
  | kept i hi he hwf hsize hs' ha =>
      refine hput hs' fun hid x hx => ?_
      subst hid
      cases hx
      obtain ⟨hst, hend⟩ := hsize (hop hi)
      exact (hs _ he).congr (hwf (hs _ he).wf).1 hst hend
  | discarded i hi he hs' => exact hput (x := none) (by rw [hs']; rfl) fun _ => nofun
  | read i hi he hc hs' =>
      refine hput (by rw [hs']; rfl) fun hid x hx => ?_
      subst hid
      obtain ⟨-, hlast⟩ := Chunks.collect_spec rfl (fun y hy => by cases hy; exact ⟨(hs _ he).wf, rfl⟩) hc
      obtain ⟨⟨hwf, -⟩, y, hy, hst, hend, -⟩ := hlast x hx
      cases hy
      exact (hs _ he).congr hwf hst hend

/-- What the receiver has seen fits after an operation of the sender too: it is what a STREAM frame and a
RESET_STREAM frame could have told it. -/
theorem Recv.Fits.step {r r' : StreamsRun} {op : StreamsOp} {ms : List StreamMeta}
    (h : rs.Fits (r.wrote id).length (Sealed (r.state.send id)))
    (hsends : Sends id (r.wrote id) (r.state.send id) metas resets) (hsome : (r.state.send id).isSome)
    (hopen : ∀ dir, op = .open dir → (r.state.open dir).1 ≠ id) (hs : streamsStep r op = .ok r')
    (hms : op.emits r.state = .ok ms) : rs.Fits (r'.wrote id).length (Sealed (r'.state.send id)) := by
  have hknown : Sends id (r.wrote id) (r.state.send id) [⟨id, ⟨0, rs.end⟩, false⟩]
      (rs.finalOffset.toList.map fun k => ⟨id, 0, k⟩) := by
    refine ⟨hsends.wf, hsends.fin, fun m hm => ?_, fun frame hf => ?_⟩
    · rw [List.mem_singleton] at hm
      subst hm
      exact ⟨rfl, Nat.zero_le _, h.le, nofun⟩
    · obtain ⟨k, hk, rfl⟩ := List.mem_map.mp hf
      exact ⟨rfl, h.size k (Option.mem_toList.mp hk)⟩
  have hknown' := hknown.step hsome hopen hs hms
  refine ⟨h.wf, ?_, fun k hk => ?_⟩
  · exact (hknown'.metas ⟨id, ⟨0, rs.end⟩, false⟩ (by simp)).2.2.1
  · exact (hknown'.resets ⟨id, 0, k⟩ (by simp [hk])).2

/-! ## Steps and runs -/

/-- The invariant of a run. -/
structure AgreeRun.Inv (id : StreamId) (r : AgreeRun) : Prop where
  bound : (r.sender.wrote id).length < 2 ^ 62
  sends : Sends id (r.sender.wrote id) (r.sender.state.send id) r.metas r.resets
  recv : ∀ rs ∈ r.receiver.state.recv id,
    rs.Fits (r.sender.wrote id).length (Sealed (r.sender.state.send id))

theorem AgreeRun.Fresh.inv {r : AgreeRun} (h : r.Fresh id) : r.Inv id where
  bound := by rw [h.wrote]; decide
  sends := by
    rw [h.entry, h.wrote, h.metas, h.resets]
    refine ⟨fun x hx => ?_, fun x hx hf => ?_, nofun, nofun⟩
    · cases hx
      exact SendBuffer.WF.default
    · cases hx
      cases hf
  recv := by
    rw [h.receiver]
    exact nofun

/-- The frame of an emitted range ends where the range ends. -/
theorem Sends.frame_stop (h : Sends id W e metas resets) {m : StreamMeta} (hm : m ∈ metas) :
    (m.frame W).id = id ∧ (m.frame W).offset + (m.frame W).data.length ≤ W.length ∧
      ((m.frame W).fin = true → (m.frame W).offset + (m.frame W).data.length = W.length ∧ Sealed e) := by
  obtain ⟨h1, h2, h3, h4⟩ := h.metas m hm
  have hlen : (m.frame W).offset + (m.frame W).data.length = m.offsets.end := by
    rw [StreamMeta.frame]
    dsimp only
    rw [List.length_take, List.length_drop]
    omega
  rw [hlen]
  exact ⟨h1, h3, h4⟩

/-- How much was written after an operation of the sender. -/
theorem streamsStep_wrote {r r' : StreamsRun} {op : StreamsOp} (h : streamsStep r op = .ok r') (id : StreamId) :
    r'.wrote id = r.wrote id ∨ ∃ closed data, op = .write closed id data ∧ r'.wrote id = r.wrote id ++ data := by
  cases streamsStep_move h with
  | @written s i data hst hs =>
      by_cases hi : i = id
      · subst hi
        exact .inr ⟨false, data, rfl, Function.update_self ..⟩
      · exact .inl (Function.update_of_ne (Ne.symm hi) _ _)
  | _ => exact .inl rfl

/-- **One step keeps the invariant.** -/
theorem agreeStep_inv (r : AgreeRun) (op : AgreeOp) (r' : AgreeRun) (hI : r.Inv id) (hop : op.Legal id r)
    (h : agreeStep id r op = .ok r') : r'.Inv id := by
  cases op with
  | send op =>
      obtain ⟨sender, hs, h⟩ := Checked.bind_eq_ok.mp h
      obtain ⟨ms, hms, h⟩ := Checked.bind_eq_ok.mp h
      cases h
      obtain ⟨hsome, hcond⟩ := hop
      have hopen : ∀ dir, op = .open dir → (r.sender.state.open dir).1 ≠ id := by
        rintro dir rfl
        exact hcond
      refine ⟨?_, hI.sends.step hsome hopen hs hms, fun rs hrs => ?_⟩
      · obtain hw | ⟨closed, data, rfl, hw⟩ := streamsStep_wrote hs id
        · dsimp only
          rw [hw]
          exact hI.bound
        · dsimp only
          rw [hw]
          exact hcond rfl
      · exact (hI.recv rs hrs).step hI.sends hsome hopen hs hms
  | sendReset errorCode =>
      unfold agreeStep at h
      cases he : r.sender.state.send id with
      | none =>
          rw [he] at h
          cases h
          exact hI
      | some stream =>
          rw [he] at h
          cases h
          have hsealed : Sealed (r.sender.state.send id) := fun x hx => by
            rw [hop x hx]
            exact SendState.noConfusion
          refine ⟨hI.bound, ⟨hI.sends.wf, hI.sends.fin, hI.sends.metas, fun frame hf => ?_⟩, hI.recv⟩
          rcases List.mem_append.mp hf with hf | hf
          · exact hI.sends.resets frame hf
          · rw [List.mem_singleton] at hf
            subst hf
            exact ⟨rfl, (hI.sends.wf stream he).offset, hsealed⟩
  | recv op =>
      obtain ⟨receiver, hs, h⟩ := Checked.bind_eq_ok.mp h
      cases h
      obtain ⟨chunks, -, hm⟩ := streamsStep_recvMove hs
      exact ⟨hI.bound, hI.sends, StreamsState.recv_fits hm hop hI.recv⟩
  | deliver m payloadLen =>
      obtain ⟨receiver, hs, h⟩ := Checked.bind_eq_ok.mp h
      cases h
      obtain ⟨⟨res, s⟩, hrecv, hs⟩ := Checked.bind_eq_ok.mp hs
      cases hs
      obtain ⟨hid, hstop, hfin⟩ := hI.sends.frame_stop hop.1
      have hfits := StreamsState.received_fits (by rw [hid]; exact hop.2.valid) hI.bound
        (by rw [hid]; exact hI.recv) hstop hfin hrecv
      rw [hid] at hfits
      exact ⟨hI.bound, hI.sends, hfits.2⟩
  | deliverReset frame =>
      obtain ⟨receiver, hs, h⟩ := Checked.bind_eq_ok.mp h
      cases h
      cases hs
      obtain ⟨hid, hsize, hsealed⟩ := hI.sends.resets frame hop.1
      have hfits := StreamsState.receivedReset_fits (by rw [hid]; exact hop.2.valid)
        (by rw [hid]; exact hI.recv) hsize hsealed
      rw [hid] at hfits
      exact ⟨hI.bound, hI.sends, hfits.2⟩

/-- **Sender and receiver agree on the final size.** In every run of a send half that was just made, with a
fresh receiver, no emitted STREAM or RESET_STREAM frame that arrives next is answered with an error; and
`received` returns `Ok`, unless the frame begins inside a segment that the assembler holds or overflows its counter of
allocated bytes. -/
theorem final_size_agreed (id : StreamId) (start : AgreeRun) (hstart : start.Fresh id) (ops : List AgreeOp)
    {r : AgreeRun} (hm : Meets (agreeStep id) (fun r op => op.Legal id r) start ops)
    (h : run (agreeStep id) start ops = .ok r) (hopen : r.receiver.state.Opened id) :
    (∀ m ∈ r.metas, ∀ payloadLen,
      (∀ res s', r.receiver.state.received (m.frame (r.sender.wrote id)) payloadLen = .ok (res, s') →
        res = .ok ()) ∧
      ((m.frame (r.sender.wrote id)).data.length ≤ payloadLen →
        (∀ rs ∈ r.receiver.state.recvEntry (m.frame (r.sender.wrote id)),
          rs.assembler.Apart m.offsets.start (m.frame (r.sender.wrote id)).data ∧
            rs.assembler.Room m.offsets.start (m.frame (r.sender.wrote id)).data payloadLen) →
        ∃ s', r.receiver.state.received (m.frame (r.sender.wrote id)) payloadLen = .ok (.ok (), s'))) ∧
    ∀ frame ∈ r.resets, (r.receiver.state.receivedReset frame).1 = .ok () := by
  have hI : r.Inv id := run_inv agreeStep_inv hstart.inv hm h
  refine ⟨fun m hmem payloadLen => ?_, fun frame hf => ?_⟩
  · obtain ⟨hid, hstop, hfin⟩ := hI.sends.frame_stop hmem
    have hok : ∀ res s', r.receiver.state.received (m.frame (r.sender.wrote id)) payloadLen = .ok (res, s') →
        res = .ok () := fun res s' hrecv =>
      (StreamsState.received_fits (by rw [hid]; exact hopen.valid) hI.bound (by rw [hid]; exact hI.recv)
        hstop hfin hrecv).1
    refine ⟨hok, fun hlen hap => ?_⟩
    obtain ⟨⟨res, s'⟩, hrecv⟩ := StreamsState.received_returns
      (by rw [hid]; exact fun rs hrs => (hI.recv rs hrs).wf) hlen hap
    rw [hok res s' hrecv] at hrecv
    exact ⟨s', hrecv⟩
  · obtain ⟨hid, hsize, hsealed⟩ := hI.sends.resets frame hf
    exact (StreamsState.receivedReset_fits (by rw [hid]; exact hopen.valid)
      (by rw [hid]; exact hI.recv) hsize hsealed).1

/-- Three bytes and a FIN are sent, the stream is reset, and everything arrives. -/
theorem final_size_agreed_three : ∃ (start : AgreeRun) (ops : List AgreeOp) (r : AgreeRun),
    run (agreeStep ⟨0⟩) start ops = .ok r ∧ r.metas = [⟨⟨0⟩, ⟨0, 3⟩, false⟩, ⟨⟨0⟩, ⟨3, 3⟩, true⟩] ∧
    r.resets = [⟨⟨0⟩, 7, 3⟩] ∧
    (∀ m ∈ r.metas, ∀ payloadLen,
      (∀ res s', r.receiver.state.received (m.frame (r.sender.wrote ⟨0⟩)) payloadLen = .ok (res, s') →
        res = .ok ()) ∧
      ((m.frame (r.sender.wrote ⟨0⟩)).data.length ≤ payloadLen →
        (∀ rs ∈ r.receiver.state.recvEntry (m.frame (r.sender.wrote ⟨0⟩)),
          rs.assembler.Apart m.offsets.start (m.frame (r.sender.wrote ⟨0⟩)).data ∧
            rs.assembler.Room m.offsets.start (m.frame (r.sender.wrote ⟨0⟩)).data payloadLen) →
        ∃ s', r.receiver.state.received (m.frame (r.sender.wrote ⟨0⟩)) payloadLen = .ok (.ok (), s'))) ∧
    ∀ frame ∈ r.resets, (r.receiver.state.receivedReset frame).1 = .ok () := by
  let start : AgreeRun := ⟨⟨((StreamsState.new .client).open .bi).2, fun _ => [], [], []⟩, .new .server, [], []⟩
  let ops : List AgreeOp := [.send (.write false ⟨0⟩ [1, 2, 3]), .send (.writeStreamFrames ⟨[], 100⟩ true),
    .send (.finish ⟨0⟩), .send (.writeStreamFrames ⟨[], 100⟩ true), .deliver ⟨⟨0⟩, ⟨0, 3⟩, false⟩ 9,
    .deliver ⟨⟨0⟩, ⟨3, 3⟩, true⟩ 9, .send (.reset ⟨0⟩ 7), .sendReset 7, .deliverReset ⟨⟨0⟩, 7, 3⟩,
    .deliver ⟨⟨0⟩, ⟨0, 3⟩, false⟩ 9]
  have hstart : start.Fresh ⟨0⟩ := ⟨rfl, rfl, rfl, rfl, rfl⟩
  obtain ⟨r, hr, hv⟩ := Checked.map_eq_ok.mp (show (fun r : AgreeRun => (r.metas, r.resets,
      decide (r.receiver.state.Opened ⟨0⟩))) <$> run (agreeStep ⟨0⟩) start ops =
    .ok ([⟨⟨0⟩, ⟨0, 3⟩, false⟩, ⟨⟨0⟩, ⟨3, 3⟩, true⟩], [⟨⟨0⟩, 7, 3⟩], true) by decide +kernel)
  obtain ⟨hmetas, hv⟩ := Prod.mk.inj hv
  obtain ⟨hresets, hopen⟩ := Prod.mk.inj hv
  exact ⟨start, ops, r, hr, hmetas, hresets,
    final_size_agreed ⟨0⟩ start hstart ops (by decide +kernel) hr (of_decide_eq_true hopen)⟩

end MzQuic
