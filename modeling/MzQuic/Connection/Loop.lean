import MzQuic.Connection.Lifecycle
import MzQuic.Connection.Timers

/-!
# The loop of `run_connection`

The channel of events is unbounded, and only the loop reads it. So the events that were sent are the
events of the streams, those that were handed to the application are the first ones of them, and the
rest are waiting.

* `LoopTurn`, `Task`, `taskStep`: the loop, with the inputs of each of its turns;
* `taskStep_steps`, **`run_task`**: a run of the loop is a run of `connectionStep`, of which no step is
  taken by a drained connection;
* `closesData`: a datagram with a CLOSE frame that is reached;
* **`events_delivered`**: when the loop is left, all events were delivered if and only if no CLOSE frame was
  reached.
-/

namespace MzQuic

open Lib

/-- What `transport_handler` can call. -/
def ConnectionOp.ofHandler : ConnectionOp → Bool
  | .close .. => true
  | op => op.isCall

/-- The inputs of one turn of the loop. -/
structure LoopTurn where
  /-- The time at the beginning. -/
  now : Instant
  /-- When the `n`-th packet of the queue is sent. -/
  sendTime : ℕ → Instant
  /-- When the `select!` returns. -/
  woken : Instant
  /-- What `transport_handler` calls, if it is given an event. -/
  calls : List ConnectionOp
  calls_ofHandler : ∀ op ∈ calls, op.ofHandler = true
  /-- The datagram that waits in `data_rx`, with the time at which it was received. -/
  data : Option (Instant × Bytes)

/-- The state of `run_connection`: the connection, and the events that were given to
`transport_handler`. -/
structure Task where
  c : Connection
  delivered : List Event

namespace Connection

/-- The first inner loop of `run_connection`, which polls at most `n` times. -/
def pollLoop (now : Instant) : ℕ → Connection → Checked Connection
  | 0, c => .ok c
  | n + 1, c => do
    let (more, c) ← c.pollTransmit now
    if more then pollLoop now n c else return c

/-- The second inner loop of `run_connection`, which sends every packet of the queue. -/
def sendLoop (sendTime : ℕ → Instant) (c : Connection) : Connection :=
  (List.range c.path.sendingQueue.length).foldl (fun c n => c.sendOne (sendTime n)) c

end Connection

namespace Task

/-- The events that wait in `events_rx`. -/
def queue (t : Task) : List Event := t.c.streams.events.drop t.delivered.length

/-- The inner loops of a turn. -/
def transmit (t : Task) (turn : LoopTurn) : Checked Task := do
  let c ← Connection.pollLoop turn.now 128 t.c
  return { t with c := c.sendLoop turn.sendTime }

/-- The `select!` of a turn, which is biased: an event comes before a timer, and a timer before a
datagram. -/
def select (t : Task) (turn : LoopTurn) : Checked Task :=
  match t.queue with
  | event :: _ => do
    let c ← run connectionStep t.c turn.calls
    return ⟨c, t.delivered ++ [event]⟩
  | [] =>
    if (t.c.timers.poll turn.woken).isSome then do
      let c ← t.c.pollTimers turn.woken
      return { t with c := c }
    else
      match turn.data with
      | some (now, data) => do
        let c ← t.c.handleData now data
        return { t with c := c }
      | none => return t

end Task

/-- One turn of the loop, unless it has been left. -/
def taskStep (t : Task) (turn : LoopTurn) : Checked Task :=
  if t.c.state.isDrained then .ok t
  else do
    let t ← t.transmit turn
    t.select turn

open Connection

/-! ## The loop takes the steps of a connection -/

/-- The connection comes to be `c'` by steps of its task, none of which a drained connection takes. -/
def Steps (c c' : Connection) : Prop :=
  ∃ ops : List ConnectionOp, (∀ op ∈ ops, op.inTask = true) ∧
    Meets connectionStep (fun c _ => c.state ≠ .drained) c ops ∧ run connectionStep c ops = .ok c'

section Steps

variable {c c' : Connection}

theorem Steps.refl (c : Connection) : Steps c c := ⟨[], nofun, trivial, rfl⟩

theorem Steps.single (op : ConnectionOp) (hop : op.inTask = true) (hd : c.state ≠ .drained)
    (h : connectionStep c op = .ok c') : Steps c c' := by
  refine ⟨[op], fun o ho => by rwa [List.mem_singleton.mp ho], ⟨hd, fun _ _ => trivial⟩, ?_⟩
  rw [run_cons, h]
  rfl

theorem Steps.trans {c₁ c₂ c₃ : Connection} (h : Steps c₁ c₂) (h' : Steps c₂ c₃) : Steps c₁ c₃ := by
  obtain ⟨ops, hops, hm, hr⟩ := h
  obtain ⟨ops', hops', hm', hr'⟩ := h'
  refine ⟨ops ++ ops', fun op hop => ?_, hm.append hr hm', ?_⟩
  · rcases List.mem_append.mp hop with hop | hop
    · exact hops op hop
    · exact hops' op hop
  · rw [run_append, hr]
    exact hr'

/-- **What the steps of a task keep.** -/
theorem Steps.inv {I : Connection → Prop}
    (hstep : ∀ c op c', I c → op.inTask = true → c.state ≠ .drained → connectionStep c op = .ok c' → I c')
    (h : Steps c c') (hc : I c) : I c' := by
  obtain ⟨ops, hops, hm, hr⟩ := h
  exact run_inv (fun c op c' hx hok hs => hstep c op c' hx hok.1 hok.2 hs) hc (Meets.and (Meets.of_forall hops) hm) hr

theorem pollLoop_steps {now : Instant} {n : ℕ} (hd : c.state ≠ .drained) (h : pollLoop now n c = .ok c') :
    Steps c c' ∧ Still c c' := by
  induction n generalizing c with
  | zero =>
      cases h
      exact ⟨.refl _, .refl _⟩
  | succ n ih =>
      obtain ⟨⟨more, c₁⟩, h1, h⟩ := Checked.bind_eq_ok.mp h
      have hstill := (pollTransmit_outer h1).still
      have hstep : Steps c c₁ := by
        refine .single (.pollTransmit now) rfl hd ?_
        rw [connectionStep, h1]
        rfl
      cases more with
      | false =>
          cases h
          exact ⟨hstep, hstill⟩
      | true =>
          obtain ⟨hs, hst⟩ := ih (by rwa [hstill.state]) h
          exact ⟨hstep.trans hs, hstill.trans hst⟩

theorem sendLoop_steps (hd : c.state ≠ .drained) (sendTime : ℕ → Instant) :
    Steps c (c.sendLoop sendTime) ∧ Still c (c.sendLoop sendTime) := by
  unfold sendLoop
  generalize List.range c.path.sendingQueue.length = ns
  induction ns generalizing c with
  | nil => exact ⟨.refl c, .refl c⟩
  | cons n ns ih =>
      have hstill := (sendOne_inner c (sendTime n)).still
      obtain ⟨hs, hst⟩ := ih (c := c.sendOne (sendTime n)) (by rwa [hstill.state])
      exact ⟨(Steps.single (.sendOne (sendTime n)) rfl hd rfl).trans hs, hstill.trans hst⟩

theorem sendOne_queue (c : Connection) (t : Instant) : (c.sendOne t).core.queue = c.core.queue.tail := by
  rcases sendOne_ok c t with ⟨hq, e⟩ | ⟨p, queue, hq, e, -⟩
  · rw [e, hq]
    rfl
  · rw [e, hq]
    rfl

/-- All packets of the queue are sent. -/
theorem sendLoop_queue (c : Connection) (sendTime : ℕ → Instant) :
    (c.sendLoop sendTime).path.sendingQueue = [] := by
  have hfold : ∀ (ns : List ℕ) (c : Connection),
      (ns.foldl (fun c n => c.sendOne (sendTime n)) c).core.queue = c.core.queue.drop ns.length := by
    intro ns
    induction ns with
    | nil => exact fun c => rfl
    | cons n ns ih =>
        intro c
        rw [List.foldl_cons, ih, sendOne_queue, List.length_cons, List.drop_tail]
  have hqueue := hfold (List.range c.path.sendingQueue.length) c
  have hlen : (List.range c.path.sendingQueue.length).length = c.core.queue.length := by
    rw [List.length_range]
    exact (List.length_map _).symm
  rw [hlen, List.drop_length] at hqueue
  exact List.map_eq_nil_iff.mp hqueue

/-- The calls of the application do not end the task, and are not reported. -/
theorem calls_steps {calls : List ConnectionOp} (hcalls : ∀ op ∈ calls, op.ofHandler = true)
    (hd : c.state ≠ .drained) (h : run connectionStep c calls = .ok c') :
    Steps c c' ∧ c'.state ≠ .drained ∧ c'.streams.events = c.streams.events := by
  refine run_inv (I := fun x => Steps c x ∧ x.state ≠ .drained ∧ x.streams.events = c.streams.events)
    (fun x op x' hx hop hs => ?_) ⟨.refl c, hd, rfl⟩ (Meets.of_forall hcalls) h
  obtain ⟨hsteps, hxd, he⟩ := hx
  have hkept : x'.state ≠ .drained ∧ x'.streams.events = x.streams.events := by
    cases op with
    | close now errorCode reason =>
        cases hs
        unfold close
        split_ifs
        · exact ⟨hxd, rfl⟩
        · exact ⟨nofun, rfl⟩
    | pollTransmit _ | sendOne _ | pollTimers _ | handleData _ _ | handleFirstPacket _ _ => cases hop
    | _ =>
        have hstill := (connectionStep_call_inner rfl hs).still
        exact ⟨by rwa [hstill.state], hstill.events⟩
  have hin : op.inTask = true := by
    cases op with
    | handleFirstPacket _ _ => cases hop
    | _ => rfl
  exact ⟨hsteps.trans (.single op hin hxd hs), hkept.1, hkept.2.trans he⟩

end Steps

/-! ## The turns of the loop -/

section Turns

variable {t t' : Task} {turn : LoopTurn}

theorem transmit_steps (hd : t.c.state ≠ .drained) (h : t.transmit turn = .ok t') :
    Steps t.c t'.c ∧ Still t.c t'.c ∧ t'.delivered = t.delivered := by
  obtain ⟨c₁, h1, h⟩ := Checked.bind_eq_ok.mp h
  cases h
  obtain ⟨hs, hst⟩ := pollLoop_steps hd h1
  obtain ⟨hs', hst'⟩ := sendLoop_steps (c := c₁) (by rwa [hst.state]) turn.sendTime
  exact ⟨hs.trans hs', hst.trans hst', rfl⟩

/-- What the `select!` of a turn does: an event is delivered, or none waits and a timer or a datagram is
handled, or nothing happens. -/
theorem select_cases (h : t.select turn = .ok t') :
    (∃ event, event ∈ t.queue.head? ∧ run connectionStep t.c turn.calls = .ok t'.c ∧
      t'.delivered = t.delivered ++ [event]) ∨
    (t.queue = [] ∧ t'.delivered = t.delivered ∧
      (((t.c.timers.poll turn.woken).isSome = true ∧ t.c.pollTimers turn.woken = .ok t'.c) ∨
        ((t.c.timers.poll turn.woken).isSome = false ∧
          ((∃ now data, turn.data = some (now, data) ∧ t.c.handleData now data = .ok t'.c) ∨
            (turn.data = none ∧ t'.c = t.c))))) := by
  unfold Task.select at h
  cases hq : t.queue with
  | cons event rest =>
      rw [hq] at h
      obtain ⟨c₁, h1, h⟩ := Checked.bind_eq_ok.mp h
      cases h
      exact .inl ⟨event, rfl, h1, rfl⟩
  | nil =>
      rw [hq] at h
      dsimp only at h
      split_ifs at h with hp
      · obtain ⟨c₁, h1, h⟩ := Checked.bind_eq_ok.mp h
        cases h
        exact .inr ⟨rfl, rfl, .inl ⟨hp, h1⟩⟩
      · refine .inr ?_
        cases hdata : turn.data with
        | none =>
            rw [hdata] at h
            cases h
            exact ⟨rfl, rfl, .inr ⟨Bool.eq_false_iff.mpr hp, .inr ⟨rfl, rfl⟩⟩⟩
        | some x =>
            obtain ⟨now, data⟩ := x
            rw [hdata] at h
            obtain ⟨c₁, h1, h⟩ := Checked.bind_eq_ok.mp h
            cases h
            exact ⟨rfl, rfl, .inr ⟨Bool.eq_false_iff.mpr hp, .inl ⟨now, data, rfl, h1⟩⟩⟩

/-- **A turn of the loop consists of steps of the connection.** -/
theorem taskStep_steps (h : taskStep t turn = .ok t') : Steps t.c t'.c := by
  unfold taskStep at h
  split_ifs at h with hdrained
  · cases h
    exact .refl t.c
  · have hd : t.c.state ≠ .drained := fun e => hdrained (decide_eq_true e)
    obtain ⟨t₁, h1, h⟩ := Checked.bind_eq_ok.mp h
    obtain ⟨hs, hst, -⟩ := transmit_steps hd h1
    have hd₁ : t₁.c.state ≠ .drained := by rwa [hst.state]
    refine hs.trans ?_
    rcases select_cases h with ⟨event, -, hcalls, -⟩ | ⟨-, -, ⟨-, ht⟩ | ⟨-, ⟨now, data, -, hdata⟩ | ⟨-, e⟩⟩⟩
    · exact (calls_steps turn.calls_ofHandler hd₁ hcalls).1
    · exact .single (.pollTimers turn.woken) rfl hd₁ ht
    · exact .single (.handleData now data) rfl hd₁ hdata
    · rw [e]
      exact .refl t₁.c

/-- **A run of the loop is a run of the connection**, of which no step is taken once it is drained. -/
theorem run_task {turns : List LoopTurn} (h : run taskStep t turns = .ok t') : Steps t.c t'.c :=
  run_inv (I := fun x => Steps t.c x.c) (fun _ _ _ hx _ hs => hx.trans (taskStep_steps hs)) (.refl t.c)
    (Meets.trivial _ _ _) h

/-- The timers are right whenever the loop begins a turn. -/
theorem run_task_timed {turns : List LoopTurn} (ht : Timed t.c) (h : run taskStep t turns = .ok t') : Timed t'.c :=
  (run_task h).inv (fun _ _ _ hx hop hd hs => connectionStep_timed hx hop hd hs) ht

end Turns

/-! ## CLOSE frames -/

/-- `Frame::Close`. -/
def Frame.isClose : Frame → Bool
  | .close _ => true
  | _ => false

namespace Connection

/-- The loop over the frames of a packet comes to a CLOSE frame. -/
def closesFrames (handle : Connection → Frame → Handled) : ℕ → FrameParser → Connection → Bool
  | 0, _, _ => false
  | n + 1, parser, c =>
    match (parser.next : Checked _) with
    | .ok (some (.ok frame), parser) => frame.isClose || match (handle c frame : Handled) with
      | .ok (.ok true, c) => closesFrames handle n parser c
      | _ => false
    | _ => false

/-- The same for a payload. -/
def closesPayload (c : Connection) (payload : Bytes) (handle : Connection → Frame → Handled) : Bool :=
  match FrameParser.new payload with
  | .error _ => false
  | .ok parser => closesFrames handle (payload.length + 1) parser c

/-- The same for a packet. -/
def closesPacket (c : Connection) (now : Instant) (number : Option ℕ) (packet : Packet) : Bool :=
  match packet.header.space, number with
  | .initial, _ | .handshake, _ => c.closesPayload packet.payload (handleEarlyFrame now packet.header.space)
  | .data, none => false
  | .data, some _ => c.closesPayload packet.payload
      (handleFrame now packet.header.space packet.payload.length)

/-- The same for a datagram: its packet is accepted, and a CLOSE frame in it is reached. -/
def closesData (c : Connection) (now : Instant) (data : Bytes) : Bool :=
  (packetOf data).any fun packet => c.accepts packet.header &&
    match (c.authenticate now packet.header : Checked Connection) with
    | .ok c₁ => c₁.closesPacket now (c.arrival packet.header) packet
    | .error _ => false

section Closes

variable {c c' : Connection} {now : Instant} {id : SpaceId}

theorem handleEarlyFrame_isClose {frame : Frame} {r : Except TransportError Bool}
    (h : handleEarlyFrame now id c frame = .ok (r, c')) : r = .ok false ↔ frame.isClose = true := by
  cases frame with
  | ack ack =>
      obtain ⟨⟨r, c₁⟩, -, h⟩ := Checked.bind_eq_ok.mp h
      cases h
      exact ⟨fun hr => absurd hr (map_true_ne r), nofun⟩
  | close reason =>
      cases h
      exact ⟨fun _ => rfl, fun _ => rfl⟩
  | _ =>
      cases h
      exact ⟨nofun, nofun⟩

theorem handleFrame_isClose {payloadLen : ℕ} {frame : Frame} {r : Except TransportError Bool}
    (h : handleFrame now id payloadLen c frame = .ok (r, c')) : r = .ok false ↔ frame.isClose = true := by
  cases frame with
  | ack ack =>
      obtain ⟨⟨r, c₁⟩, -, h⟩ := Checked.bind_eq_ok.mp h
      cases h
      exact ⟨fun hr => absurd hr (map_true_ne r), nofun⟩
  | stream stream =>
      obtain ⟨⟨r, s⟩, -, h⟩ := Checked.bind_eq_ok.mp h
      cases h
      exact ⟨fun hr => absurd hr (map_true_ne r), nofun⟩
  | resetStream _ | stopSending _ =>
      cases h
      exact ⟨fun hr => absurd hr (map_true_ne _), nofun⟩
  | close reason =>
      cases h
      exact ⟨fun _ => rfl, fun _ => rfl⟩
  | _ =>
      cases h
      exact ⟨nofun, nofun⟩

/-- Reports are added to those before, and the connection is not drained. -/
def Runs (c c' : Connection) : Prop := c.streams.events <+: c'.streams.events ∧ c'.state ≠ .drained

theorem Runs.trans {c₁ c₂ c₃ : Connection} (h : Runs c₁ c₂) (h' : Runs c₂ c₃) : Runs c₁ c₃ :=
  ⟨h.1.trans h'.1, h'.2⟩

/-- A frame other than CLOSE. -/
theorem FrameMove.runs {r : Except TransportError Bool} (h : FrameMove c r c') (hr : r ≠ .ok false)
    (hd : c.state ≠ .drained) : Runs c c' := by
  have hreports : ∀ s : StreamsState, c.streams.Reports s → c.streams.events <+: s.events := by
    rintro s ⟨es, e⟩
    exact ⟨_, e.symm⟩
  cases h with
  | acked h _ =>
      have hi := onAckReceived_inner h
      exact ⟨hreports _ hi.events.reports, by rwa [hi.state]⟩
  | crypto id =>
      rcases c.onCrypto_state id with ⟨hs, he⟩ | ⟨-, hs, he⟩
      · exact ⟨by rw [he], by rwa [hs]⟩
      · exact ⟨⟨_, he.symm⟩, by rw [hs]; nofun⟩
  | streams hs _ => exact ⟨hreports _ hs, hd⟩
  | killed reason => exact absurd rfl hr
  | _ => exact ⟨List.prefix_rfl, hd⟩

/-- How the frames of a packet end: with a CLOSE frame, if `closes`, and otherwise in a connection that is not
drained. -/
def ClosesAt (closes : Bool) (c : Connection) (ok : Prop) (c' : Connection) : Prop :=
  (closes = true ∧ ok ∧ ∃ c₁ reason, Runs c c₁ ∧ c' = c₁.kill reason) ∨ (closes = false ∧ Runs c c')

theorem Walk.closesAt {handle : Connection → Frame → Handled}
    (hh : ∀ c frame r c', handle c frame = .ok (r, c') → FrameMove c r c' ∧ (r = .ok false ↔ frame.isClose = true))
    {n : ℕ} {parser : FrameParser} {r : Except TransportError Unit} (hd : c.state ≠ .drained)
    (hw : Walk handle n parser c r c') : ClosesAt (closesFrames handle n parser c) c (r = .ok ()) c' := by
  have hne : ∀ {c frame r c'}, handle c frame = .ok (r, c') → r ≠ .ok false → frame.isClose = false :=
    fun h hr => Bool.eq_false_iff.mpr fun hf => hr ((hh _ _ _ _ h).2.mpr hf)
  induction hw with
  | out => exact .inr ⟨rfl, List.prefix_rfl, hd⟩
  | ended hn =>
      unfold closesFrames
      rw [hn]
      exact .inr ⟨rfl, List.prefix_rfl, hd⟩
  | malformed hn =>
      unfold closesFrames
      rw [hn]
      exact .inr ⟨rfl, List.prefix_rfl, hd⟩
  | rejected hn h =>
      unfold closesFrames
      rw [hn]
      dsimp only
      rw [h, hne h nofun]
      exact .inr ⟨rfl, (hh _ _ _ _ h).1.runs nofun hd⟩
  | closed hn h =>
      obtain ⟨reason, rfl⟩ := (hh _ _ _ _ h).1.closes
      unfold closesFrames
      rw [hn]
      dsimp only
      rw [(hh _ _ _ _ h).2.mp rfl]
      exact .inl ⟨rfl, rfl, _, reason, ⟨List.prefix_rfl, hd⟩, rfl⟩
  | next hn h _ ih =>
      have hruns := (hh _ _ _ _ h).1.runs nofun hd
      unfold closesFrames
      rw [hn]
      dsimp only
      rw [h, hne h nofun]
      dsimp only [Bool.false_or]
      rcases ih hruns.2 with ⟨hc, hr, c₂, reason, hruns', e⟩ | ⟨hc, hruns'⟩
      · exact .inl ⟨hc, hr, c₂, reason, hruns.trans hruns', e⟩
      · exact .inr ⟨hc, hruns.trans hruns'⟩

theorem processFrames_closes {handle : Connection → Frame → Handled}
    (hh : ∀ c frame r c', handle c frame = .ok (r, c') → FrameMove c r c' ∧ (r = .ok false ↔ frame.isClose = true))
    {payload : Bytes} {r : Except TransportError Unit} (hd : c.state ≠ .drained)
    (h : c.processFrames payload handle = .ok (r, c')) :
    ClosesAt (c.closesPayload payload handle) c (r = .ok ()) c' := by
  unfold closesPayload
  rcases processFrames_cases h with ⟨e, hp, rfl, rfl⟩ | ⟨parser, hp, hw⟩
  · rw [hp]
    exact .inr ⟨rfl, List.prefix_rfl, hd⟩
  · rw [hp]
    exact hw.closesAt hh hd

/-- **How a packet ends**: with a CLOSE frame, or in a connection that is not drained, with no error but one of
the transport. -/
theorem processPacket_closes {number : Option ℕ} {packet : Packet} {r : Except ConnectionError Unit}
    (hd : c.state ≠ .drained) (h : c.processPacket now number packet = .ok (r, c')) :
    ClosesAt (c.closesPacket now number packet) c (r = .ok ()) c' ∧ ∀ e, r = .error e → errorState e ≠ .drained := by
  have hmap : ∀ {b : Bool} {r : Except TransportError Unit} {c'}, ClosesAt b c (r = .ok ()) c' →
      ClosesAt b c (r.mapError ConnectionError.transportError = .ok ()) c' ∧
        ∀ e, r.mapError ConnectionError.transportError = .error e → errorState e ≠ .drained := by
    intro b r c' hr
    refine ⟨hr.imp_left fun ⟨hb, hok, hk⟩ => ⟨hb, by rw [hok]; rfl, hk⟩, fun e he => ?_⟩
    cases r with
    | error e' =>
        cases he
        nofun
    | ok u => cases he
  unfold closesPacket
  rcases processPacket_cases h with ⟨r', hid, h1, rfl⟩ | ⟨hid, rfl, rfl, rfl⟩ | ⟨n, r', hid, rfl, h1, rfl⟩
  · have hr := hmap (processFrames_closes
      (fun _ _ _ _ hf => ⟨handleEarlyFrame_move hf, handleEarlyFrame_isClose hf⟩) hd h1)
    rcases hid with hid | hid <;> rwa [hid] at hr ⊢
  · rw [hid]
    refine ⟨.inr ⟨rfl, List.prefix_rfl, hd⟩, fun e he => ?_⟩
    cases he
    nofun
  · have hr := hmap (processFrames_closes (fun _ _ _ _ hf => ⟨handleFrame_move hf, handleFrame_isClose hf⟩) hd h1)
    rwa [hid] at hr ⊢

/-- **When a datagram drains the connection.** The loss of the connection is then the last report. -/
theorem handleData_closes {data : Bytes} (hd : c.state ≠ .drained) (h : c.handleData now data = .ok c') :
    (c.closesData now data = true ∧ c'.state = .drained ∧
      ∃ es reason, c'.streams.events = c.streams.events ++ es ++ [.connectionLost reason]) ∨
    (c.closesData now data = false ∧ Runs c c') := by
  unfold closesData
  rcases handleData_cases h with ⟨hp, rfl⟩ | ⟨packet, hp, ⟨ha, rfl⟩ | ⟨ha, c₁, ⟨r, c₂⟩, h1, h2, rfl⟩⟩
  · rw [hp]
    exact .inr ⟨rfl, List.prefix_rfl, hd⟩
  · rw [hp, Option.any_some, ha]
    exact .inr ⟨rfl, List.prefix_rfl, hd⟩
  · have hstill := (authenticate_outer h1).still
    have hruns₁ : Runs c c₁ := ⟨by rw [hstill.events]; exact List.prefix_rfl, by rw [hstill.state]; exact hd⟩
    obtain ⟨hends, herr⟩ := processPacket_closes hruns₁.2 h2
    rw [hp, Option.any_some, ha, Bool.true_and, h1]
    dsimp only
    rcases hends with ⟨hc, rfl, c₃, reason, hruns, rfl⟩ | ⟨hc, hruns⟩
    · obtain ⟨hs, he⟩ := afterPacket_ok now c.state.isClosed c.state.isDrained (c₃.kill reason)
      obtain ⟨es, hes⟩ := (hruns₁.trans hruns).1
      refine .inl ⟨hc, by rw [hs]; rfl, es, reason, ?_⟩
      rw [he, hes]
      rfl
    · refine .inr ⟨hc, (hruns₁.trans hruns).trans ?_⟩
      cases r with
      | ok u =>
          obtain ⟨hs, he⟩ := afterPacket_ok now c.state.isClosed c.state.isDrained c₂
          exact ⟨by rw [he], by rw [hs]; exact hruns.2⟩
      | error e =>
          obtain ⟨hs, he⟩ := afterPacket_error now c.state.isClosed c.state.isDrained c₂ e
          exact ⟨by rw [he]; exact List.prefix_append _ _, by rw [hs]; exact herr e rfl⟩

end Closes

end Connection

/-! ## The events that are delivered -/

/-- The turn handles a datagram with a CLOSE frame: no event waits then, and no timer is due. -/
def Task.closes (t : Task) (turn : LoopTurn) : Bool :=
  match (t.transmit turn : Checked Task) with
  | .ok t => t.queue.isEmpty && !(t.c.timers.poll turn.woken).isSome &&
      turn.data.any fun d => t.c.closesData d.1 d.2
  | .error _ => false

/-- The events that were delivered are the first of those that were sent. -/
def Task.Orderly (t : Task) : Prop := t.delivered <+: t.c.streams.events

section Delivery

variable {t t' : Task} {turn : LoopTurn}

theorem queue_eq_nil (h : t.Orderly) (hq : t.queue = []) : t.delivered = t.c.streams.events := by
  obtain ⟨rest, hrest⟩ := h
  unfold Task.queue at hq
  rw [← hrest, List.drop_left] at hq
  rw [← hrest, hq, List.append_nil]

theorem queue_cons (h : t.Orderly) {event : Event} (hq : event ∈ t.queue.head?) :
    t.delivered ++ [event] <+: t.c.streams.events := by
  obtain ⟨rest, hrest⟩ := h
  unfold Task.queue at hq
  rw [← hrest, List.drop_left] at hq
  rw [← hrest]
  cases rest with
  | nil => cases hq
  | cons e rest =>
      cases hq
      exact List.prefix_append_right_inj _ |>.mpr ⟨rest, rfl⟩

theorem taskStep_drained (h : t.c.state = .drained) (turn : LoopTurn) : taskStep t turn = .ok t :=
  if_pos (decide_eq_true h)

/-- **What a turn delivers.** If it handles a CLOSE frame, the loop is left with an event that waits; if it is
left in another way, no event waits. -/
theorem taskStep_delivers (ht : t.Orderly) (hd : t.c.state ≠ .drained) (h : taskStep t turn = .ok t') :
    t'.Orderly ∧ ((t.closes turn = true ∧ t'.c.state = .drained ∧ t'.delivered ≠ t'.c.streams.events) ∨
      (t.closes turn = false ∧ (t'.c.state = .drained → t'.delivered = t'.c.streams.events))) := by
  unfold taskStep at h
  rw [if_neg (show ¬ t.c.state.isDrained = true from fun e => hd (of_decide_eq_true e))] at h
  obtain ⟨t₁, h1, h⟩ := Checked.bind_eq_ok.mp h
  obtain ⟨-, hst, hdel⟩ := transmit_steps hd h1
  have ht₁ : t₁.Orderly := by
    unfold Task.Orderly
    rwa [hdel, hst.events]
  have hd₁ : t₁.c.state ≠ .drained := by rwa [hst.state]
  unfold Task.closes Task.Orderly
  rw [h1]
  dsimp only
  rcases select_cases h with ⟨event, hevent, hcalls, hdel'⟩ | ⟨hq, hdel', hrest⟩
  · obtain ⟨-, hd', he⟩ := calls_steps turn.calls_ofHandler hd₁ hcalls
    have hne : t₁.queue.isEmpty = false := by
      rw [List.isEmpty_eq_false_iff]
      rintro e
      rw [e] at hevent
      cases hevent
    rw [hdel', he, hne]
    exact ⟨queue_cons ht₁ hevent, .inr ⟨rfl, fun hdr => absurd hdr hd'⟩⟩
  · have hall := queue_eq_nil ht₁ hq
    rw [hdel', hq, hall]
    rcases hrest with ⟨hp, htimer⟩ | ⟨hp, ⟨now, data, hdata, hhandle⟩ | ⟨hdata, e⟩⟩
    · obtain ⟨-, he⟩ := pollTimers_cases htimer
      rw [hp, he]
      exact ⟨List.prefix_rfl, .inr ⟨rfl, fun _ => rfl⟩⟩
    · rw [hp, hdata]
      dsimp only [Option.any_some, List.isEmpty_nil, Bool.not_false, Bool.true_and]
      rcases handleData_closes hd₁ hhandle with ⟨hc, hdr, es, reason, he⟩ | ⟨hc, hruns⟩
      · rw [hc, he]
        refine ⟨by rw [List.append_assoc]; exact List.prefix_append _ _, .inl ⟨rfl, hdr, fun heq => ?_⟩⟩
        have hlen := congrArg List.length heq
        simp at hlen
      · rw [hc]
        exact ⟨hruns.1, .inr ⟨rfl, fun hdr => absurd hdr hruns.2⟩⟩
    · rw [hp, hdata, e]
      exact ⟨List.prefix_rfl, .inr ⟨rfl, fun _ => rfl⟩⟩

/-- A loop that is left before the first turn has delivered nothing. -/
theorem run_drained {turns : List LoopTurn} (hd : t.c.state = .drained) (h : run taskStep t turns = .ok t') :
    t' = t := by
  induction turns with
  | nil =>
      cases h
      rfl
  | cons turn turns ih =>
      rw [run_cons, taskStep_drained hd] at h
      exact ih h

/-- If the loop is left with all events delivered, no turn has handled a CLOSE frame. -/
theorem meets_of_delivered {turns : List LoopTurn} (ht : t.Orderly) (h : run taskStep t turns = .ok t')
    (hall : t'.delivered = t'.c.streams.events) :
    Meets taskStep (fun t turn => t.c.state = .drained ∨ t.closes turn = false) t turns := by
  induction turns generalizing t with
  | nil => trivial
  | cons turn turns ih =>
      obtain ⟨t₁, h1, h⟩ := Checked.bind_eq_ok.mp h
      by_cases hd : t.c.state = .drained
      · rw [taskStep_drained hd] at h1
        cases h1
        exact .cons (.inl hd) (taskStep_drained hd turn) (ih ht h)
      · obtain ⟨ht₁, ⟨-, hdr, hne⟩ | ⟨hc, -⟩⟩ := taskStep_delivers ht hd h1
        · rw [run_drained hdr h] at hall
          exact absurd hall hne
        · exact .cons (.inr hc) h1 (ih ht₁ h)

end Delivery

/-- If the first packet drains the connection, its loss is reported. -/
theorem Connection.Starts.reported {c : Connection} {first : Option ℕ} (hc : Starts c first)
    (hd : c.state = .drained) : c.streams.events ≠ [] := by
  cases hc with
  | client now => cases hd
  | server now h =>
      obtain ⟨c₁, h1, h⟩ := Checked.bind_eq_ok.mp h
      have hs := (onPacketAuthenticated_outer h1).state
      have hd₁ : c₁.state ≠ .drained := by
        rw [hs]
        nofun
      rcases (processPacket_closes hd₁ h).1 with ⟨-, -, c₂, reason, -, rfl⟩ | ⟨-, hruns⟩
      · exact List.append_ne_nil_of_right_ne_nil _ (List.cons_ne_nil _ _)
      · exact absurd hd hruns.2

/-- **Which events are lost at shutdown.** When the loop is left, every event was delivered if and only if
neither the first packet nor a later one had a CLOSE frame that was reached: then the close timer has ended the
loop. -/
theorem events_delivered (c : Connection) (first : Option ℕ) (hc : Starts c first) (turns : List LoopTurn) (t : Task)
    (h : run taskStep ⟨c, []⟩ turns = .ok t) (hexit : t.c.state = .drained) :
    t.delivered = t.c.streams.events ↔ c.state ≠ .drained ∧
      Meets taskStep (fun t turn => t.c.state = .drained ∨ t.closes turn = false) ⟨c, []⟩ turns := by
  have hstart : Task.Orderly ⟨c, []⟩ := List.nil_prefix
  constructor
  · intro hall
    refine ⟨fun hd => ?_, meets_of_delivered hstart h hall⟩
    rw [run_drained (t := ⟨c, []⟩) hd h] at hall
    exact hc.reported hd hall.symm
  · rintro ⟨hd, hm⟩
    refine (run_inv (I := fun t : Task => t.Orderly ∧ (t.c.state = .drained → t.delivered = t.c.streams.events))
      (fun t turn t' ht hok hs => ?_) ⟨hstart, fun hd' => absurd hd' hd⟩ hm h).2 hexit
    rcases hok with hdr | hclose
    · rw [taskStep_drained hdr] at hs
      cases hs
      exact ht
    · by_cases hdr : t.c.state = .drained
      · rw [taskStep_drained hdr] at hs
        cases hs
        exact ht
      · obtain ⟨ht', ⟨hc', -⟩ | ⟨-, hall⟩⟩ := taskStep_delivers ht.1 hdr hs
        · rw [hclose] at hc'
          cases hc'
        · exact ⟨ht', hall⟩

/-- A turn of the example runs, in which everything happens at one time. -/
def exampleTurn (now : Instant) (data : Option (Instant × Bytes)) : LoopTurn :=
  ⟨now, fun _ => now, now, [], nofun, data⟩

/-- A client is told that it is established, closes, and is drained by its close timer. -/
theorem events_delivered_timer : ∃ turns t, run taskStep ⟨Connection.new 0 .client, []⟩ turns = .ok t ∧
    t.c.state = .drained ∧ t.delivered = [.connected] ∧ t.delivered = t.c.streams.events := by
  let turns : List LoopTurn := [exampleTurn 1 (some (2, initialDatagram 0 [6, 0, 1, 0])),
    ⟨3, fun _ => 3, 3, [.close 3 0 []], by decide, none⟩, exampleTurn 4000000000 none]
  obtain ⟨t, ht, hv⟩ := Checked.map_eq_ok.mp (show (fun t : Task => (t.c.state.isDrained,
      decide (t.delivered = [.connected]), decide (Meets taskStep (fun t turn => t.c.state = .drained ∨
        t.closes turn = false) ⟨Connection.new 0 .client, []⟩ turns))) <$>
      run taskStep ⟨Connection.new 0 .client, []⟩ turns = .ok (true, true, true) by decide +kernel)
  obtain ⟨hd, hv⟩ := Prod.mk.inj hv
  obtain ⟨hdel, hmeets⟩ := Prod.mk.inj hv
  have hdrained : t.c.state = .drained := of_decide_eq_true hd
  exact ⟨turns, t, ht, hdrained, of_decide_eq_true hdel,
    (events_delivered _ none (.client 0) turns t ht hdrained).mpr ⟨nofun, of_decide_eq_true hmeets⟩⟩

/-- The peer sends data and closes, in one packet. The client is told neither. -/
theorem close_not_delivered : ∃ turns t reason, run taskStep ⟨Connection.new 0 .client, []⟩ turns = .ok t ∧
    t.c.state = .drained ∧ t.delivered = [.connected] ∧
    t.c.streams.events = [.connected, .stream (.readable ⟨1⟩), .connectionLost reason] := by
  let turns : List LoopTurn := [exampleTurn 1 (some (2, initialDatagram 0 [6, 0, 1, 0])), exampleTurn 3 none,
    exampleTurn 4 (some (4, shortDatagram 0 [10, 1, 1, 7, 29, 0, 0]))]
  obtain ⟨t, ht, hv⟩ := Checked.map_eq_ok.mp (show (fun t : Task => (t.c.state.isDrained,
      decide (t.delivered = [.connected]), decide (t.c.streams.events = [.connected, .stream (.readable ⟨1⟩),
        .connectionLost (.applicationClosed ⟨0, []⟩)]))) <$>
      run taskStep ⟨Connection.new 0 .client, []⟩ turns = .ok (true, true, true) by decide +kernel)
  obtain ⟨hd, hv⟩ := Prod.mk.inj hv
  obtain ⟨hdel, hevents⟩ := Prod.mk.inj hv
  exact ⟨turns, t, _, ht, of_decide_eq_true hd, of_decide_eq_true hdel, of_decide_eq_true hevents⟩

end MzQuic
