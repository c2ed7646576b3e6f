import MzQuic.Connection.Poll
import MzQuic.Stream.RecvMoves

/-!
# What loss detection, acknowledgements and polls leave alone

* `Inner`: a change of what is in flight, after which at most some streams are reported as finished;
* `onAckReceived_inner`, `onLossDetectionTimeout_inner`, `discardSpace_inner`, `sendOne_inner`;
* `Outer`: what a poll leaves alone; `pollTransmit_outer`, `onPacketAuthenticated_outer`;
* `FrameMove`, `processPacket_inv`: what the frames of a packet can do;
* `connectionStep_call`: what the calls of the application change;
* `Starts`: a connection as its task gets it.
-/

namespace MzQuic

open Lib

namespace TimerTable

theorem data_set_of_ne (t : TimerTable) {timer i : Timer} (h : i ≠ timer) (time : Instant) :
    (t.set timer time).data i = t.data i := Function.update_of_ne h _ _

theorem data_stop_of_ne (t : TimerTable) {timer i : Timer} (h : i ≠ timer) :
    (t.stop timer).data i = t.data i := Function.update_of_ne h _ _

end TimerTable

namespace StreamsState

variable {s s' : StreamsState}

/-- Since then nothing was reported but, if `b` is true, that some streams are finished. -/
def Finishes (b : Bool) (s s' : StreamsState) : Prop :=
  ∃ ids : List StreamId, s'.events = s.events ++ ids.map (fun id => .stream (.finished id)) ∧
    (b = false → ids = [])

variable {b : Bool}

theorem Finishes.of_eq (h : s'.events = s.events) : Finishes b s s' :=
  ⟨[], by rw [h, List.map_nil, List.append_nil], fun _ => rfl⟩

theorem Finishes.trans {s₁ s₂ s₃ : StreamsState} (h : Finishes b s₁ s₂) (h' : Finishes b s₂ s₃) :
    Finishes b s₁ s₃ := by
  obtain ⟨ids, e, hb⟩ := h
  obtain ⟨ids', e', hb'⟩ := h'
  exact ⟨ids ++ ids', by rw [e', e, List.map_append, List.append_assoc], fun hf => by rw [hb hf, hb' hf]; rfl⟩

theorem Finishes.mono (h : Finishes false s s') : Finishes b s s' := by
  obtain ⟨ids, e, hb⟩ := h
  exact ⟨ids, e, fun _ => hb rfl⟩

theorem Finishes.eq (h : Finishes false s s') : s'.events = s.events := by
  obtain ⟨ids, e, hb⟩ := h
  rw [e, hb rfl, List.map_nil, List.append_nil]

theorem receivedAckOf_finishes {m : StreamMeta} (h : s.receivedAckOf m = .ok s') : Finishes true s s' := by
  obtain hnone | hone := receivedAckOf_onlySend h
  · exact .of_eq hnone.events_nil
  · exact ⟨[m.id], hone.events, fun hf => by cases hf⟩

theorem retransmit_finishes {m : StreamMeta} (h : s.retransmit m = .ok s') : Finishes false s s' :=
  .of_eq (retransmit_onlySend h).events_nil

/-- A loop whose rounds report finished streams only. -/
theorem Finishes.of_run {A : Type} {step : StreamsState → A → Checked StreamsState}
    (hstep : ∀ s a s', step s a = .ok s' → Finishes b s s') {as : List A}
    (h : run step s as = .ok s') : Finishes b s s' :=
  run_inv (I := Finishes b s) (fun x a x' hx _ hs => hx.trans (hstep x a x' hs)) (.of_eq rfl)
    (Meets.trivial step s as) h

/-- Since then at most something about streams was reported. -/
def Reports (s s' : StreamsState) : Prop := ∃ es : List StreamEvent, s'.events = s.events ++ es.map .stream

theorem Reports.of_eq (h : s'.events = s.events) : Reports s s' := ⟨[], by rw [h, List.map_nil, List.append_nil]⟩

theorem Finishes.reports (h : Finishes b s s') : Reports s s' := by
  obtain ⟨ids, e, -⟩ := h
  exact ⟨ids.map .finished, by rw [e, List.map_map]; rfl⟩

theorem received_reports {frame : Stream} {payloadLen : ℕ} {res : Except TransportError Unit}
    (h : s.received frame payloadLen = .ok (res, s')) : Reports s s' := by
  rcases received_cases h with ⟨e, -, -, rfl⟩ | ⟨-, -, -, rfl⟩ | ⟨rs, -, -, -, -, rfl⟩ | ⟨rs, e, rs', -, -, rfl⟩ |
    ⟨rs, v, rs', -, -, rfl | rfl⟩ | ⟨rs, n, rs', -, -, -, rfl⟩
  case inr.inr.inr.inr.inl.inr => exact ⟨[.readable frame.id], rfl⟩
  all_goals exact .of_eq rfl

theorem receivedReset_reports (s : StreamsState) (frame : ResetStream) : Reports s (s.receivedReset frame).2 := by
  rcases s.receivedReset_cases frame rfl with ⟨e, -, h⟩ | ⟨-, ⟨e, rs', -, h⟩ | ⟨rs', -, h⟩ | ⟨rs', -, -, h⟩ |
    ⟨rs', -, -, h⟩⟩
  case inr.inr.inr.inr => exact ⟨[.readable frame.id], congrArg (fun x => x.2.events) h⟩
  all_goals exact .of_eq (congrArg (fun x => x.2.events) h)

theorem receivedStopSending_reports (s : StreamsState) (frame : StopSending) :
    Reports s (s.receivedStopSending frame).2 := by
  obtain ⟨es, hs, -⟩ := s.receivedStopSending_onlySend frame
  exact ⟨es, hs.events⟩

/-! The application learns nothing new from its own calls. -/

theorem open_events (s : StreamsState) (dir : Dir) : (s.open dir).2.events = s.events := by
  unfold StreamsState.open
  dsimp only
  split_ifs <;> rfl

theorem readChunks_events {id : StreamId} {lengths : List ℕ} (h : s.readChunks id lengths = .ok s') :
    s'.events = s.events := by
  obtain ⟨⟨res, s₁⟩, hr, h⟩ := Checked.bind_eq_ok.mp h
  have hread : s₁.events = s.events := by
    unfold read at hr
    split at hr
    · cases hr
      rfl
    · split_ifs at hr
      · cases hr
        rfl
      · dsimp only at hr
        split at hr <;> cases hr <;> rfl
  cases res with
  | error e =>
      cases h
      exact hread
  | ok chunks =>
      obtain ⟨chunks', -, h⟩ := Checked.bind_eq_ok.mp h
      cases h
      unfold dropChunks
      split <;> exact hread

theorem stop_events {pending pending' : Retransmits} {id : StreamId} {errorCode : ℕ}
    {res : Except ClosedStream Unit} (h : s.stop pending id errorCode = .ok (res, s', pending')) :
    s'.events = s.events := by
  unfold stop at h
  split at h
  · cases h
    rfl
  · obtain ⟨⟨res', rs'⟩, -, h⟩ := Checked.bind_eq_ok.mp h
    cases res' <;> cases h <;> rfl

theorem takeReset_events (s : StreamsState) (id : StreamId) : (s.takeReset id).2.events = s.events := by
  unfold takeReset
  split
  · rfl
  · split_ifs
    · rfl
    · split <;> rfl

end StreamsState

namespace Connection

/-! ## Loss detection and acknowledgements -/

/-- A space that differs in what it has sent and has to send, and in which numbers it has yet to
acknowledge. -/
structure SpaceInner (s s' : PacketSpace) : Prop where
  dedup : s'.dedup = s.dedup
  counter : s'.pendingAcks.ackElicitingSinceLastAckSent = s.pendingAcks.ackElicitingSinceLastAckSent
  immediate : s'.pendingAcks.immediateAckRequired = s.pendingAcks.immediateAckRequired

/-- A change of what is in flight, of which nothing is reported but, if `b` is true, that some streams
are finished. -/
structure Inner (b : Bool) (c c' : Connection) : Prop where
  side : c'.side = c.side
  state : c'.state = c.state
  timers : ∀ t, t ≠ .lossDetection ∨ c.state.isClosed = true → c'.timers.data t = c.timers.data t
  spaces : ∀ id, SpaceInner (c.spaces id) (c'.spaces id)
  events : c.streams.Finishes b c'.streams

section Inner

variable {b : Bool} {c c' : Connection} {now : Instant} {id : SpaceId}

theorem SpaceInner.refl (s : PacketSpace) : SpaceInner s s := ⟨rfl, rfl, rfl⟩

theorem SpaceInner.trans {s₁ s₂ s₃ : PacketSpace} (h : SpaceInner s₁ s₂) (h' : SpaceInner s₂ s₃) :
    SpaceInner s₁ s₃ :=
  ⟨h'.dedup.trans h.dedup, h'.counter.trans h.counter, h'.immediate.trans h.immediate⟩

theorem Inner.refl (c : Connection) : Inner b c c :=
  ⟨rfl, rfl, fun _ _ => rfl, fun _ => .refl _, .of_eq rfl⟩

theorem Inner.trans {c₁ c₂ c₃ : Connection} (h : Inner b c₁ c₂) (h' : Inner b c₂ c₃) :
    Inner b c₁ c₃ where
  side := h'.side.trans h.side
  state := h'.state.trans h.state
  timers := fun t ht => (h'.timers t (by rw [h.state]; exact ht)).trans (h.timers t ht)
  spaces := fun id => (h.spaces id).trans (h'.spaces id)
  events := h.events.trans h'.events

theorem Inner.mono (h : Inner false c c') : Inner b c c' := ⟨h.side, h.state, h.timers, h.spaces, h.events.mono⟩

/-- A property of each space after one of them has changed. -/
theorem forall_modifySpace {P : SpaceId → PacketSpace → Prop} (c : Connection) (id : SpaceId)
    (f : PacketSpace → PacketSpace) (h : P id (f (c.spaces id))) (hrest : ∀ i, i ≠ id → P i (c.spaces i))
    (i : SpaceId) : P i ((c.modifySpace id f).spaces i) := by
  unfold modifySpace
  exact (Function.forall_update_iff c.spaces P).mpr ⟨h, hrest⟩ i

/-- One space, the path and the streams change. -/
theorem inner_space (c : Connection) (id : SpaceId) {space : PacketSpace} (path : NetworkPath)
    {s : StreamsState} (h : SpaceInner (c.spaces id) space) (hs : c.streams.Finishes b s) :
    Inner b c { c.modifySpace id fun _ => space with path := path, streams := s } where
  side := rfl
  state := rfl
  timers := fun _ _ => rfl
  spaces := forall_modifySpace (P := fun i x => SpaceInner (c.spaces i) x) c id (fun _ => space) h
    fun i _ => .refl (c.spaces i)
  events := hs

theorem setLossDetectionTimer_inner (c : Connection) : Inner false c c.setLossDetectionTimer := by
  unfold setLossDetectionTimer
  by_cases hclosed : c.state.isClosed = true
  · rw [if_pos hclosed]
    exact .refl c
  · rw [if_neg hclosed]
    have hset : ∀ t : TimerTable, (∀ timer, timer ≠ .lossDetection → t.data timer = c.timers.data timer) →
        Inner false c { c with timers := t } := fun t ht =>
      ⟨rfl, rfl, fun timer h => ht timer (h.resolve_right hclosed), fun _ => .refl _, .of_eq rfl⟩
    split
    · exact hset _ fun timer ht => c.timers.data_set_of_ne ht _
    · dsimp only
      split
      · exact hset _ fun timer ht => c.timers.data_set_of_ne ht _
      · exact hset _ fun timer ht => c.timers.data_stop_of_ne ht

theorem discardSpace_inner (h : c.discardSpace id = .ok c') : Inner false c c' := by
  obtain ⟨u, -, h⟩ := Checked.bind_eq_ok.mp h
  obtain ⟨path, -, h⟩ := Checked.bind_eq_ok.mp h
  cases h
  refine .trans ?_ (setLossDetectionTimer_inner _)
  exact inner_space c id path ⟨rfl, rfl, rfl⟩ (.of_eq rfl)

theorem ackedBy_inner (s : PacketSpace) (packet : SentPacket) : SpaceInner s (s.ackedBy packet) := by
  unfold PacketSpace.ackedBy
  split
  · exact ⟨rfl, rfl, rfl⟩
  · exact .refl s

theorem requeue_inner (s : PacketSpace) (packet : SentPacket) : SpaceInner s (s.requeue packet) := by
  unfold PacketSpace.requeue
  split
  · exact ⟨rfl, rfl, rfl⟩
  · exact .refl s

theorem ackOne_inner {l l' : AckLoop} {pn : ℕ} (h : ackOne id l pn = .ok l') : Inner true l.c l'.c := by
  obtain ⟨-, rfl⟩ | ⟨packet, s, removed, path, -, -, hs, -, -, hc⟩ := ackOne_cases h
  · exact .refl l'.c
  · have htaken : SpaceInner (l.c.spaces id) ((l.c.spaces id).taken pn packet) := ⟨rfl, rfl, rfl⟩
    rw [hc]
    exact inner_space l.c id _ (htaken.trans (ackedBy_inner _ packet))
      (.of_run (fun _ _ _ => StreamsState.receivedAckOf_finishes) hs)

theorem loseOne_inner {p : ℕ × SentPacket} (h : loseOne now id c p = .ok c') : Inner false c c' := by
  obtain ⟨s, removed, path, n, hs, -, -, rfl⟩ := loseOne_cases h
  exact inner_space c id _ ((requeue_inner (c.spaces id) p.2).trans ⟨rfl, rfl, rfl⟩)
    (.of_run (fun _ _ _ => StreamsState.retransmit_finishes) hs)

theorem detectLostPackets_inner (h : c.detectLostPackets now id = .ok c') : Inner false c c' := by
  refine detectLostPackets_inv (I := Inner false c) (fun t => ?_) (fun _ _ _ hx _ hs => hx.trans (loseOne_inner hs))
    (fun x hx => hx.trans (setLossDetectionTimer_inner x)) h
  exact inner_space c id c.path ⟨rfl, rfl, rfl⟩ (.of_eq rfl)

theorem onLossDetectionTimeout_inner (h : c.onLossDetectionTimeout now = .ok c') : Inner false c c' :=
  onLossDetectionTimeout_keeps (I := Inner false c) (fun _ _ _ hx hs => hx.trans (detectLostPackets_inner hs))
    (fun x hx => hx.trans (setLossDetectionTimer_inner x)) h (.refl c)

theorem ackNews_inner {ack : Ack} {l : AckLoop} (h : ackNews now id ack l = .ok c') : Inner false l.c c' :=
  ackNews_inv (I := Inner false l.c) (fun _ => inner_space l.c id _ ⟨rfl, rfl, rfl⟩ (.of_eq rfl))
    (fun _ _ hx hs => hx.trans (detectLostPackets_inner hs)) (fun x hx => hx.trans (setLossDetectionTimer_inner x)) h

/-- **An ACK changes what is in flight, and may finish streams.** -/
theorem onAckReceived_inner {ack : Ack} {r : Except TransportError Unit}
    (h : c.onAckReceived now id ack = .ok (r, c')) : Inner true c c' :=
  onAckReceived_inv (I := Inner true c) (fun _ _ _ hx hs => hx.trans (ackOne_inner hs))
    (fun _ _ hx hs => hx.trans (ackNews_inner hs).mono) h (.refl c)

theorem sent_inner (s : PacketSpace) (packet : SentPacket) : SpaceInner s (s.sent packet).2 := by
  unfold PacketSpace.sent
  dsimp only
  split_ifs <;> exact ⟨rfl, rfl, rfl⟩

theorem sendOne_inner (c : Connection) (t : Instant) : Inner false c (c.sendOne t) := by
  unfold sendOne NetworkPath.sendOne
  cases c.path.sendingQueue with
  | nil => exact .refl c
  | cons scheduled queue =>
      have hsent : ∀ packet path, Inner false c { c with
          path := path
          spaces := Function.update c.spaces scheduled.metaInfo.spaceId
            ((c.spaces scheduled.metaInfo.spaceId).sent packet).2 } :=
        fun packet path => inner_space c scheduled.metaInfo.spaceId path (sent_inner _ packet) (.of_eq rfl)
      dsimp only [NetworkPath.record]
      by_cases hack : scheduled.metaInfo.ackEliciting = true
      · rw [if_pos hack]
        exact (hsent _ _).trans (setLossDetectionTimer_inner _)
      · rw [if_neg hack]
        exact hsent _ _

end Inner

/-! ## Polls -/

/-- What a poll leaves alone, and every other change of what is in flight. -/
structure Outer (b : Bool) (c c' : Connection) : Prop where
  side : c'.side = c.side
  state : c'.state = c.state
  timers : ∀ t, t ≠ .lossDetection → t ≠ .maxAckDelay → c'.timers.data t = c.timers.data t
  dedup : ∀ id, (c'.spaces id).dedup = (c.spaces id).dedup
  events : c.streams.Finishes b c'.streams

section Outer

variable {b : Bool} {c c' : Connection} {now : Instant} {id : SpaceId}

theorem Inner.outer (h : Inner b c c') : Outer b c c' :=
  ⟨h.side, h.state, fun t ht _ => h.timers t (.inl ht), fun id => (h.spaces id).dedup, h.events⟩

theorem Outer.refl (c : Connection) : Outer b c c := (Inner.refl c).outer

theorem Outer.trans {c₁ c₂ c₃ : Connection} (h : Outer b c₁ c₂) (h' : Outer b c₂ c₃) :
    Outer b c₁ c₃ where
  side := h'.side.trans h.side
  state := h'.state.trans h.state
  timers := fun t h1 h2 => (h'.timers t h1 h2).trans (h.timers t h1 h2)
  dedup := fun id => (h'.dedup id).trans (h.dedup id)
  events := h.events.trans h'.events

/-- Neither the spaces change, nor what the application is told. -/
theorem Outer.of_eq (h1 : c'.side = c.side) (h2 : c'.state = c.state)
    (h3 : ∀ t, t ≠ .maxAckDelay → c'.timers.data t = c.timers.data t) (h4 : c'.spaces = c.spaces)
    (h5 : c'.streams.events = c.streams.events) : Outer b c c' :=
  ⟨h1, h2, fun t _ => h3 t, fun _ => by rw [h4], .of_eq h5⟩

/-- One space changes. -/
theorem outer_modifySpace (c : Connection) (id : SpaceId) (f : PacketSpace → PacketSpace)
    (h : (f (c.spaces id)).dedup = (c.spaces id).dedup) : Outer b c (c.modifySpace id f) where
  side := rfl
  state := rfl
  timers := fun _ _ _ => rfl
  dedup := forall_modifySpace (P := fun i x => x.dedup = (c.spaces i).dedup) c id f h fun _ _ => rfl
  events := .of_eq rfl

theorem populatePacket_outer {sent : SentFrames} {buf buf' : BufMut}
    (h : c.populatePacket now id buf = .ok (sent, c', buf')) : Outer false c c' := by
  obtain ⟨⟨sent₁, space, buf₁⟩, h1, h⟩ := Checked.bind_eq_ok.mp h
  have hs : space.dedup = (c.spaces id).dedup := by
    obtain ⟨-, hi, pending, ping, rfl⟩ := populateControl_space h1
    rfl
  dsimp only at h
  split_ifs at h
  · obtain ⟨⟨frames, s, buf₄⟩, hw, h⟩ := Checked.bind_eq_ok.mp h
    cases h
    refine (outer_modifySpace c id (fun _ => space) hs).trans (.of_eq rfl rfl (fun _ _ => rfl) rfl ?_)
    dsimp only
    rw [StreamsState.writeStreamFrames_rest hw]
  · cases h
    exact outer_modifySpace c id (fun _ => space) hs

theorem populatePacket_timers {sent : SentFrames} {buf buf' : BufMut}
    (h : c.populatePacket now id buf = .ok (sent, c', buf')) : c'.timers = c.timers := by
  obtain ⟨⟨sent₁, space, buf₁⟩, -, h⟩ := Checked.bind_eq_ok.mp h
  dsimp only at h
  split_ifs at h
  · obtain ⟨⟨frames, s, buf₄⟩, -, h⟩ := Checked.bind_eq_ok.mp h
    cases h
    rfl
  · cases h
    rfl

theorem noteAcks_outer (c : Connection) (id : SpaceId) (sent : SentFrames) : Outer false c (c.noteAcks id sent) := by
  unfold noteAcks
  split_ifs
  · exact (outer_modifySpace c id (fun s => { s with pendingAcks := s.pendingAcks.acksSent }) rfl).trans
      (.of_eq rfl rfl (fun _ ht => c.timers.data_stop_of_ne ht) rfl rfl)
  · exact .refl c

theorem composePacket_outer {close ackEliciting : Bool}
    (h : composePacket now close c id ackEliciting = .ok c') : Outer false c c' := by
  obtain ⟨n, buf, sent, c₂, buf₂, -, h2, rfl⟩ := composePacket_cases h
  have hstart : Outer false c (c.numbered id) := outer_modifySpace c id _ rfl
  have hschedule : ∀ packet, Outer false (c₂.noteAcks id sent) ((c₂.noteAcks id sent).schedule packet) :=
    fun packet => .of_eq rfl rfl (fun _ _ => rfl) rfl rfl
  refine hstart.trans (.trans ?_ ((noteAcks_outer c₂ id sent).trans (hschedule _)))
  rcases h2 with ⟨-, -, rfl, -⟩ | ⟨-, h2⟩
  · exact .of_eq rfl rfl (fun _ _ => rfl) rfl rfl
  · exact populatePacket_outer h2

/-- A packet stops the timer of its ACKs, and no other one. -/
theorem composePacket_timers {close ackEliciting : Bool}
    (h : composePacket now close c id ackEliciting = .ok c') :
    c'.timers = c.timers ∨ c'.timers = c.timers.stop .maxAckDelay := by
  obtain ⟨n, buf, sent, c₂, buf₂, -, h2, rfl⟩ := composePacket_cases h
  have h₂ : c₂.timers = c.timers := by
    rcases h2 with ⟨-, -, rfl, -⟩ | ⟨-, h2⟩
    · rfl
    · rw [populatePacket_timers h2]
      rfl
  rw [← h₂]
  show (c₂.noteAcks id sent).timers = _ ∨ (c₂.noteAcks id sent).timers = _
  unfold noteAcks
  split_ifs
  · exact .inr rfl
  · exact .inl rfl

theorem transmitSpace_outer {close blocked : Bool} {s s' : Connection × Bool}
    (h : transmitSpace now close blocked s id = .ok s') : Outer false s.1 s'.1 :=
  transmitSpace_inv (I := Outer false s.1) (fun _ hd => (discardSpace_inner hd).outer)
    (fun _ _ hx => hx.trans (.of_eq rfl rfl (fun _ _ => rfl) rfl rfl))
    (fun _ _ _ hx hs => hx.trans (composePacket_outer hs)) h (.refl s.1)

/-- **A poll changes what is in flight and what is to be acknowledged.** -/
theorem pollTransmit_outer {more : Bool} (h : c.pollTransmit now = .ok (more, c')) : Outer false c c' :=
  pollTransmit_inv (I := Outer false c) (fun _ _ _ _ _ hx hs => hx.trans (transmitSpace_outer hs))
    (fun _ _ hx => hx.trans (.of_eq rfl rfl (fun _ _ => rfl) rfl rfl)) h (.refl c)

end Outer

/-! ## Frames -/

/-- What a frame can do to a connection, and how the loop goes on after it. -/
inductive FrameMove (c : Connection) : Except TransportError Bool → Connection → Prop
  | skipped : FrameMove c (.ok true) c
  | illegal (e : TransportError) : FrameMove c (.error e) c
  | acked {now : Instant} {id : SpaceId} {ack : Ack} {r : Except TransportError Unit} {c' : Connection}
      {res : Except TransportError Bool} (h : c.onAckReceived now id ack = .ok (r, c'))
      (hres : res ≠ .ok false) : FrameMove c res c'
  | crypto (id : SpaceId) : FrameMove c (.ok true) (c.onCrypto id)
  | immediate (id : SpaceId) : FrameMove c (.ok true)
      (c.modifySpace id fun s => { s with pendingAcks := s.pendingAcks.setImmediateAckRequired })
  | streams {res : Except TransportError Bool} {s : StreamsState} (hs : c.streams.Reports s)
      (hres : res ≠ .ok false) :
      FrameMove c res { c with streams := s }
  | killed (reason : ConnectionError) : FrameMove c (.ok false) (c.kill reason)

section Frames

variable {c c' : Connection} {now : Instant} {id : SpaceId}

/-- A frame that is accepted or rejected does not end the packet in any other way. -/
theorem map_true_ne (r : Except TransportError Unit) : (r.map fun _ => true) ≠ .ok false := by
  cases r with
  | error e => exact fun h => by cases h
  | ok u => exact fun h => by cases h

theorem handleEarlyFrame_move {frame : Frame} {r : Except TransportError Bool}
    (h : handleEarlyFrame now id c frame = .ok (r, c')) : FrameMove c r c' := by
  cases frame with
  | padding | ping =>
      cases h
      exact .skipped
  | ack ack =>
      obtain ⟨⟨r, c₁⟩, h1, h⟩ := Checked.bind_eq_ok.mp h
      cases h
      exact .acked h1 (map_true_ne r)
  | crypto offset data =>
      cases h
      exact .crypto id
  | close reason =>
      cases h
      exact .killed _
  | _ =>
      cases h
      exact .illegal _

theorem handleFrame_move {payloadLen : ℕ} {frame : Frame} {r : Except TransportError Bool}
    (h : handleFrame now id payloadLen c frame = .ok (r, c')) : FrameMove c r c' := by
  cases frame with
  | immediateAck =>
      cases h
      exact .immediate id
  | ack ack =>
      obtain ⟨⟨r, c₁⟩, h1, h⟩ := Checked.bind_eq_ok.mp h
      cases h
      exact .acked h1 (map_true_ne r)
  | stream stream =>
      obtain ⟨⟨r, s⟩, h1, h⟩ := Checked.bind_eq_ok.mp h
      cases h
      exact .streams (StreamsState.received_reports h1) (map_true_ne r)
  | resetStream reset =>
      cases h
      exact .streams (c.streams.receivedReset_reports reset) (map_true_ne _)
  | stopSending stop =>
      cases h
      exact .streams (c.streams.receivedStopSending_reports stop) (map_true_ne _)
  | close reason =>
      cases h
      exact .killed _
  | _ =>
      cases h
      exact .skipped

/-- Only a CLOSE frame ends the packet. -/
theorem FrameMove.closes (h : FrameMove c (.ok false) c') : ∃ reason, c' = c.kill reason := by
  cases h with
  | acked _ hres => exact absurd rfl hres
  | streams _ hres => exact absurd rfl hres
  | killed reason => exact ⟨reason, rfl⟩

/-- **How the frames of a packet end.** What all frames but CLOSE keep still holds, or it did before
a CLOSE frame, which is the last one. -/
theorem Walk.ends {handle : Connection → Frame → Handled} {I : Connection → Prop}
    (hh : ∀ c frame r c', handle c frame = .ok (r, c') → FrameMove c r c')
    (hI : ∀ c r c', FrameMove c r c' → r ≠ .ok false → I c → I c') {n : ℕ} {parser : FrameParser}
    {r : Except TransportError Unit} (hw : Walk handle n parser c r c') (hc : I c) :
    I c' ∨ (r = .ok () ∧ ∃ c₁ reason, I c₁ ∧ c' = c₁.kill reason) := by
  induction hw with
  | out => exact .inl hc
  | ended _ => exact .inl hc
  | malformed _ => exact .inl hc
  | rejected _ h => exact .inl (hI _ _ _ (hh _ _ _ _ h) nofun hc)
  | closed _ h =>
      obtain ⟨reason, rfl⟩ := (hh _ _ _ _ h).closes
      exact .inr ⟨rfl, _, reason, hc, rfl⟩
  | next _ h _ ih => exact ih (hI _ _ _ (hh _ _ _ _ h) nofun hc)

theorem processFrames_ends {handle : Connection → Frame → Handled} {I : Connection → Prop}
    (hh : ∀ c frame r c', handle c frame = .ok (r, c') → FrameMove c r c')
    (hI : ∀ c r c', FrameMove c r c' → r ≠ .ok false → I c → I c') {payload : Bytes}
    {r : Except TransportError Unit} (h : c.processFrames payload handle = .ok (r, c')) (hc : I c) :
    I c' ∨ (r = .ok () ∧ ∃ c₁ reason, I c₁ ∧ c' = c₁.kill reason) := by
  rcases processFrames_cases h with ⟨e, -, -, rfl⟩ | ⟨parser, -, hw⟩
  · exact .inl hc
  · exact hw.ends hh hI hc

/-- **How a packet ends.** -/
theorem processPacket_ends {I : Connection → Prop}
    (hI : ∀ c r c', FrameMove c r c' → r ≠ .ok false → I c → I c') {number : Option ℕ} {packet : Packet}
    {r : Except ConnectionError Unit} (h : c.processPacket now number packet = .ok (r, c')) (hc : I c) :
    I c' ∨ (r = .ok () ∧ ∃ c₁ reason, I c₁ ∧ c' = c₁.kill reason) := by
  have hmap : ∀ {r : Except TransportError Unit} {c'},
      (I c' ∨ (r = .ok () ∧ ∃ c₁ reason, I c₁ ∧ c' = c₁.kill reason)) →
        I c' ∨ (r.mapError ConnectionError.transportError = .ok () ∧ ∃ c₁ reason, I c₁ ∧ c' = c₁.kill reason) :=
    fun h => h.imp_right fun ⟨hr, hk⟩ => ⟨by rw [hr]; rfl, hk⟩
  rcases processPacket_cases h with ⟨r', -, h1, rfl⟩ | ⟨-, -, -, rfl⟩ | ⟨n, r', -, -, h1, rfl⟩
  · exact hmap (processFrames_ends (fun _ _ _ _ => handleEarlyFrame_move) hI h1 hc)
  · exact .inl hc
  · exact hmap (processFrames_ends (fun _ _ _ _ => handleFrame_move) hI h1 hc)

/-- **What every frame keeps, a packet keeps.** -/
theorem processPacket_inv {I : Connection → Prop} (hI : ∀ c r c', FrameMove c r c' → I c → I c')
    {number : Option ℕ} {packet : Packet} {r : Except ConnectionError Unit}
    (h : c.processPacket now number packet = .ok (r, c')) (hc : I c) : I c' := by
  rcases processPacket_ends (fun c r c' hm _ => hI c r c' hm) h hc with hc' | ⟨-, c₁, reason, hc₁, rfl⟩
  · exact hc'
  · exact hI c₁ _ _ (.killed reason) hc₁

/-- A CRYPTO frame has no effect on what is received, and may end the handshake. -/
theorem onCrypto_kept (c : Connection) (id : SpaceId) : (c.onCrypto id).side = c.side ∧
    (c.onCrypto id).timers = c.timers ∧ ∀ i, SpaceInner (c.spaces i) ((c.onCrypto id).spaces i) := by
  have hspaces := forall_modifySpace (P := fun i x => SpaceInner (c.spaces i) x) c id (fun s => { s with
    hi := true
    pending := if !s.hi then { s.pending with hello := true } else s.pending }) ⟨rfl, rfl, rfl⟩ fun i _ => .refl _
  unfold onCrypto
  dsimp only
  split_ifs <;> exact ⟨rfl, rfl, hspaces⟩

theorem onCrypto_state (c : Connection) (id : SpaceId) :
    ((c.onCrypto id).state = c.state ∧ (c.onCrypto id).streams.events = c.streams.events) ∨
      (c.state = .handshake ∧ (c.onCrypto id).state = .established ∧
        (c.onCrypto id).streams.events = c.streams.events ++ [.connected]) := by
  have hh : c.state.isHandshake = true → c.state = .handshake := of_decide_eq_true
  unfold onCrypto
  dsimp only
  split_ifs with h1 h2 h2
  · exact .inr ⟨hh (Bool.and_eq_true_iff.mp h2).1, rfl, rfl⟩
  · exact .inl ⟨rfl, rfl⟩
  · exact .inr ⟨hh (Bool.and_eq_true_iff.mp h2).1, rfl, rfl⟩
  · exact .inl ⟨rfl, rfl⟩

end Frames

/-! ## Input -/

section Input

variable {c c' : Connection} {now : Instant} {id : SpaceId}

/-- An open connection after a packet is the one that has processed the frames. -/
theorem afterPacket_open {wasClosed wasDrained : Bool} {res : Except ConnectionError Unit × Connection}
    (h : (afterPacket now wasClosed wasDrained res).state.isClosed = false) :
    afterPacket now wasClosed wasDrained res = res.2 := by
  have he : ∀ e, (errorState e).isClosed = true := fun e => by cases e <;> rfl
  obtain ⟨r, c⟩ := res
  have hd : c.state.isClosed = false → c.state.isDrained = false := by
    intro hc
    cases hs : c.state with
    | drained =>
        rw [hs] at hc
        cases hc
    | _ => rfl
  unfold afterPacket at h ⊢
  cases r with
  | error e =>
      dsimp only at h
      split_ifs at h <;> exact absurd ((he e).symm.trans h) Bool.noConfusion
  | ok u =>
      dsimp only at h ⊢
      have hc : c.state.isClosed = false := by
        split_ifs at h <;> exact h
      simp [hc, hd hc]

/-- A packet that is authenticated is to be acknowledged. -/
theorem onPacketAuthenticated_outer {number : Option ℕ}
    (h : c.onPacketAuthenticated now id number = .ok c') : Outer false c c' :=
  onPacketAuthenticated_inv (I := Outer false c) (fun _ hd => (discardSpace_inner hd).outer)
    (fun x _ hx _ => hx.trans (outer_modifySpace x id _ rfl))
    (fun _ hx => hx.trans (.of_eq rfl rfl (fun _ ht => TimerTable.data_set_of_ne _ ht _) rfl rfl))
    (fun x hx => hx.trans (outer_modifySpace x id _ rfl)) h (.refl c)

theorem authenticate_outer {header : Header} (h : c.authenticate now header = .ok c') :
    Outer false (c.screened header) c' := by
  rcases authenticate_cases h with ⟨-, rfl⟩ | ⟨-, h⟩
  · exact .refl _
  · exact onPacketAuthenticated_outer h

end Input

/-- A connection as its task gets it. That of a client is new, and that of a server has taken the
first packet, of the given number. -/
inductive Starts : Connection → Option ℕ → Prop
  | client (now : Instant) : Starts (Connection.new now .client) none
  | server (now : Instant) {t : Instant} {packet : InitialPacket} {c : Connection}
      (h : (Connection.new now .server).handleFirstPacket t packet = .ok (.ok (), c)) :
      Starts c (some (packet.header.number.expand 0))

end Connection

open Connection

/-- The step belongs to the task of the connection: the first packet was handled before it. -/
def ConnectionOp.inTask : ConnectionOp → Bool
  | .handleFirstPacket .. => false
  | _ => true

/-- The calls of the application but `close`. -/
def ConnectionOp.isCall : ConnectionOp → Bool
  | .openStream _ | .write .. | .finish _ | .reset .. | .setPriority .. | .read .. | .stop .. | .takeReset _ => true
  | _ => false

/-- **A call changes the streams, and what the data space has to send.** -/
theorem connectionStep_call {c c' : Connection} {op : ConnectionOp} (hop : op.isCall = true)
    (h : connectionStep c op = .ok c') : ∃ s pending, s.events = c.streams.events ∧
      c' = { c with streams := s }.setPending pending := by
  -- a call that leaves what there is to send as it was
  have hsame : ∀ s : StreamsState, { c with streams := s } =
      { c with streams := s }.setPending (c.spaces .data).pending := by
    intro s
    unfold setPending modifySpace
    dsimp only
    rw [Function.update_eq_self]
  cases op with
  | openStream dir =>
      obtain ⟨⟨id, c₁⟩, h1, h⟩ := Checked.bind_eq_ok.mp h
      cases h
      unfold openStream at h1
      split_ifs at h1
      cases h1
      exact ⟨_, _, c.streams.open_events dir, hsame _⟩
  | write id data =>
      obtain ⟨u, -, h⟩ := Checked.bind_eq_ok.mp h
      cases h
      exact ⟨_, _, (c.streams.write_onlySend _ id data).events_nil, hsame _⟩
  | finish id =>
      obtain ⟨u, -, h⟩ := Checked.bind_eq_ok.mp h
      cases h
      exact ⟨_, _, (c.streams.finish_onlySend id).events_nil, hsame _⟩
  | reset id errorCode =>
      obtain ⟨u, -, h⟩ := Checked.bind_eq_ok.mp h
      cases h
      exact ⟨_, _, (c.streams.reset_onlySend _ id errorCode).events_nil, rfl⟩
  | setPriority id priority =>
      obtain ⟨u, -, h⟩ := Checked.bind_eq_ok.mp h
      cases h
      exact ⟨_, _, (c.streams.setPriority_onlySend id priority).events_nil, hsame _⟩
  | read id lengths =>
      obtain ⟨u, -, h⟩ := Checked.bind_eq_ok.mp h
      obtain ⟨s, hs, h⟩ := Checked.bind_eq_ok.mp h
      cases h
      exact ⟨s, _, StreamsState.readChunks_events hs, hsame s⟩
  | stop id errorCode =>
      obtain ⟨u, -, h⟩ := Checked.bind_eq_ok.mp h
      obtain ⟨⟨r, s, pending⟩, hs, h⟩ := Checked.bind_eq_ok.mp h
      cases h
      exact ⟨s, pending, StreamsState.stop_events hs, rfl⟩
  | takeReset id =>
      obtain ⟨u, -, h⟩ := Checked.bind_eq_ok.mp h
      cases h
      exact ⟨_, _, c.streams.takeReset_events id, hsame _⟩
  | _ => cases hop

theorem connectionStep_call_inner {c c' : Connection} {op : ConnectionOp} (hop : op.isCall = true)
    (h : connectionStep c op = .ok c') : Inner false c c' := by
  obtain ⟨s, pending, hs, rfl⟩ := connectionStep_call hop h
  exact inner_space c .data c.path ⟨rfl, rfl, rfl⟩ (.of_eq hs)

end MzQuic
