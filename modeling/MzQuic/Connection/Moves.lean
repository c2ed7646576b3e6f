import Mathlib.Logic.Relation
import MzQuic.Connection.Cases
import MzQuic.Stream.Transmit

/-!
# What a step of a connection can do

The steps of a connection are made of a few moves on the packets in flight, and of changes that
leave these alone.

* `Connection.core`: the fields in which packets in flight and buffered stream data are accounted;
* `Move`: a packet is received, acknowledged, lost, scheduled or sent, a space is discarded, or
  nothing of the core changes;
* `connectionStep_moves`: every step but `openStream` and `write` is a sequence of moves;
* `Moves.inv`: what every move keeps, every such step keeps.
-/

namespace MzQuic

open Lib Relation

namespace Connection

/-- Where packets in flight and stream data are accounted. -/
structure Core where
  queue : List SentPacket
  inFlight : InFlight
  firstPacket : Option ℕ
  next : SpaceId → ℕ
  sent : SpaceId → OrdMap SentPacket
  spaceInFlight : SpaceId → ℕ
  buffers : StreamId → Option SendBuffer

/-- The send buffers of the streams. -/
def buffers (s : StreamsState) (id : StreamId) : Option SendBuffer := (s.send id).map Send.pending

/-- The core of a connection. -/
def core (c : Connection) : Core where
  queue := c.path.sendingQueue.map ScheduledPacket.metaInfo
  inFlight := c.path.inFlight
  firstPacket := c.path.firstPacket
  next := fun id => (c.spaces id).nextPacketNumber
  sent := fun id => (c.spaces id).sentPackets
  spaceInFlight := fun id => (c.spaces id).inFlight
  buffers := buffers c.streams

/-- The packet numbers to acknowledge in each space. -/
def ackRanges (c : Connection) (id : SpaceId) : ArrayRangeSet := (c.spaces id).pendingAcks.ranges

/-- Nothing that is accounted changes. -/
def Quiet (c c' : Connection) : Prop := c'.core = c.core ∧ c'.ackRanges = c.ackRanges

/-- The moves. -/
inductive Move : Connection → Connection → Prop
  | quiet {c c' : Connection} (h : Quiet c c') : Move c c'
  | received {c c' : Connection} (id : SpaceId) (n : ℕ) (now : Instant) (hc : c'.core = c.core)
      (ha : c'.ackRanges = Function.update c.ackRanges id
        ((c.spaces id).pendingAcks.insertOne n now).ranges) : Move c c'
  | acked {l l' : AckLoop} (id : SpaceId) (pn : ℕ) (h : ackOne id l pn = .ok l') : Move l.c l'.c
  | lost {c c' : Connection} (now : Instant) (id : SpaceId) (p : ℕ × SentPacket)
      (hp : p ∈ (c.spaces id).sentPackets.entries) (h : loseOne now id c p = .ok c') : Move c c'
  | discarded {c c' : Connection} (id : SpaceId) (h : c.discardSpace id = .ok c') : Move c c'
  | composed {c c' : Connection} (now : Instant) (close : Bool) (id : SpaceId) (ackEliciting : Bool)
      (h : composePacket now close c id ackEliciting = .ok c') : Move c c'
  | sent {c : Connection} (t : Instant) : Move c (c.sendOne t)

/-- A sequence of moves. -/
abbrev Moves : Connection → Connection → Prop := ReflTransGen Move

/-- **What every move keeps, every sequence of moves keeps.** -/
theorem Moves.inv {I : Connection → Prop} (hI : ∀ c c', Move c c' → I c → I c') {c c' : Connection}
    (h : Moves c c') (hc : I c) : I c' := by
  induction h with
  | refl => exact hc
  | tail _ hm ih => exact hI _ _ hm ih

theorem Moves.of_quiet {c c' : Connection} (h : Quiet c c') : Moves c c' := .single (.quiet h)

/-! ## Changes that leave the core alone -/

section Quiet

variable {c : Connection}

theorem Quiet.trans {c₁ c₂ c₃ : Connection} (h : Quiet c₁ c₂) (h' : Quiet c₂ c₃) : Quiet c₁ c₃ :=
  ⟨h'.1.trans h.1, h'.2.trans h.2⟩

/-- A field of the spaces after one space has been changed. -/
theorem field_modifySpace {α : Type} (c : Connection) (id : SpaceId) (f : PacketSpace → PacketSpace)
    (g : PacketSpace → α) : (fun i => g ((c.modifySpace id f).spaces i)) =
      Function.update (fun i => g (c.spaces i)) id (g (f (c.spaces id))) := by
  funext i
  by_cases hi : i = id
  · subst hi
    simp only [modifySpace, Function.update_self]
  · simp only [modifySpace, Function.update_of_ne hi]

theorem ackRanges_modifySpace (c : Connection) (id : SpaceId) (f : PacketSpace → PacketSpace) :
    (c.modifySpace id f).ackRanges =
      Function.update c.ackRanges id (f (c.spaces id)).pendingAcks.ranges :=
  field_modifySpace c id f fun s => s.pendingAcks.ranges

theorem core_modifySpace (c : Connection) (id : SpaceId) (f : PacketSpace → PacketSpace)
    (h1 : (f (c.spaces id)).nextPacketNumber = (c.spaces id).nextPacketNumber)
    (h2 : (f (c.spaces id)).sentPackets = (c.spaces id).sentPackets)
    (h3 : (f (c.spaces id)).inFlight = (c.spaces id).inFlight) : (c.modifySpace id f).core = c.core := by
  unfold core
  congr 1
  · rw [field_modifySpace c id f PacketSpace.nextPacketNumber, h1, Function.update_eq_self_iff]
  · rw [field_modifySpace c id f PacketSpace.sentPackets, h2, Function.update_eq_self_iff]
  · rw [field_modifySpace c id f PacketSpace.inFlight, h3, Function.update_eq_self_iff]

/-- A space may be changed in everything else. -/
theorem quiet_modifySpace (c : Connection) (id : SpaceId) (f : PacketSpace → PacketSpace)
    (h1 : (f (c.spaces id)).nextPacketNumber = (c.spaces id).nextPacketNumber)
    (h2 : (f (c.spaces id)).sentPackets = (c.spaces id).sentPackets)
    (h3 : (f (c.spaces id)).inFlight = (c.spaces id).inFlight)
    (h4 : (f (c.spaces id)).pendingAcks.ranges = (c.spaces id).pendingAcks.ranges) :
    Quiet c (c.modifySpace id f) := by
  refine ⟨core_modifySpace c id f h1 h2 h3, ?_⟩
  rw [ackRanges_modifySpace, h4]
  exact Function.update_eq_self id c.ackRanges

theorem quiet_streams (c : Connection) {s : StreamsState} (h : buffers s = buffers c.streams) :
    Quiet c { c with streams := s } := by
  refine ⟨?_, rfl⟩
  unfold core
  congr 1

@[simp] theorem setLossDetectionTimer_path (c : Connection) : c.setLossDetectionTimer.path = c.path := by
  obtain ⟨timers, h⟩ := c.setLossDetectionTimer_eq
  rw [h]

theorem quiet_setLossDetectionTimer (c : Connection) : Quiet c c.setLossDetectionTimer := by
  obtain ⟨timers, h⟩ := c.setLossDetectionTimer_eq
  rw [h]
  exact ⟨rfl, rfl⟩

theorem quiet_afterPacket (now : Instant) (wasClosed wasDrained : Bool)
    (res : Except ConnectionError Unit × Connection) :
    Quiet res.2 (afterPacket now wasClosed wasDrained res) := by
  obtain ⟨r, c⟩ := res
  unfold afterPacket
  dsimp only
  cases r <;> dsimp only <;> split_ifs <;> exact ⟨rfl, rfl⟩

theorem quiet_close (c : Connection) (now : Instant) (errorCode : ℕ) (reason : Bytes) :
    Quiet c (c.close now errorCode reason) := by
  unfold close
  split_ifs <;> exact ⟨rfl, rfl⟩

theorem quiet_onCrypto (c : Connection) (id : SpaceId) : Quiet c (c.onCrypto id) := by
  unfold onCrypto
  dsimp only
  refine (quiet_modifySpace c id (fun s => { s with
    hi := true
    pending := if !s.hi then { s.pending with hello := true } else s.pending }) rfl rfl rfl rfl).trans ?_
  split_ifs <;> exact ⟨rfl, rfl⟩

/-- A change of an entry that leaves its buffer alone. -/
theorem buffers_update {s s' : StreamsState} {id : StreamId} {stream stream' : Send}
    (he : s.send id = some stream) (h : s'.send = Function.update s.send id (some stream'))
    (hp : stream'.pending = stream.pending) : buffers s' = buffers s := by
  funext i
  unfold buffers
  rw [h]
  by_cases hi : i = id
  · subst hi
    rw [Function.update_self, he, Option.map_some, Option.map_some, hp]
  · rw [Function.update_of_ne hi]

theorem buffers_congr {s s' : StreamsState} (h : s'.send = s.send) : buffers s' = buffers s := by
  funext i
  unfold buffers
  rw [h]

end Quiet

/-! ## Parts of the moves -/

section Fields

variable (s : PacketSpace) (path : NetworkPath) (packet : SentPacket)

/-- What `sent` does to the space. -/
theorem sent_spec : (s.sent packet).1 = 0 ∧
    (s.sent packet).2.nextPacketNumber = s.nextPacketNumber ∧
    (s.sent packet).2.sentPackets = s.sentPackets.insert packet.number packet ∧
    (s.sent packet).2.inFlight = s.inFlight + packet.size ∧
    (s.sent packet).2.pendingAcks = s.pendingAcks := by
  unfold PacketSpace.sent
  dsimp only
  split_ifs <;> exact ⟨rfl, rfl, rfl, rfl, rfl⟩

variable (b : Bool) (now : Instant) (appLimited : Bool)

@[simp] theorem acked_sendingQueue : (path.acked b packet appLimited).sendingQueue = path.sendingQueue := by
  unfold NetworkPath.acked; split_ifs <;> rfl

@[simp] theorem acked_inFlight : (path.acked b packet appLimited).inFlight = path.inFlight := by
  unfold NetworkPath.acked; split_ifs <;> rfl

@[simp] theorem acked_firstPacket : (path.acked b packet appLimited).firstPacket = path.firstPacket := by
  unfold NetworkPath.acked; split_ifs <;> rfl

@[simp] theorem lost_sendingQueue : (path.lost b packet now).sendingQueue = path.sendingQueue := by
  unfold NetworkPath.lost; split_ifs <;> rfl

@[simp] theorem lost_inFlight : (path.lost b packet now).inFlight = path.inFlight := by
  unfold NetworkPath.lost; split_ifs <;> rfl

@[simp] theorem lost_firstPacket : (path.lost b packet now).firstPacket = path.firstPacket := by
  unfold NetworkPath.lost; split_ifs <;> rfl

end Fields

/-! ## The functions of a connection -/

section Functions

variable {c c' : Connection} {now : Instant} {id : SpaceId}

theorem ackOne_moves {l l' : AckLoop} {pn : ℕ} (h : ackOne id l pn = .ok l') : Moves l.c l'.c :=
  .single (.acked id pn h)

theorem detectLostPackets_moves (h : c.detectLostPackets now id = .ok c') : Moves c c' :=
  detectLostPackets_inv (I := Moves c) (fun _ => .of_quiet (quiet_modifySpace c id _ rfl rfl rfl rfl))
    (fun _ p _ hx hp hs => hx.tail (.lost now id p hp hs))
    (fun x hx => hx.tail (.quiet (quiet_setLossDetectionTimer x))) h

theorem onLossDetectionTimeout_moves (h : c.onLossDetectionTimeout now = .ok c') : Moves c c' :=
  onLossDetectionTimeout_keeps (I := Moves c) (fun _ _ _ hx hs => hx.trans (detectLostPackets_moves hs))
    (fun x hx => hx.tail (.quiet (quiet_setLossDetectionTimer x))) h .refl

/-- What is noted of a frame before losses are detected leaves the core alone. -/
theorem ackNews_eq (now : Instant) (id : SpaceId) (ack : Ack) (l : AckLoop) : ∃ c₁, Quiet l.c c₁ ∧
    c₁.spaces id = noteLargest (l.c.spaces id) now ack ∧
    ackNews now id ack l =
      c₁.detectLostPackets now id >>= fun c => .ok c.setLossDetectionTimer := by
  refine ⟨_, ?_, ?_, rfl⟩
  · refine (quiet_modifySpace l.c id (noteLargest · now ack) rfl rfl rfl rfl).trans ?_
    split <;> exact ⟨rfl, rfl⟩
  · have hspace : (l.c.modifySpace id (noteLargest · now ack)).spaces id = noteLargest (l.c.spaces id) now ack :=
      Function.update_self ..
    split <;> exact hspace

theorem ackNews_moves {ack : Ack} {l : AckLoop} (h : ackNews now id ack l = .ok c') :
    Moves l.c c' := by
  refine ackNews_inv (I := Moves l.c) (fun rtt => ?_) (fun _ _ hx hs => hx.trans (detectLostPackets_moves hs))
    (fun x hx => hx.tail (.quiet (quiet_setLossDetectionTimer x))) h
  exact (Moves.of_quiet (quiet_modifySpace l.c id (noteLargest · now ack) rfl rfl rfl rfl)).tail (.quiet ⟨rfl, rfl⟩)

theorem onAckReceived_moves {ack : Ack} {r : Except TransportError Unit}
    (h : c.onAckReceived now id ack = .ok (r, c')) : Moves c c' :=
  onAckReceived_inv (I := Moves c) (fun _ _ _ hx hs => hx.trans (ackOne_moves hs))
    (fun _ _ hx hs => hx.trans (ackNews_moves hs)) h .refl

theorem packetReceived_ranges (a : PendingAcks) (now : Instant) (n : ℕ) (ackEliciting : Bool)
    (dedup : Dedup) :
    (a.packetReceived now n ackEliciting dedup).2.ranges = (a.insertOne n now).ranges := by
  have hr : (a.record now n ackEliciting).ranges = (a.insertOne n now).ranges := by
    unfold PendingAcks.record
    cases ackEliciting <;> rfl
  unfold PendingAcks.packetReceived
  dsimp only
  split_ifs <;> exact hr

theorem onPacketAuthenticated_moves {number : Option ℕ}
    (h : c.onPacketAuthenticated now id number = .ok c') : Moves c c' := by
  refine onPacketAuthenticated_inv (I := Moves c) (fun _ hd => .single (.discarded _ hd)) (fun x n hx _ => ?_)
    (fun _ hx => hx.tail (.quiet ⟨rfl, rfl⟩))
    (fun x hx => hx.tail (.quiet (quiet_modifySpace x id _ rfl rfl rfl rfl))) h .refl
  refine hx.tail (.received id n now (core_modifySpace x id _ rfl rfl rfl) ?_)
  rw [recorded, ackRanges_modifySpace, packetReceived_ranges]

/-- A handler of frames that only makes moves. -/
def HandlesByMoves (handle : Connection → Frame → Handled) : Prop :=
  ∀ c frame r c', handle c frame = .ok (r, c') → Moves c c'

theorem handleEarlyFrame_moves (now : Instant) (id : SpaceId) :
    HandlesByMoves (handleEarlyFrame now id) := by
  intro c frame r c' h
  cases frame with
  | ack ack =>
      obtain ⟨⟨r, c₁⟩, h1, h⟩ := Checked.bind_eq_ok.mp h
      cases h
      exact onAckReceived_moves h1
  | crypto offset data =>
      cases h
      exact Moves.of_quiet (quiet_onCrypto c id)
  | close reason =>
      cases h
      exact Moves.of_quiet ⟨rfl, rfl⟩
  | _ =>
      cases h
      exact .refl

theorem handleFrame_moves (now : Instant) (id : SpaceId) (payloadLen : ℕ) :
    HandlesByMoves (handleFrame now id payloadLen) := by
  intro c frame r c' h
  cases frame with
  | immediateAck =>
      cases h
      exact Moves.of_quiet (quiet_modifySpace c id _ rfl rfl rfl rfl)
  | ack ack =>
      obtain ⟨⟨r, c₁⟩, h1, h⟩ := Checked.bind_eq_ok.mp h
      cases h
      exact onAckReceived_moves h1
  | stream stream =>
      obtain ⟨⟨r, s⟩, h1, h⟩ := Checked.bind_eq_ok.mp h
      cases h
      exact Moves.of_quiet (quiet_streams c (buffers_congr (StreamsState.received_sameSend h1).send))
  | resetStream reset =>
      cases h
      exact Moves.of_quiet (quiet_streams c (buffers_congr (c.streams.receivedReset_sameSend reset).send))
  | stopSending stop =>
      cases h
      refine Moves.of_quiet (quiet_streams c ?_)
      rcases c.streams.receivedStopSending_send stop with e | ⟨stream, reason, he, e⟩
      · exact buffers_congr e
      · exact buffers_update he e rfl
  | close reason =>
      cases h
      exact Moves.of_quiet ⟨rfl, rfl⟩
  | _ =>
      cases h
      exact .refl

theorem processPacket_moves {number : Option ℕ} {packet : Packet} {r : Except ConnectionError Unit}
    (h : c.processPacket now number packet = .ok (r, c')) : Moves c c' :=
  processPacket_keeps (I := Moves c)
    (fun id _ _ _ _ hx hs => hx.trans (handleEarlyFrame_moves now id _ _ _ _ hs))
    (fun id k _ _ _ _ hx hs => hx.trans (handleFrame_moves now id k _ _ _ _ hs)) h .refl

theorem handleFirstPacket_moves {packet : InitialPacket} {r : Except ConnectionError Unit}
    (h : c.handleFirstPacket now packet = .ok (r, c')) : Moves c c' := by
  obtain ⟨c₁, h1, h⟩ := Checked.bind_eq_ok.mp h
  exact (onPacketAuthenticated_moves h1).trans (processPacket_moves h)

theorem handleData_moves {data : Bytes} (h : c.handleData now data = .ok c') : Moves c c' := by
  have hq : ∀ header, Moves c (c.screened header) :=
    fun header => Moves.of_quiet (quiet_modifySpace c header.space _ rfl rfl rfl rfl)
  rcases handleData_cases h with ⟨-, rfl⟩ | ⟨packet, -, ⟨-, rfl⟩ | ⟨-, c₁, res, h1, h2, rfl⟩⟩
  · exact .refl
  · exact hq _
  · have hc₁ : Moves c c₁ := by
      rcases authenticate_cases h1 with ⟨-, rfl⟩ | ⟨-, h1⟩
      · exact hq _
      · exact (hq _).trans (onPacketAuthenticated_moves h1)
    exact (hc₁.trans (processPacket_moves h2)).tail (.quiet (quiet_afterPacket now _ _ res))

theorem transmitSpace_moves {close congestionBlocked : Bool} {s s' : Connection × Bool}
    (h : transmitSpace now close congestionBlocked s id = .ok s') : Moves s.1 s'.1 :=
  transmitSpace_inv (I := Moves s.1) (fun _ hd => .single (.discarded _ hd))
    (fun _ _ hx => hx.tail (.quiet ⟨rfl, rfl⟩)) (fun _ _ _ hx hs => hx.tail (.composed now close id _ hs)) h .refl

theorem pollTransmit_moves {more : Bool} (h : c.pollTransmit now = .ok (more, c')) : Moves c c' :=
  pollTransmit_inv (I := Moves c) (fun _ _ _ _ _ hx hs => hx.trans (transmitSpace_moves hs))
    (fun _ _ hx => hx.tail (.quiet ⟨rfl, rfl⟩)) h .refl

theorem pollTimers_moves (h : c.pollTimers now = .ok c') : Moves c c' := by
  rcases pollTimers_fired h with rfl | ⟨timer, hf⟩
  · exact .refl
  · have hq : Moves c { c with timers := c.timers.stop timer } := Moves.of_quiet ⟨rfl, rfl⟩
    refine hq.trans ?_
    cases hf with
    | lossDetection h => exact onLossDetectionTimeout_moves h
    | close => exact Moves.of_quiet ⟨rfl, rfl⟩
    | maxAckDelay => exact Moves.of_quiet (quiet_modifySpace _ .data _ rfl rfl rfl rfl)
    | other _ _ _ => exact .refl

end Functions

end Connection

namespace Connection

/-! ## What the moves do to the core -/

/-- What `remove_in_flight` does to the counters of the path. -/
def removed (firstPacket : Option ℕ) (f : InFlight) (pn : ℕ) (packet : SentPacket) : Checked InFlight :=
  if firstPacket.all (· > pn) then .ok f else f.remove packet

theorem removeInFlight_ok {path path' : NetworkPath} {pn : ℕ} {packet : SentPacket} {b : Bool}
    (h : path.removeInFlight pn packet = .ok (b, path')) :
    removed path.firstPacket path.inFlight pn packet = .ok path'.inFlight ∧
      path' = { path with inFlight := path'.inFlight } := by
  unfold NetworkPath.removeInFlight at h
  unfold removed
  split_ifs at h ⊢ with hf
  · cases h
    exact ⟨rfl, rfl⟩
  · obtain ⟨f, h1, h⟩ := Checked.bind_eq_ok.mp h
    cases h
    exact ⟨h1, rfl⟩

/-- A packet leaves its space, and the path under the number `k`; the streams become `s`. -/
structure Resolves (c c' : Connection) (id : SpaceId) (pn k : ℕ) (packet : SentPacket)
    (s : StreamsState) : Prop where
  found : (c.spaces id).sentPackets.find? pn = some packet
  size_le : packet.size ≤ (c.spaces id).inFlight
  path : removed c.path.firstPacket c.path.inFlight k packet = .ok c'.path.inFlight
  core : c'.core = { c.core with
    inFlight := c'.path.inFlight
    sent := Function.update c.core.sent id ((c.spaces id).sentPackets.erase pn)
    spaceInFlight := Function.update c.core.spaceInFlight id ((c.spaces id).inFlight - packet.size)
    buffers := buffers s }

section Effects

variable {c c' : Connection} {now : Instant} {id : SpaceId}

theorem Resolves.sentPackets {pn k : ℕ} {packet : SentPacket} {s : StreamsState}
    (h : Resolves c c' id pn k packet s) :
    (c'.spaces id).sentPackets = (c.spaces id).sentPackets.erase pn := by
  have hs : c'.core.sent = Function.update c.core.sent id ((c.spaces id).sentPackets.erase pn) := by
    rw [h.core]
  exact (congrFun hs id).trans (Function.update_self ..)

/-- The core after one space, the path and the streams have changed. -/
theorem core_changed (c : Connection) (id : SpaceId) {space : PacketSpace} {path : NetworkPath}
    (s : StreamsState) (h1 : space.nextPacketNumber = (c.spaces id).nextPacketNumber)
    (h2 : path.sendingQueue = c.path.sendingQueue) (h3 : path.firstPacket = c.path.firstPacket) :
    { c.modifySpace id fun _ => space with path := path, streams := s }.core = { c.core with
      inFlight := path.inFlight
      sent := Function.update c.core.sent id space.sentPackets
      spaceInFlight := Function.update c.core.spaceInFlight id space.inFlight
      buffers := buffers s } := by
  unfold core
  congr 1
  · rw [h2]
  · refine (field_modifySpace c id (fun _ => space) PacketSpace.nextPacketNumber).trans ?_
    rw [h1, Function.update_eq_self_iff]
  · exact field_modifySpace c id (fun _ => space) PacketSpace.sentPackets
  · exact field_modifySpace c id (fun _ => space) PacketSpace.inFlight

theorem ackRanges_changed (c : Connection) (id : SpaceId) (space : PacketSpace) (path : NetworkPath)
    (s : StreamsState) : { c.modifySpace id fun _ => space with path := path, streams := s }.ackRanges =
      Function.update c.ackRanges id space.pendingAcks.ranges :=
  ackRanges_modifySpace c id fun _ => space

/-- An acknowledged packet. -/
theorem ackOne_ok {l l' : AckLoop} {pn : ℕ} (h : ackOne id l pn = .ok l') :
    (l' = l ∧ (l.c.spaces id).sentPackets.find? pn = none) ∨
      ∃ packet s, Resolves l.c l'.c id pn packet.number packet s ∧
      run StreamsState.receivedAckOf l.c.streams packet.streamFrames = .ok s ∧
      l'.c.ackRanges = Function.update l.c.ackRanges id
        ((l.c.spaces id).ackedBy packet).pendingAcks.ranges := by
  obtain ⟨hnone, rfl⟩ | ⟨packet, s, removed, path, hfind, hle, hs, hp, -, hc⟩ := ackOne_cases h
  · exact .inl ⟨rfl, hnone⟩
  obtain ⟨hrem, hpath⟩ := removeInFlight_ok hp
  rw [hc]
  refine .inr ⟨packet, s, ⟨hfind, hle, by simpa using hrem, ?_⟩, hs, ?_⟩
  · refine (core_changed _ _ _ (by simp [PacketSpace.taken]) (by rw [acked_sendingQueue, hpath])
      (by rw [acked_firstPacket, hpath])).trans ?_
    simp [PacketSpace.taken]
  · refine (ackRanges_changed l.c id _ _ s).trans ?_
    congr 1
    unfold PacketSpace.ackedBy
    split <;> rfl

/-- A lost packet. -/
theorem loseOne_ok {p : ℕ × SentPacket} (hp : p ∈ (c.spaces id).sentPackets.entries)
    (h : loseOne now id c p = .ok c') : ∃ s, Resolves c c' id p.1 p.1 p.2 s ∧
      run StreamsState.retransmit c.streams p.2.streamFrames = .ok s ∧
      c'.ackRanges = c.ackRanges := by
  have hfound : (c.spaces id).sentPackets.find? p.1 = some p.2 := OrdMap.find?_eq_some.mpr hp
  obtain ⟨s, removed, path, n, hs, hrem, hn, rfl⟩ := loseOne_cases h
  obtain ⟨hle, rfl⟩ := hn p.2 hfound
  obtain ⟨hrem, hpath⟩ := removeInFlight_ok hrem
  refine ⟨s, ⟨hfound, hle, by simpa using hrem, ?_⟩, hs, ?_⟩
  · exact core_changed _ _ _ (by simp) (by rw [lost_sendingQueue, hpath]) (by rw [lost_firstPacket, hpath])
  · refine (ackRanges_changed c id _ _ s).trans ?_
    dsimp only
    rw [requeue_pendingAcks]
    exact Function.update_eq_self id c.ackRanges

/-- The loop of `discard_space` changes the counters of the path only. -/
theorem removeAll_ok {path path' : NetworkPath} {packets : List (ℕ × SentPacket)}
    (h : run (fun path p => do return (← path.removeInFlight p.1 p.2).2) path packets = .ok path') :
    run (fun f p => removed path.firstPacket f p.1 p.2) path.inFlight packets = .ok path'.inFlight ∧
      path' = { path with inFlight := path'.inFlight } := by
  induction packets generalizing path with
  | nil =>
      cases h
      exact ⟨rfl, rfl⟩
  | cons p packets ih =>
      obtain ⟨path₁, h1, h⟩ := Checked.bind_eq_ok.mp h
      obtain ⟨⟨b, path₂⟩, h2, h1⟩ := Checked.bind_eq_ok.mp h1
      cases h1
      obtain ⟨hrem, hpath⟩ := removeInFlight_ok h2
      obtain ⟨ih1, ih2⟩ := ih h
      rw [hpath] at ih1 ih2
      refine ⟨?_, ih2⟩
      rw [run_cons, hrem]
      exact ih1

/-- A discarded space. -/
theorem discardSpace_ok (h : c.discardSpace id = .ok c') :
    run (fun f p => removed c.path.firstPacket f p.1 p.2) c.path.inFlight
        (c.spaces id).sentPackets.entries = .ok c'.path.inFlight ∧
      c'.core = { c.core with
        inFlight := c'.path.inFlight
        sent := Function.update c.core.sent id ∅
        spaceInFlight := Function.update c.core.spaceInFlight id 0 } ∧
      c'.ackRanges = c.ackRanges := by
  obtain ⟨u, -, h⟩ := Checked.bind_eq_ok.mp h
  obtain ⟨path, hr, h⟩ := Checked.bind_eq_ok.mp h
  cases h
  obtain ⟨h1, hpath⟩ := removeAll_ok hr
  have hq := quiet_setLossDetectionTimer { c.modifySpace id (fun s =>
    { s with lossTime := none, inFlight := 0, sentPackets := ∅ }) with path := path }
  have hp : (setLossDetectionTimer { c.modifySpace id (fun s =>
      { s with lossTime := none, inFlight := 0, sentPackets := ∅ }) with path := path }).path.inFlight =
        path.inFlight := congrArg Core.inFlight hq.1
  refine ⟨by rw [hp]; exact h1, ?_, ?_⟩
  · rw [hp, hq.1]
    exact core_changed c id c.streams rfl (by rw [hpath]; rfl) (by rw [hpath]; rfl)
  · rw [hq.2]
    refine (ackRanges_changed c id _ _ c.streams).trans ?_
    exact Function.update_eq_self id c.ackRanges

theorem discardSpace_path (h : c.discardSpace id = .ok c') :
    c'.path = { c.path with inFlight := c'.path.inFlight } := by
  obtain ⟨u, -, h⟩ := Checked.bind_eq_ok.mp h
  obtain ⟨path, hr, h⟩ := Checked.bind_eq_ok.mp h
  cases h
  rw [setLossDetectionTimer_path]
  exact (removeAll_ok hr).2

/-- A sent packet. -/
theorem sendOne_ok (c : Connection) (t : Instant) :
    (c.core.queue = [] ∧ c.sendOne t = c) ∨ ∃ p queue, c.core.queue = p :: queue ∧
      (c.sendOne t).core = { c.core with
        queue := queue
        inFlight := c.core.inFlight.insert p
        firstPacket := if c.core.firstPacket.isNone then some p.number else c.core.firstPacket
        sent := Function.update c.core.sent p.spaceId
          ((c.core.sent p.spaceId).insert p.number { p with timeSent := t })
        spaceInFlight := Function.update c.core.spaceInFlight p.spaceId
          (c.core.spaceInFlight p.spaceId + p.size) } ∧
      (c.sendOne t).ackRanges = c.ackRanges := by
  cases hqueue : c.path.sendingQueue with
  | nil =>
      left
      constructor
      · simp [core, hqueue]
      · unfold sendOne NetworkPath.sendOne
        rw [hqueue]
  | cons scheduled rest =>
      right
      obtain ⟨packet, p⟩ := scheduled
      set q : SentPacket := { p with timeSent := t }
      obtain ⟨h0, h1, h2, h3, h4⟩ := sent_spec (c.spaces p.spaceId) q
      set c₁ : Connection := { c with
        path := { c.path with
          sendingQueue := rest
          inFlight := c.path.inFlight.insert p
          firstPacket := if c.path.firstPacket.isNone then some p.number else c.path.firstPacket }
        spaces := Function.update c.spaces p.spaceId ((c.spaces p.spaceId).sent q).2 }
      have hsend : c.sendOne t = if p.ackEliciting then c₁.setLossDetectionTimer else c₁ := by
        unfold sendOne NetworkPath.sendOne
        rw [hqueue]
        dsimp only [NetworkPath.record]
        rw [h0]
        rfl
      have hq : Quiet c₁ (c.sendOne t) := by
        rw [hsend]
        split_ifs
        · exact quiet_setLossDetectionTimer c₁
        · exact ⟨rfl, rfl⟩
      refine ⟨p, rest.map ScheduledPacket.metaInfo, by simp [core, hqueue], ?_, ?_⟩
      · rw [hq.1]
        unfold core
        congr 1
        · refine (field_modifySpace c p.spaceId (fun s => (s.sent q).2) PacketSpace.nextPacketNumber).trans ?_
          rw [h1, Function.update_eq_self_iff]
        · refine (field_modifySpace c p.spaceId (fun s => (s.sent q).2) PacketSpace.sentPackets).trans ?_
          rw [h2]
        · refine (field_modifySpace c p.spaceId (fun s => (s.sent q).2) PacketSpace.inFlight).trans ?_
          rw [h3]
      · rw [hq.2]
        refine (ackRanges_modifySpace c p.spaceId fun s => (s.sent q).2).trans ?_
        rw [h4]
        exact Function.update_eq_self p.spaceId c.ackRanges

/-- The connection that has used the next number of the space. -/
def numbered (c : Connection) (id : SpaceId) : Connection :=
  c.modifySpace id fun s => { s with nextPacketNumber := s.nextPacketNumber + 1 }

theorem numbered_ackRanges (c : Connection) (id : SpaceId) : (c.numbered id).ackRanges = c.ackRanges :=
  (ackRanges_modifySpace c id _).trans (Function.update_eq_self id c.ackRanges)

/-- The number of a new packet. -/
theorem startPacket_ok {n : ℕ} {buf : BufMut} (h : c.startPacket id = .ok (n, c', buf)) :
    n = (c.spaces id).nextPacketNumber ∧ n < 2 ^ 62 ∧ c' = c.numbered id := by
  obtain ⟨⟨n', space⟩, hn, h⟩ := Checked.bind_eq_ok.mp h
  obtain ⟨u, ha, hn⟩ := Checked.bind_eq_ok.mp hn
  cases hn
  obtain ⟨number, -, h⟩ := Checked.bind_eq_ok.mp h
  obtain ⟨buf', -, h⟩ := Checked.bind_eq_ok.mp h
  cases h
  exact ⟨rfl, Checked.assert_eq_ok.mp ha, rfl⟩

/-- **What the composition of a packet does.** It takes a number, fills the packet with ACKs if the connection is
being closed and with frames otherwise, and schedules it. -/
theorem composePacket_cases {close ackEliciting : Bool} (h : composePacket now close c id ackEliciting = .ok c') :
    ∃ n buf sent c₂ buf₂, c.startPacket id = .ok (n, c.numbered id, buf) ∧
      ((close = true ∧ sent = {} ∧ c₂ = { c.numbered id with pendingClose := false } ∧
          ∃ largest, populateAnyAcks now ((c.numbered id).spaces id) buf = .ok (largest, buf₂)) ∨
        (close = false ∧ (c.numbered id).populatePacket now id buf = .ok (sent, c₂, buf₂))) ∧
      c' = (c₂.noteAcks id sent).schedule ⟨buf₂.written, metaInfo now id ackEliciting n sent buf₂⟩ := by
  obtain ⟨⟨n, c₁, buf⟩, h1, h⟩ := Checked.bind_eq_ok.mp h
  obtain ⟨⟨sent, c₂, buf₂⟩, h2, h⟩ := Checked.bind_eq_ok.mp h
  cases h
  obtain ⟨-, -, rfl⟩ := startPacket_ok h1
  refine ⟨n, buf, sent, c₂, buf₂, h1, ?_, rfl⟩
  cases close with
  | true =>
      obtain ⟨⟨largest, b⟩, h3, h2⟩ := Checked.bind_eq_ok.mp h2
      cases h2
      exact .inl ⟨rfl, rfl, rfl, largest, h3⟩
  | false => exact .inr ⟨rfl, h2⟩

/-- A space that differs in what it has to send only. -/
structure SpaceKept (s s' : PacketSpace) : Prop where
  next : s'.nextPacketNumber = s.nextPacketNumber
  sent : s'.sentPackets = s.sentPackets
  inFlight : s'.inFlight = s.inFlight
  acks : s'.pendingAcks = s.pendingAcks

theorem populateHello_ok {sent sent' : SentFrames} {space space' : PacketSpace} {buf buf' : BufMut}
    (h : populateHello id sent space buf = .ok (sent', space', buf')) : sent'.streamFrames = sent.streamFrames ∧
      ∃ hi pending ping, space' = { space with hi := hi, pending := pending, pingPending := ping } := by
  obtain ⟨⟨sent₁, space₁, buf₁⟩, h1, h⟩ := Checked.bind_eq_ok.mp h
  have hk : sent₁.streamFrames = sent.streamFrames ∧
      ∃ hi pending, space₁ = { space with hi := hi, pending := pending } := by
    split_ifs at h1
    · obtain ⟨b1, -, h1⟩ := Checked.bind_eq_ok.mp h1
      obtain ⟨b2, -, h1⟩ := Checked.bind_eq_ok.mp h1
      obtain ⟨b3, -, h1⟩ := Checked.bind_eq_ok.mp h1
      obtain ⟨b4, -, h1⟩ := Checked.bind_eq_ok.mp h1
      cases h1
      exact ⟨rfl, _, _, rfl⟩
    · cases h1
      exact ⟨rfl, _, _, rfl⟩
  obtain ⟨hs, hi, pending, rfl⟩ := hk
  dsimp only at h
  split_ifs at h
  · obtain ⟨b, -, h⟩ := Checked.bind_eq_ok.mp h
    cases h
    exact ⟨hs, hi, pending, false, rfl⟩
  · cases h
    exact ⟨hs, hi, pending, space.pingPending, rfl⟩

/-- **What the control part of a packet does to its space.** It changes what there is to send, and no more. -/
theorem populateControl_space {sent : SentFrames} {space : PacketSpace} {buf buf' : BufMut}
    (h : c.populateControl now id buf = .ok (sent, space, buf')) : sent.streamFrames = [] ∧
      ∃ hi pending ping, space = { c.spaces id with hi := hi, pending := pending, pingPending := ping } := by
  obtain ⟨⟨largestAcked, buf₁⟩, -, h⟩ := Checked.bind_eq_ok.mp h
  obtain ⟨⟨sent₁, space₁, buf₂⟩, h1, h⟩ := Checked.bind_eq_ok.mp h
  obtain ⟨hs, hi, pending, ping, rfl⟩ := populateHello_ok h1
  dsimp only at h
  split_ifs at h
  · obtain ⟨⟨b, pending', retransmits⟩, -, h⟩ := Checked.bind_eq_ok.mp h
    cases h
    exact ⟨hs, hi, pending', ping, rfl⟩
  · cases h
    exact ⟨hs, hi, pending, ping, rfl⟩

theorem populateControl_ok {sent : SentFrames} {space : PacketSpace} {buf buf' : BufMut}
    (h : c.populateControl now id buf = .ok (sent, space, buf')) :
    sent.streamFrames = [] ∧ SpaceKept (c.spaces id) space := by
  obtain ⟨hs, hi, pending, ping, rfl⟩ := populateControl_space h
  exact ⟨hs, rfl, rfl, rfl, rfl⟩

/-- The STREAM frames of a packet, and the streams after they were written. -/
def Writes (s : StreamsState) (frames : List StreamMeta) (s' : StreamsState) : Prop :=
  (frames = [] ∧ s' = s) ∨ ∃ buf buf', s.writeStreamFrames buf true = .ok (frames, s', buf')

theorem populatePacket_ok {sent : SentFrames} {buf buf' : BufMut}
    (h : c.populatePacket now id buf = .ok (sent, c', buf')) :
    Writes c.streams sent.streamFrames c'.streams ∧
      c'.core = { c.core with buffers := buffers c'.streams } ∧ c'.ackRanges = c.ackRanges := by
  obtain ⟨⟨sent₁, space, buf₁⟩, h1, h⟩ := Checked.bind_eq_ok.mp h
  obtain ⟨hs, hk⟩ := populateControl_ok h1
  have hc : ∀ s, { c.modifySpace id (fun _ => space) with streams := s }.core =
      { c.core with buffers := buffers s } := by
    intro s
    refine (core_changed c id s hk.next rfl rfl).trans ?_
    have e1 : Function.update c.core.sent id (c.spaces id).sentPackets = c.core.sent :=
      Function.update_eq_self id c.core.sent
    have e2 : Function.update c.core.spaceInFlight id (c.spaces id).inFlight = c.core.spaceInFlight :=
      Function.update_eq_self id c.core.spaceInFlight
    rw [hk.sent, hk.inFlight, e1, e2]
    rfl
  have ha : (c.modifySpace id fun _ => space).ackRanges = c.ackRanges := by
    rw [ackRanges_modifySpace, hk.acks]
    exact Function.update_eq_self id c.ackRanges
  dsimp only at h
  split_ifs at h with hid
  · obtain ⟨⟨frames, s, buf₂⟩, hw, h⟩ := Checked.bind_eq_ok.mp h
    cases h
    exact ⟨.inr ⟨_, _, hw⟩, hc s, ha⟩
  · cases h
    exact ⟨.inl ⟨hs, rfl⟩, hc c.streams, ha⟩

theorem quiet_noteAcks (c : Connection) (id : SpaceId) (sent : SentFrames) :
    Quiet c (c.noteAcks id sent) := by
  unfold noteAcks
  split_ifs
  · exact quiet_modifySpace c id (fun s => { s with pendingAcks := s.pendingAcks.acksSent })
      rfl rfl rfl rfl
  · exact ⟨rfl, rfl⟩

theorem noteAcks_streams (c : Connection) (id : SpaceId) (sent : SentFrames) :
    (c.noteAcks id sent).streams = c.streams := by
  unfold noteAcks
  split_ifs <;> rfl

theorem schedule_core (c : Connection) (packet : ScheduledPacket) :
    (c.schedule packet).core = { c.core with queue := c.core.queue ++ [packet.metaInfo] } := by
  unfold core schedule
  simp only [List.map_append, List.map_cons, List.map_nil]

/-- A scheduled packet. -/
theorem composePacket_ok {close ackEliciting : Bool}
    (h : composePacket now close c id ackEliciting = .ok c') : ∃ p : SentPacket,
      p.number = c.core.next id ∧ p.number < 2 ^ 62 ∧ p.spaceId = id ∧
      Writes c.streams p.streamFrames c'.streams ∧
      c'.core = { c.core with
        queue := c.core.queue ++ [p]
        next := Function.update c.core.next id (c.core.next id + 1)
        buffers := buffers c'.streams } ∧
      c'.ackRanges = c.ackRanges := by
  obtain ⟨n, buf, sent, c₂, buf₂, h1, h2, rfl⟩ := composePacket_cases h
  obtain ⟨hn, hlt, -⟩ := startPacket_ok h1
  have hcore : (c.numbered id).core = { c.core with
      next := Function.update c.core.next id (c.core.next id + 1) } := by
    have e1 := field_modifySpace c id (fun s => { s with nextPacketNumber := s.nextPacketNumber + 1 })
      PacketSpace.nextPacketNumber
    have e2 := field_modifySpace c id (fun s => { s with nextPacketNumber := s.nextPacketNumber + 1 })
      PacketSpace.sentPackets
    have e3 := field_modifySpace c id (fun s => { s with nextPacketNumber := s.nextPacketNumber + 1 })
      PacketSpace.inFlight
    rw [Function.update_eq_self] at e2 e3
    unfold core numbered
    rw [e1, e2, e3]
    rfl
  have hw : Writes c.streams sent.streamFrames c₂.streams ∧
      c₂.core = { (c.numbered id).core with buffers := buffers c₂.streams } ∧
      c₂.ackRanges = (c.numbered id).ackRanges := by
    rcases h2 with ⟨-, rfl, rfl, -⟩ | ⟨-, h2⟩
    · exact ⟨.inl ⟨rfl, rfl⟩, rfl, rfl⟩
    · exact populatePacket_ok h2
  obtain ⟨hw, hc₂, ha₂⟩ := hw
  obtain ⟨hq, hqa⟩ := quiet_noteAcks c₂ id sent
  have hs := noteAcks_streams c₂ id sent
  refine ⟨Connection.metaInfo now id ackEliciting n sent buf₂, hn, hlt, rfl, ?_, ?_, ?_⟩
  · rw [← hs] at hw
    exact hw
  · rw [schedule_core, hq, hc₂, hcore, show ((c₂.noteAcks id sent).schedule _).streams = c₂.streams from hs]
  · rw [show ((c₂.noteAcks id sent).schedule _).ackRanges = (c₂.noteAcks id sent).ackRanges from rfl,
      hqa, ha₂, numbered_ackRanges]

end Effects

end Connection

open Connection

/-- The steps in which a send half may be created. -/
def ConnectionOp.creates : ConnectionOp → Bool
  | .openStream _ | .write .. => true
  | _ => false

/-- **Every other step is a sequence of moves.** -/
theorem connectionStep_moves {c c' : Connection} {op : ConnectionOp} (hop : op.creates = false)
    (h : connectionStep c op = .ok c') : Moves c c' := by
  cases op with
  | pollTransmit now =>
      obtain ⟨⟨more, c₁⟩, h1, h⟩ := Checked.bind_eq_ok.mp h
      cases h
      exact pollTransmit_moves h1
  | sendOne t =>
      cases h
      exact .single (.sent t)
  | pollTimers now => exact pollTimers_moves h
  | handleData now data => exact handleData_moves h
  | handleFirstPacket now packet =>
      obtain ⟨⟨r, c₁⟩, h1, h⟩ := Checked.bind_eq_ok.mp h
      cases h
      exact handleFirstPacket_moves h1
  | close now errorCode reason =>
      cases h
      exact Moves.of_quiet (quiet_close c now errorCode reason)
  | openStream dir => cases hop
  | write id data => cases hop
  | finish id =>
      obtain ⟨u, -, h⟩ := Checked.bind_eq_ok.mp h
      cases h
      refine Moves.of_quiet (quiet_streams c ?_)
      have hf : c.streams.finish id = ((c.streams.finish id).1, (c.streams.finish id).2) := rfl
      rcases StreamsState.finish_send hf with ⟨-, e⟩ | ⟨stream, -, he, -, -, e⟩
      · rw [e]
      · exact buffers_update he e rfl
  | reset id errorCode =>
      obtain ⟨u, -, h⟩ := Checked.bind_eq_ok.mp h
      cases h
      have hb : buffers (c.streams.reset (c.spaces .data).pending id errorCode).2.1 =
          buffers c.streams := by
        rcases c.streams.reset_send (c.spaces .data).pending id errorCode with e | ⟨stream, he, e⟩
        · exact buffers_congr e
        · exact buffers_update he e rfl
      exact Moves.of_quiet ((quiet_streams c hb).trans
        (quiet_modifySpace _ .data _ rfl rfl rfl rfl))
  | setPriority id priority =>
      obtain ⟨u, -, h⟩ := Checked.bind_eq_ok.mp h
      cases h
      refine Moves.of_quiet (quiet_streams c ?_)
      rcases c.streams.setPriority_send id priority with e | ⟨stream, he, e⟩
      · exact buffers_congr e
      · exact buffers_update he e rfl
  | read id lengths =>
      obtain ⟨u, -, h⟩ := Checked.bind_eq_ok.mp h
      obtain ⟨s, hs, h⟩ := Checked.bind_eq_ok.mp h
      cases h
      exact Moves.of_quiet (quiet_streams c (buffers_congr (StreamsState.readChunks_sameSend hs).send))
  | stop id errorCode =>
      obtain ⟨u, -, h⟩ := Checked.bind_eq_ok.mp h
      obtain ⟨⟨r, s, pending⟩, hs, h⟩ := Checked.bind_eq_ok.mp h
      cases h
      exact Moves.of_quiet ((quiet_streams c (buffers_congr (StreamsState.stop_sameSend hs).send)).trans
        (quiet_modifySpace _ .data _ rfl rfl rfl rfl))
  | takeReset id =>
      obtain ⟨u, -, h⟩ := Checked.bind_eq_ok.mp h
      cases h
      exact Moves.of_quiet (quiet_streams c (buffers_congr (c.streams.takeReset_sameSend id).send))

/-- A step that may create a send half only changes the streams. -/
theorem connectionStep_creates {c c' : Connection} {op : ConnectionOp} (hop : ¬ op.creates = false)
    (h : connectionStep c op = .ok c') : ∃ s, c' = { c with streams := s } := by
  cases op with
  | openStream dir =>
      obtain ⟨⟨id, c₁⟩, h1, h⟩ := Checked.bind_eq_ok.mp h
      cases h
      unfold openStream at h1
      split_ifs at h1
      cases h1
      exact ⟨_, rfl⟩
  | write id data =>
      obtain ⟨u, -, h⟩ := Checked.bind_eq_ok.mp h
      cases h
      exact ⟨_, rfl⟩
  | _ => exact absurd rfl hop

end MzQuic
