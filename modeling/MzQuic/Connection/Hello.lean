import MzQuic.Connection.Control
import MzQuic.Connection.Numbering

/-!
# The hello of a connection (`core/src/connection/mod.rs`)

* `Joined`: the application is told once that the connection is established, as soon as the handshake is over;
  **`connectionStep_joined`**: only a packet that `Greets` ends the handshake;
* `Mute`: there is no hello for a space, neither to be sent nor in a packet that may have to be sent again;
* `Shy`: so it is with a connection whose application was told nothing yet; `FrameMove.shy`;
* `Plain`, **`pollTransmit_plain`**: no packet of such a connection greets the peer; **`connectionStep_shy`**.
-/

namespace MzQuic

open Lib

/-- The packet has a CRYPTO frame to which the peer listens. -/
def Packet.Greets (packet : Packet) : Prop :=
  packet.header.space ≠ .data ∧ ∃ offset data, packet.Reads (.crypto offset data)

namespace Connection

/-! ## Told that it is established -/

/-- Nothing was reported of the handshake, and the state is the same, or the connection is closed now. -/
structure Aside (c c' : Connection) : Prop where
  count : c'.connectedCount = c.connectedCount
  state : c'.state = c.state ∨ c'.state.isClosed = true

/-- The application is told at most once that the connection is established, and it is told as soon as it is. -/
structure Joined (c : Connection) : Prop where
  once : c.connectedCount ≤ 1
  handshake : c.state = .handshake → c.connectedCount = 0
  established : c.state = .established → c.connectedCount = 1

section Joined

variable {c c' : Connection} {now : Instant} {id : SpaceId}

theorem Aside.refl (c : Connection) : Aside c c := ⟨rfl, .inl rfl⟩

theorem Aside.of_reports (hs : c'.state = c.state) (hr : c.streams.Reports c'.streams) : Aside c c' :=
  ⟨(counts_of_reports hr).2, .inl hs⟩

theorem Outer.aside {b : Bool} (h : Outer b c c') : Aside c c' := .of_reports h.state h.events.reports

/-- A closed connection stays closed. -/
theorem Aside.closed (h : Aside c c') (hc : c.state.isClosed = true) : c'.state.isClosed = true :=
  h.state.elim (fun e => by rw [e, hc]) id

theorem Aside.trans {c₁ c₂ c₃ : Connection} (h : Aside c₁ c₂) (h' : Aside c₂ c₃) : Aside c₁ c₃ := by
  refine ⟨h'.count.trans h.count, ?_⟩
  rcases h'.state with e | e
  · rcases h.state with e₁ | e₁
    · exact .inl (e.trans e₁)
    · exact .inr (h'.closed e₁)
  · exact .inr e

theorem Aside.joined (h : Aside c c') (hc : c.Joined) : c'.Joined := by
  refine ⟨h.count.trans_le hc.once, fun hs => ?_, fun hs => ?_⟩ <;> rcases h.state with e | e
  · exact h.count.trans (hc.handshake (e.symm.trans hs))
  · rw [hs] at e
    cases e
  · exact h.count.trans (hc.established (e.symm.trans hs))
  · rw [hs] at e
    cases e

theorem kill_aside (c : Connection) (reason : ConnectionError) : Aside c (c.kill reason) := by
  refine ⟨?_, .inr rfl⟩
  show (c.streams.events ++ [Event.connectionLost reason]).countP Event.isConnected = _
  rw [List.countP_append]
  rfl

theorem close_aside (c : Connection) (now : Instant) (errorCode : ℕ) (reason : Bytes) :
    Aside c (c.close now errorCode reason) := by
  rcases close_cases c now errorCode reason with e | ⟨-, hs, he⟩
  · rw [e]
    exact .refl c
  · exact ⟨(counts_of_reports (.of_eq (by rw [he]))).2, .inr hs⟩

theorem screened_aside (c : Connection) (header : Header) : Aside c (c.screened header) := .of_reports rfl (.of_eq rfl)

theorem afterPacket_aside (now : Instant) (wasClosed wasDrained : Bool)
    (res : Except ConnectionError Unit × Connection) :
    Aside res.2 (afterPacket now wasClosed wasDrained res) := by
  obtain ⟨r, c⟩ := res
  cases r with
  | ok u =>
      obtain ⟨hs, he⟩ := afterPacket_ok now wasClosed wasDrained c
      exact .of_reports hs (.of_eq (by rw [he]))
  | error e =>
      obtain ⟨hs, he⟩ := afterPacket_error now wasClosed wasDrained c e
      refine ⟨?_, .inr (by rw [hs]; exact errorState_isClosed e)⟩
      unfold connectedCount
      rw [he, List.countP_append]
      rfl

theorem pollTimers_aside (h : c.pollTimers now = .ok c') : Aside c c' := by
  obtain ⟨hs, he⟩ := pollTimers_cases h
  exact ⟨(counts_of_reports (.of_eq he)).2, hs.imp_right fun e => by rw [e]; rfl⟩

/-- **A CRYPTO frame** during the handshake ends it. -/
theorem onCrypto_join (hid : id ≠ .data) : (c.state ≠ .handshake ∧ Aside c (c.onCrypto id)) ∨
    (c.state = .handshake ∧ (c.onCrypto id).state = .established ∧
      (c.onCrypto id).connectedCount = c.connectedCount + 1) := by
  by_cases hs : c.state = .handshake
  · have hs' : (c.onCrypto id).state = .established := by
      have hcond : (c.state.isHandshake && (id = .initial || id = .handshake)) = true := by
        rw [hs]
        cases id with
        | data => exact absurd rfl hid
        | initial | handshake => rfl
      unfold onCrypto
      dsimp only
      split_ifs with h1 h2 h2
      · rfl
      · exact absurd hcond h2
      · rfl
      · exact absurd hcond h2
    rcases c.onCrypto_state id with ⟨e, -⟩ | ⟨-, -, he⟩
    · rw [hs', hs] at e
      cases e
    · refine .inr ⟨hs, hs', ?_⟩
      unfold connectedCount
      rw [he, List.countP_append]
      rfl
  · rcases c.onCrypto_state id with ⟨e, he⟩ | ⟨e, -⟩
    · exact .inl ⟨hs, .of_reports e (.of_eq he)⟩
    · exact absurd e hs

theorem onCrypto_joined (hc : c.Joined) (hid : id ≠ .data) : (c.onCrypto id).Joined := by
  rcases onCrypto_join (c := c) hid with ⟨-, h⟩ | ⟨hs, hs', hn⟩
  · exact h.joined hc
  · rw [hc.handshake hs] at hn
    refine ⟨hn.le, fun e => ?_, fun _ => hn⟩
    rw [hs'] at e
    cases e

/-- A frame of an Initial or Handshake packet is aside, or a CRYPTO frame. -/
theorem handleEarlyFrame_aside {frame : Frame} {r : Except TransportError Bool}
    (h : handleEarlyFrame now id c frame = .ok (r, c')) :
    Aside c c' ∨ (∃ offset data, frame = .crypto offset data) ∧ c' = c.onCrypto id := by
  cases frame with
  | ack ack =>
      obtain ⟨⟨r, c₁⟩, h1, h⟩ := Checked.bind_eq_ok.mp h
      cases h
      exact .inl (onAckReceived_inner h1).outer.aside
  | crypto offset data =>
      cases h
      exact .inr ⟨⟨offset, data, rfl⟩, rfl⟩
  | close close =>
      cases h
      exact .inl (kill_aside c _)
  | _ =>
      cases h
      exact .inl (.refl _)

theorem handleFrame_aside {payloadLen : ℕ} {frame : Frame} {r : Except TransportError Bool}
    (h : handleFrame now id payloadLen c frame = .ok (r, c')) : Aside c c' := by
  cases frame with
  | ack ack =>
      obtain ⟨⟨r, c₁⟩, h1, h⟩ := Checked.bind_eq_ok.mp h
      cases h
      exact (onAckReceived_inner h1).outer.aside
  | stream stream =>
      obtain ⟨⟨r, s⟩, h1, h⟩ := Checked.bind_eq_ok.mp h
      cases h
      exact .of_reports rfl (StreamsState.received_reports h1)
  | resetStream reset =>
      cases h
      exact .of_reports rfl (StreamsState.receivedReset_reports _ _)
  | stopSending stop =>
      cases h
      exact .of_reports rfl (StreamsState.receivedStopSending_reports _ _)
  | close close =>
      cases h
      exact kill_aside c _
  | immediateAck =>
      cases h
      exact .of_reports rfl (.of_eq rfl)
  | _ =>
      cases h
      exact .refl _

/-- **The frames of a packet.** Only one that greets ends the handshake. -/
theorem processPacket_joined {number : Option ℕ} {packet : Packet} {r : Except ConnectionError Unit}
    (hc : c.Joined) (h : c.processPacket now number packet = .ok (r, c')) :
    c'.Joined ∧ (c'.connectedCount = c.connectedCount ∨ c.connectedCount ≤ c'.connectedCount ∧ packet.Greets) := by
  refine processPacket_reads (I := fun x => x.Joined ∧ (x.connectedCount = c.connectedCount ∨
    c.connectedCount ≤ x.connectedCount ∧ packet.Greets)) (fun x f r x' hid hr hx hf => ?_)
    (fun x f r x' _ _ hx hf => ?_) h ⟨hc, .inl rfl⟩
  · rcases handleEarlyFrame_aside hf with ha | ⟨⟨offset, data, rfl⟩, rfl⟩
    · exact ⟨ha.joined hx.1, by rw [ha.count]; exact hx.2⟩
    · have hle : c.connectedCount ≤ x.connectedCount := hx.2.elim Eq.ge And.left
      have hgreets : packet.Greets := ⟨hid, offset, data, hr⟩
      refine ⟨onCrypto_joined hx.1 hid, .inr ⟨hle.trans ?_, hgreets⟩⟩
      rcases onCrypto_join (c := x) hid with ⟨-, ha⟩ | ⟨-, -, e⟩
      · exact ha.count.ge
      · rw [e]
        exact Nat.le_succ _
  · have ha := handleFrame_aside hf
    exact ⟨ha.joined hx.1, by rw [ha.count]; exact hx.2⟩

theorem onPacketAuthenticated_aside {number : Option ℕ} (h : c.onPacketAuthenticated now id number = .ok c') :
    Aside c c' := (onPacketAuthenticated_outer h).aside

end Joined

end Connection

open Connection

/-- **Only a packet that greets ends the handshake**, of which the application is told once. -/
theorem connectionStep_joined {c c' : Connection} {op : ConnectionOp} (hc : c.Joined)
    (h : connectionStep c op = .ok c') : c'.Joined ∧ (c'.connectedCount = c.connectedCount ∨
      c.connectedCount ≤ c'.connectedCount ∧ ∃ packet, op.Brings packet ∧ packet.Greets) := by
  have haside : Aside c c' → c'.Joined ∧ (c'.connectedCount = c.connectedCount ∨
      c.connectedCount ≤ c'.connectedCount ∧ ∃ packet, op.Brings packet ∧ packet.Greets) :=
    fun ha => ⟨ha.joined hc, .inl ha.count⟩
  cases op with
  | handleData now data =>
      rcases handleData_cases h with ⟨-, rfl⟩ | ⟨packet, hp, ⟨-, rfl⟩ | ⟨-, c₁, res, h1, h2, rfl⟩⟩
      · exact haside (.refl c')
      · exact haside (screened_aside c _)
      · have h₁ := (screened_aside c packet.header).trans (authenticate_outer h1).aside
        have h₂ := afterPacket_aside now c.state.isClosed c.state.isDrained res
        obtain ⟨hj, hn⟩ := processPacket_joined (h₁.joined hc) h2
        rw [h₂.count, ← h₁.count]
        exact ⟨h₂.joined hj, hn.imp_right fun hg => ⟨hg.1, packet, hp, hg.2⟩⟩
  | handleFirstPacket now packet =>
      obtain ⟨⟨r, c₁⟩, h1, h⟩ := Checked.bind_eq_ok.mp h
      cases h
      obtain ⟨c₂, h2, h1⟩ := Checked.bind_eq_ok.mp h1
      have h₂ := onPacketAuthenticated_aside h2
      obtain ⟨hj, hn⟩ := processPacket_joined (h₂.joined hc) h1
      rw [← h₂.count]
      exact ⟨hj, hn.imp_right fun hg => ⟨hg.1, _, rfl, hg.2⟩⟩
  | pollTransmit now =>
      obtain ⟨⟨more, c₁⟩, h1, h⟩ := Checked.bind_eq_ok.mp h
      cases h
      exact haside (pollTransmit_outer h1).aside
  | sendOne t =>
      cases h
      exact haside (sendOne_inner c t).outer.aside
  | pollTimers now => exact haside (pollTimers_aside h)
  | close now errorCode reason =>
      cases h
      exact haside (close_aside c now errorCode reason)
  | _ => exact haside (connectionStep_call_inner rfl h).outer.aside

theorem Connection.joined_new (now : Instant) (side : Side) : (Connection.new now side).Joined := by
  cases side <;> exact ⟨Nat.zero_le 1, fun _ => rfl, nofun⟩

/-- The packet has the hello, which is to be sent again if it is lost. -/
def SentPacket.hello (packet : SentPacket) : Bool := packet.retransmits.any Retransmits.hello

namespace Connection

/-! ## Without a hello -/

/-- No packet of the space has a hello, neither one that waits nor one in flight, and unless the connection is `loud`
there is none to be sent. -/
structure Mute (id : SpaceId) (loud : Bool) (c : Connection) : Prop where
  queue : ∀ w ∈ c.path.sendingQueue, w.metaInfo.spaceId = id → w.metaInfo.hello = false
  sent : ∀ p ∈ (c.spaces id).sentPackets.entries, p.2.hello = false
  pending : loud = false → (c.spaces id).pending.hello = false

section Mute

variable {loud loud' : Bool} {c c' : Connection} {now : Instant} {id i : SpaceId}

theorem Mute.mono (hc : c.Mute id loud) (h : loud = true → loud' = true) : c.Mute id loud' := by
  refine ⟨hc.queue, hc.sent, fun hl => hc.pending (Bool.eq_false_iff.mpr fun e => ?_)⟩
  rw [h e] at hl
  cases hl

theorem Mute.of_spaces (hc : c.Mute id loud) (hq : c'.path.sendingQueue = c.path.sendingQueue)
    (hs : c'.spaces id = c.spaces id) : c'.Mute id loud :=
  ⟨by rw [hq]; exact hc.queue, by rw [hs]; exact hc.sent, by rw [hs]; exact hc.pending⟩

/-- One space has changed. -/
theorem Mute.of_update {space : PacketSpace} (hc : c.Mute id loud) (hq : c'.path.sendingQueue = c.path.sendingQueue)
    (he : c'.spaces = Function.update c.spaces i space)
    (hs : ∀ p ∈ space.sentPackets.entries, p ∈ (c.spaces i).sentPackets.entries)
    (hp : loud = false → space.pending.hello = true → (c.spaces i).pending.hello = true ∨
      ∃ p ∈ (c.spaces i).sentPackets.entries, p.2.hello = true) : c'.Mute id loud := by
  by_cases hi : id = i
  · subst hi
    refine ⟨by rw [hq]; exact hc.queue, fun p hmem => ?_, fun hl => Bool.eq_false_iff.mpr fun ht => ?_⟩
    · rw [he, Function.update_self] at hmem
      exact hc.sent p (hs p hmem)
    · rw [he, Function.update_self] at ht
      rcases hp hl ht with h | ⟨p, hmem, h⟩
      · rw [hc.pending hl] at h
        cases h
      · rw [hc.sent p hmem] at h
        cases h
  · exact hc.of_spaces hq (by rw [he, Function.update_of_ne hi])

/-- One space has changed in other fields. -/
theorem Mute.of_same {space : PacketSpace} (hc : c.Mute id loud) (hq : c'.path.sendingQueue = c.path.sendingQueue)
    (he : c'.spaces = Function.update c.spaces i space) (hs : space.sentPackets = (c.spaces i).sentPackets)
    (hp : space.pending = (c.spaces i).pending) : c'.Mute id loud :=
  hc.of_update hq he (fun p hmem => by rwa [← hs]) fun _ ht => .inl (by rwa [← hp])

theorem Mute.timer (hc : c.Mute id loud) : c.setLossDetectionTimer.Mute id loud := by
  obtain ⟨timers, e⟩ := setLossDetectionTimer_eq c
  rw [e]
  exact hc.of_spaces rfl rfl

theorem Mute.discard (hc : c.Mute id loud) (h : c.discardSpace i = .ok c') : c'.Mute id loud := by
  have hq := (discardSpace_waiting h).queue
  obtain ⟨timers, e⟩ := discardSpace_eq h
  exact hc.of_update hq (congrArg Connection.spaces e) (fun p hp => absurd hp List.not_mem_nil) fun _ ht => .inl ht

theorem Mute.acked {l l' : AckLoop} {pn : ℕ} (hc : l.c.Mute id loud) (h : ackOne i l pn = .ok l') :
    l'.c.Mute id loud := by
  have hq := (ackOne_waiting h).queue
  obtain ⟨-, rfl⟩ | ⟨packet, s, removed, path, -, -, -, -, -, he⟩ := ackOne_cases h
  · exact hc
  · refine hc.of_update hq (by rw [he]; rfl) (fun p hp => ?_) fun _ ht => .inl ?_
    · rw [ackedBy_sentPackets] at hp
      exact (OrdMap.mem_erase.mp hp).1
    · rwa [ackedBy_pending] at ht

/-- **A lost packet without a hello** leaves none to be sent. -/
theorem Mute.lost {p : ℕ × SentPacket} (hc : c.Mute id loud) (hp : p ∈ (c.spaces i).sentPackets.entries)
    (h : loseOne now i c p = .ok c') : c'.Mute id loud := by
  have hq := (loseOne_waiting h).queue
  obtain ⟨s, removed, path, n, -, -, -, e⟩ := loseOne_cases h
  refine hc.of_update hq (congrArg Connection.spaces e) (fun x hx => (OrdMap.mem_erase.mp hx).1) fun _ ht => ?_
  change ((c.spaces i).requeue p.2).pending.hello = true at ht
  unfold PacketSpace.requeue at ht
  cases hr : p.2.retransmits with
  | none =>
      rw [hr] at ht
      exact .inl ht
  | some retransmits =>
      rw [hr] at ht
      refine (Bool.or_eq_true_iff.mp ht).imp_right fun hh => ⟨p, hp, ?_⟩
      unfold SentPacket.hello
      rw [hr]
      exact hh

theorem Mute.detected (hc : c.Mute id loud) (h : c.detectLostPackets now i = .ok c') : c'.Mute id loud :=
  detectLostPackets_inv (I := Mute id loud) (fun _ => hc.of_same rfl rfl rfl rfl)
    (fun _ _ _ hx hp hs => hx.lost hp hs) (fun _ hx => hx.timer) h

theorem Mute.ackReceived {ack : Ack} {r : Except TransportError Unit} (hc : c.Mute id loud)
    (h : c.onAckReceived now i ack = .ok (r, c')) : c'.Mute id loud :=
  onAckReceived_inv (I := Mute id loud) (fun _ _ _ hx hs => hx.acked hs)
    (fun _ _ hl hs => ackNews_inv (I := Mute id loud) (fun _ => hl.of_same rfl rfl rfl rfl)
      (fun _ _ hx hd => hx.detected hd) (fun _ hx => hx.timer) hs) h hc

theorem Mute.authenticated {number : Option ℕ} (hc : c.Mute id loud)
    (h : c.onPacketAuthenticated now i number = .ok c') : c'.Mute id loud :=
  onPacketAuthenticated_inv (I := Mute id loud) (fun _ hd => hc.discard hd) (fun _ _ hx _ => hx.of_same rfl rfl rfl rfl)
    (fun _ hx => hx.of_spaces rfl rfl) (fun _ hx => hx.of_same rfl rfl rfl rfl) h hc

/-- A closed connection does not send what it has. -/
theorem Mute.crypto (hc : c.Mute id true) (i : SpaceId) : (c.onCrypto i).Mute id true := by
  unfold onCrypto
  dsimp only
  split_ifs <;> exact hc.of_update rfl rfl (fun _ hp => hp) nofun

/-- Without a hello to be sent, none is put in a packet. -/
theorem populateControl_mute {sent : SentFrames} {space : PacketSpace} {buf buf' : BufMut} (hid : id ≠ .data)
    (hp : (c.spaces id).pending.hello = false) (h : c.populateControl now id buf = .ok (sent, space, buf')) :
    space = c.spaces id ∧ sent.retransmits = none := by
  obtain ⟨⟨largest, buf₁⟩, -, h⟩ := Checked.bind_eq_ok.mp h
  obtain ⟨⟨sent₁, space₁, buf₂⟩, h1, h⟩ := Checked.bind_eq_ok.mp h
  obtain ⟨⟨sent₂, space₂, buf₃⟩, h2, h1⟩ := Checked.bind_eq_ok.mp h1
  rw [hp] at h2
  cases h2
  dsimp only at h1 h
  rw [decide_eq_false hid, Bool.false_and] at h1
  cases h1
  rw [if_neg hid] at h
  cases h
  exact ⟨rfl, rfl⟩

/-- **A packet that is composed** has no hello, unless there is one to be sent. -/
theorem Mute.composed {close ackEliciting : Bool} (hid : id ≠ .data) (hc : c.Mute id loud)
    (hl : close = false → loud = false) (h : composePacket now close c i ackEliciting = .ok c') : c'.Mute id loud := by
  obtain ⟨n, buf, sent, c₂, buf₂, -, h2, rfl⟩ := composePacket_cases h
  have hnumbered : (c.numbered i).Mute id loud := hc.of_same rfl rfl rfl rfl
  obtain ⟨hc₂, hhello⟩ : c₂.Mute id loud ∧ (i = id → sent.retransmits = none) := by
    rcases h2 with ⟨-, rfl, rfl, -⟩ | ⟨rfl, h2⟩
    · exact ⟨hnumbered.of_spaces rfl rfl, fun _ => rfl⟩
    · have helse := populatePacket_elsewhere h2
      have hq : c₂.path.sendingQueue = (c.numbered i).path.sendingQueue := by rw [helse.path]
      by_cases hi : i = id
      · subst hi
        obtain ⟨⟨sent₁, space, buf₁⟩, h3, h2⟩ := Checked.bind_eq_ok.mp h2
        obtain ⟨rfl, hnone⟩ := populateControl_mute hid (hnumbered.pending (hl rfl)) h3
        dsimp only at h2
        rw [if_neg hid] at h2
        cases h2
        exact ⟨hnumbered.of_same hq rfl rfl rfl, fun _ => hnone⟩
      · exact ⟨hnumbered.of_spaces hq (helse.spaces id (Ne.symm hi)), fun e => absurd e hi⟩
  have hnote : (c₂.noteAcks i sent).Mute id loud := by
    unfold noteAcks
    split_ifs
    · exact hc₂.of_same rfl rfl rfl rfl
    · exact hc₂
  refine ⟨fun w hw hspace => ?_, hnote.sent, hnote.pending⟩
  rcases List.mem_append.mp hw with hw | hw
  · exact hnote.queue w hw hspace
  · obtain rfl := List.mem_singleton.mp hw
    show sent.retransmits.any Retransmits.hello = false
    rw [hhello hspace]
    rfl

theorem Mute.sentOne (hc : c.Mute id loud) (t : Instant) : (c.sendOne t).Mute id loud := by
  unfold sendOne NetworkPath.sendOne
  cases hq : c.path.sendingQueue with
  | nil => exact hc
  | cons w queue =>
      have hqueue : ∀ x ∈ w :: queue, x.metaInfo.spaceId = id → x.metaInfo.hello = false := by
        rw [← hq]
        exact hc.queue
      have hsent : ∀ path : NetworkPath, path.sendingQueue = queue → Mute id loud { c with
          path := path
          spaces := Function.update c.spaces w.metaInfo.spaceId
            ((c.spaces w.metaInfo.spaceId).sent { w.metaInfo with timeSent := t }).2 } := by
        intro path hpath
        refine ⟨fun x hx => hqueue x (List.mem_cons_of_mem w (hpath ▸ hx)), fun p hp => ?_, fun hl => ?_⟩
        all_goals by_cases hid : w.metaInfo.spaceId = id
        · subst hid
          dsimp only at hp
          rw [Function.update_self, (sent_spec _ _).2.2.1] at hp
          rcases OrdMap.mem_insert.mp hp with rfl | ⟨hp, -⟩
          · exact hqueue w List.mem_cons_self rfl
          · exact hc.sent p hp
        · dsimp only at hp
          rw [Function.update_of_ne (Ne.symm hid)] at hp
          exact hc.sent p hp
        · subst hid
          dsimp only
          rw [Function.update_self, sent_pending]
          exact hc.pending hl
        · dsimp only
          rw [Function.update_of_ne (Ne.symm hid)]
          exact hc.pending hl
      dsimp only [NetworkPath.record]
      by_cases hack : w.metaInfo.ackEliciting = true
      · rw [if_pos hack]
        exact (hsent _ rfl).timer
      · rw [if_neg hack]
        exact hsent _ rfl

theorem Mute.fired (hc : c.Mute id loud) (h : c.pollTimers now = .ok c') : c'.Mute id loud := by
  rcases pollTimers_fired h with rfl | ⟨timer, hf⟩
  · exact hc
  · have hstopped : Mute id loud { c with timers := c.timers.stop timer } := hc.of_spaces rfl rfl
    cases hf with
    | lossDetection h =>
        exact onLossDetectionTimeout_keeps (I := Mute id loud) (fun _ _ _ hx hs => hx.detected hs)
          (fun _ hx => hx.timer) h hstopped
    | maxAckDelay => exact hstopped.of_same rfl rfl rfl rfl
    | close | other => exact hstopped.of_spaces rfl rfl

/-! ## Before the application is told -/

/-- A connection of which the application was not told that it is established has no hello, unless it is closed. -/
def Shy (c : Connection) : Prop := c.connectedCount = 0 → ∀ id, id ≠ .data → c.Mute id c.state.isClosed

/-- What is aside, and brings no hello. -/
theorem Shy.aside (hc : c.Shy) (ha : Aside c c') (hm : ∀ id loud, id ≠ .data → c.Mute id loud → c'.Mute id loud) :
    c'.Shy := fun hn id hid =>
  (hm id c.state.isClosed hid (hc (ha.count.symm.trans hn) id hid)).mono ha.closed

theorem Shy.of_spaces (hc : c.Shy) (ha : Aside c c') (hq : c'.path.sendingQueue = c.path.sendingQueue)
    (hs : c'.spaces = c.spaces) : c'.Shy :=
  hc.aside ha fun _ _ _ hm => hm.of_spaces hq (by rw [hs])

/-- **A CRYPTO frame** ends the handshake, unless the connection is closed. -/
theorem Shy.crypto (hc : c.Shy) (hj : c.Joined) (hi : i ≠ .data) : (c.onCrypto i).Shy := by
  intro hn id hid
  rcases onCrypto_join (c := c) hi with ⟨hs, ha⟩ | ⟨-, -, e⟩
  · have hcount := ha.count.symm.trans hn
    have hclosed : c.state.isClosed = true := by
      cases hstate : c.state with
      | handshake => exact absurd hstate hs
      | established =>
          rw [hj.established hstate] at hcount
          cases hcount
      | _ => rfl
    have hm := hc hcount id hid
    rw [hclosed] at hm
    rw [ha.closed hclosed]
    exact hm.crypto i
  · rw [e] at hn
    cases hn

theorem Shy.earlyFrame {frame : Frame} {r : Except TransportError Bool} (hc : c.Shy) (hj : c.Joined)
    (hi : i ≠ .data) (h : handleEarlyFrame now i c frame = .ok (r, c')) : c'.Shy := by
  cases frame with
  | ack ack =>
      obtain ⟨⟨r, c₁⟩, h1, h⟩ := Checked.bind_eq_ok.mp h
      cases h
      exact hc.aside (onAckReceived_inner h1).outer.aside fun _ _ _ hm => hm.ackReceived h1
  | crypto offset data =>
      cases h
      exact hc.crypto hj hi
  | close close =>
      cases h
      exact hc.of_spaces (kill_aside c _) rfl rfl
  | _ =>
      cases h
      exact hc

theorem Shy.frame {payloadLen : ℕ} {frame : Frame} {r : Except TransportError Bool} (hc : c.Shy)
    (h : handleFrame now i payloadLen c frame = .ok (r, c')) : c'.Shy := by
  refine hc.aside (handleFrame_aside h) fun id loud _ hm => ?_
  cases frame with
  | ack ack =>
      obtain ⟨⟨r, c₁⟩, h1, h⟩ := Checked.bind_eq_ok.mp h
      cases h
      exact hm.ackReceived h1
  | immediateAck =>
      cases h
      exact hm.of_same rfl rfl rfl rfl
  | stream stream =>
      obtain ⟨⟨r, s⟩, -, h⟩ := Checked.bind_eq_ok.mp h
      cases h
      exact hm.of_spaces rfl rfl
  | _ =>
      cases h
      exact hm.of_spaces rfl rfl

/-- **The frames of a packet.** -/
theorem Shy.processed {number : Option ℕ} {packet : Packet} {r : Except ConnectionError Unit} (hc : c.Shy)
    (hj : c.Joined) (h : c.processPacket now number packet = .ok (r, c')) : c'.Shy := by
  refine (processPacket_reads (I := fun x => x.Joined ∧ x.Shy)
    (fun x f r x' hid _ hx hf => ⟨?_, hx.2.earlyFrame hx.1 hid hf⟩)
    (fun x f r x' _ _ hx hf => ⟨(handleFrame_aside hf).joined hx.1, hx.2.frame hf⟩) h ⟨hj, hc⟩).2
  rcases handleEarlyFrame_aside hf with ha | ⟨-, rfl⟩
  · exact ha.joined hx.1
  · exact onCrypto_joined hx.1 hid

/-! ## Polls -/

/-- The packet does not greet the peer. -/
def Plain (w : ScheduledPacket) : Prop := ∀ packet, packetOf w.packet = some packet → ¬ packet.Greets

/-- **A packet that is composed without a hello** does not greet. -/
theorem composePacket_plain {close ackEliciting : Bool} (hc : i ≠ .data → c.Mute i loud)
    (hl : close = false → loud = false) (h : composePacket now close c i ackEliciting = .ok c') :
    Appended Plain c c' := by
  by_cases hi : i = .data
  · obtain ⟨p, hq, hspace, packet, -, -, hp, hs, -⟩ :=
      composePacket_stamped (show c.LargestAcked fun _ _ => True from fun _ _ _ => trivial) h
    refine .one hq fun packet' hp' hg => hg.1 ?_
    obtain rfl := Option.some.inj (hp.symm.trans hp')
    rw [hs, hspace, hi]
  · obtain ⟨p, fs, packet, hq, -, -, hreads, hfs, -⟩ := composePacket_contents
      (show i = .data → ∀ j, ∀ stream ∈ c.streams.send j, stream.pending.WF [] from fun e => absurd e hi)
      (fun _ e => absurd e hi) h
    refine .one hq fun packet' hp' hg => ?_
    obtain rfl := Option.some.inj (hreads.decode.symm.trans hp')
    obtain ⟨-, offset, data, hread⟩ := hg
    rcases List.mem_append.mp (hread.mem hreads.spells) with hf | hf
    · obtain ⟨hoffers, hack⟩ := hfs _ hf
      have hclose : close = false := by
        rw [Bool.eq_false_iff]
        intro e
        obtain ⟨a, ha⟩ := hack e
        cases ha
      cases hoffers with
      | hello hhello =>
          rw [(hc hi).pending (hl hclose)] at hhello
          cases hhello
    · obtain ⟨m, -, hm⟩ := List.mem_map.mp hf
      cases hm

/-- A poll goes through the spaces of a closed connection to close it. -/
theorem polls_close {close : Bool} (h : c.polls = some close) : close = c.state.isClosed := by
  unfold polls at h
  cases hs : c.state with
  | handshake | established =>
      rw [hs] at h
      cases h
      rfl
  | drained =>
      rw [hs] at h
      cases h
  | closed reason | draining =>
      rw [hs] at h
      dsimp only at h
      split_ifs at h
      cases h
      rfl

/-- **The packets of a connection without a hello** do not greet. -/
theorem pollTransmit_plain {more : Bool} (hc : ∀ id, id ≠ .data → c.Mute id c.state.isClosed)
    (h : c.pollTransmit now = .ok (more, c')) :
    (∀ id, id ≠ .data → c'.Mute id c.state.isClosed) ∧ Appended Plain c c' := by
  rcases pollTransmit_cases h with rfl | ⟨close, s, hp, hrun, hc'⟩
  · exact ⟨hc, .of_eq rfl⟩
  · have hclose : close = false → c.state.isClosed = false := fun e => by rw [← polls_close hp, e]
    obtain ⟨hmute, happ⟩ := run_inv
      (I := fun s : Connection × Bool => (∀ id, id ≠ .data → s.1.Mute id c.state.isClosed) ∧ Appended Plain c s.1)
      (fun s i s' hs _ ht => by
        obtain ⟨c₁, hc₁, hlast⟩ := transmitSpace_cases ht
        obtain ⟨hmute, hq⟩ : (∀ id, id ≠ .data → c₁.Mute id c.state.isClosed) ∧
            c₁.path.sendingQueue = s.1.path.sendingQueue := by
          rcases hc₁ with rfl | ⟨-, hd⟩
          · exact ⟨hs.1, rfl⟩
          · exact ⟨fun id hid => (hs.1 id hid).discard hd, (discardSpace_waiting hd).queue⟩
        refine ⟨?_, hs.2.trans ((Appended.of_eq hq).trans ?_)⟩ <;> rcases hlast with ⟨-, e⟩ | ⟨-, hcomp⟩
        · rw [e]
          exact fun id hid => (hmute id hid).of_spaces rfl rfl
        · exact fun id hid => (hmute id hid).composed hid hclose hcomp
        · exact .of_eq (by rw [e])
        · exact composePacket_plain (hmute i) hclose hcomp)
      ⟨hc, .of_eq rfl⟩ (Meets.trivial _ _ _) hrun
    rw [hc']
    exact ⟨fun id hid => (hmute id hid).of_spaces rfl rfl, happ.trans (.of_eq rfl)⟩

end Mute

end Connection

/-- **Every step keeps a connection shy**: a packet that greets ends the handshake, unless the connection is closed, and
then nothing but ACKs is sent. -/
theorem connectionStep_shy {c c' : Connection} {op : ConnectionOp} (hj : c.Joined) (hc : c.Shy)
    (h : connectionStep c op = .ok c') : c'.Shy := by
  cases op with
  | handleData now data =>
      rcases handleData_cases h with ⟨-, rfl⟩ | ⟨packet, hp, ⟨-, rfl⟩ | ⟨-, c₁, res, h1, h2, rfl⟩⟩
      · exact hc
      · exact hc.aside (screened_aside c _) fun _ _ _ hm => hm.of_same rfl rfl rfl rfl
      · have ha : Aside c c₁ := (screened_aside c packet.header).trans (authenticate_outer h1).aside
        have h₁ : c₁.Shy := hc.aside ha fun id loud _ hm => by
          have hscreened : (c.screened packet.header).Mute id loud := hm.of_same rfl rfl rfl rfl
          rcases authenticate_cases h1 with ⟨-, rfl⟩ | ⟨-, h1⟩
          · exact hscreened
          · exact hscreened.authenticated h1
        exact (h₁.processed (ha.joined hj) h2).of_spaces (afterPacket_aside now _ _ res)
          (afterPacket_waiting now _ _ res).queue (afterPacket_spaces now _ _ res)
  | handleFirstPacket now packet =>
      obtain ⟨⟨r, c₁⟩, h1, h⟩ := Checked.bind_eq_ok.mp h
      cases h
      obtain ⟨c₂, h2, h1⟩ := Checked.bind_eq_ok.mp h1
      have ha := onPacketAuthenticated_aside h2
      exact (hc.aside ha fun _ _ _ hm => hm.authenticated h2).processed (ha.joined hj) h1
  | pollTransmit now =>
      obtain ⟨⟨more, c₁⟩, h1, h⟩ := Checked.bind_eq_ok.mp h
      cases h
      have ha := (pollTransmit_outer h1).aside
      intro hn id hid
      exact ((pollTransmit_plain (hc (ha.count.symm.trans hn)) h1).1 id hid).mono ha.closed
  | sendOne t =>
      cases h
      exact hc.aside (sendOne_inner c t).outer.aside fun _ _ _ hm => hm.sentOne t
  | pollTimers now => exact hc.aside (pollTimers_aside h) fun _ _ _ hm => hm.fired h
  | close now errorCode reason =>
      cases h
      refine hc.aside (close_aside c now errorCode reason) fun _ _ _ hm => ?_
      unfold Connection.close
      split_ifs
      · exact hm
      · exact hm.of_spaces rfl rfl
  | _ =>
      refine hc.aside (connectionStep_call_inner rfl h).outer.aside fun id loud hid hm => ?_
      obtain ⟨s, pending, -, rfl⟩ := connectionStep_call rfl h
      exact hm.of_spaces rfl (Function.update_of_ne hid _ _)

/-- A new server has no hello. -/
theorem Connection.shy_new (now : Instant) : (Connection.new now .server).Shy := fun _ _ _ =>
  ⟨nofun, nofun, fun _ => rfl⟩

end MzQuic
