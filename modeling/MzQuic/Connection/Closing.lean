import MzQuic.Connection.Datagram
import MzQuic.Connection.Frames
import MzQuic.Connection.Inner

/-!
# What a closed connection sends

* `connectionStep_closed`: a connection that is closed stays closed;
* `populateClose_payload`: the payload of a closing packet is empty, or one ACK frame;
* **`close_unsent`**: no packet that is scheduled after `close` tells the peer why.
-/

namespace MzQuic

open Lib

namespace Connection

/-! ## Closed connections stay closed -/

section State

variable {c c' : Connection} {now : Instant}

theorem FrameMove.closed {r : Except TransportError Bool} (h : FrameMove c r c') (hc : c.state.isClosed = true) :
    c'.state.isClosed = true := by
  cases h with
  | acked h _ =>
      rw [(onAckReceived_inner h).state]
      exact hc
  | crypto id =>
      rcases c.onCrypto_state id with ⟨hs, -⟩ | ⟨hs, -, -⟩
      · rw [hs]
        exact hc
      · rw [hs] at hc
        cases hc
  | killed reason => rfl
  | _ => exact hc

theorem processPacket_closed {number : Option ℕ} {packet : Packet} {r : Except ConnectionError Unit}
    (h : c.processPacket now number packet = .ok (r, c')) (hc : c.state.isClosed = true) :
    c'.state.isClosed = true :=
  processPacket_inv (I := fun x => x.state.isClosed = true) (fun _ _ _ hm => hm.closed) h hc

theorem afterPacket_closed (now : Instant) (wasClosed wasDrained : Bool)
    {res : Except ConnectionError Unit × Connection} (hc : res.2.state.isClosed = true) :
    (afterPacket now wasClosed wasDrained res).state.isClosed = true := by
  have he : ∀ e, (errorState e).isClosed = true := fun e => by cases e <;> rfl
  obtain ⟨r, c⟩ := res
  unfold afterPacket
  dsimp only
  cases r with
  | error e => dsimp only; split_ifs <;> exact he e
  | ok u => dsimp only; split_ifs <;> exact hc

theorem handleData_closed {data : Bytes} (h : c.handleData now data = .ok c') (hc : c.state.isClosed = true) :
    c'.state.isClosed = true := by
  rcases handleData_cases h with ⟨-, rfl⟩ | ⟨packet, -, ⟨-, rfl⟩ | ⟨-, c₁, res, h1, h2, rfl⟩⟩
  · exact hc
  · exact hc
  · refine afterPacket_closed now _ _ (processPacket_closed h2 ?_)
    rw [(authenticate_outer h1).state]
    exact hc

theorem pollTimers_closed (h : c.pollTimers now = .ok c') (hc : c.state.isClosed = true) :
    c'.state.isClosed = true := by
  rcases pollTimers_fired h with rfl | ⟨timer, hf⟩
  · exact hc
  · cases hf with
    | lossDetection h =>
        rw [(onLossDetectionTimeout_inner h).state]
        exact hc
    | close => rfl
    | maxAckDelay => exact hc
    | other _ _ _ => exact hc

end State

end Connection

open Connection

/-- **A closed connection stays closed.** -/
theorem connectionStep_closed {c c' : Connection} {op : ConnectionOp} (h : connectionStep c op = .ok c')
    (hc : c.state.isClosed = true) : c'.state.isClosed = true := by
  cases op with
  | pollTransmit now =>
      obtain ⟨⟨more, c₁⟩, h1, h⟩ := Checked.bind_eq_ok.mp h
      cases h
      rw [(pollTransmit_outer h1).state]
      exact hc
  | sendOne t =>
      cases h
      rw [(sendOne_inner c t).state]
      exact hc
  | pollTimers now => exact pollTimers_closed h hc
  | handleData now data => exact handleData_closed h hc
  | handleFirstPacket now packet =>
      obtain ⟨⟨r, c₁⟩, h1, h⟩ := Checked.bind_eq_ok.mp h
      cases h
      obtain ⟨c₂, h2, h1⟩ := Checked.bind_eq_ok.mp h1
      refine processPacket_closed h1 ?_
      rw [(onPacketAuthenticated_outer h2).state]
      exact hc
  | close now errorCode reason =>
      cases h
      unfold close
      rw [if_pos hc]
      exact hc
  | _ =>
      rw [(connectionStep_call_inner rfl h).state]
      exact hc

/-! ## Closing packets -/

namespace Connection

theorem close_state {c : Connection} (hopen : c.state.isClosed = false) (now : Instant) (errorCode : ℕ)
    (reason : Bytes) : (c.close now errorCode reason).state.isClosed = true := by
  unfold close
  rw [if_neg (by rw [hopen]; exact Bool.false_ne_true)]
  rfl

theorem close_queue (c : Connection) (now : Instant) (errorCode : ℕ) (reason : Bytes) :
    (c.close now errorCode reason).path.sendingQueue = c.path.sendingQueue := by
  unfold close
  split_ifs <;> rfl

/-- The packet tells the peer that the application has closed the connection, and why. -/
def TellsWhy (errorCode : ℕ) (reason : Bytes) (packet : Bytes) : Prop :=
  ∃ header payload frames, Header.decode fakeCid.bytes.length supportedVersions packet = .ok (.ok header, payload) ∧
    FrameParser.frames payload = .ok (.ok frames) ∧
    ∃ text, text <+: reason ∧ Frame.close (.application ⟨errorCode, text⟩) ∈ frames

/-- What `populate_acks` writes is an ACK frame. -/
theorem populateAnyAcks_payload {now : Instant} {space : PacketSpace} {buf buf' : BufMut} {largest : Option ℕ}
    (h : populateAnyAcks now space buf = .ok (largest, buf')) : ∃ payload, buf' = buf.append payload ∧
      ∀ fs, FrameParser.frames payload = .ok (.ok fs) → ∃ ack, fs = [.ack ack] := by
  rcases populateAnyAcks_wrote h with ⟨-, -, rfl⟩ | ⟨ack, -, hw⟩
  · exact ⟨[], (BufMut.append_nil _).symm, fun fs hf => by cases hf⟩
  · obtain ⟨bs, rfl, hbs⟩ := hw.spells
    refine ⟨bs, rfl, fun fs hf => ⟨ack, ?_⟩⟩
    rw [FrameParser.frames_of_spells hbs (hbs.ne_nil (List.cons_ne_nil _ _))] at hf
    cases hf
    rfl

/-- **A closing packet** has no frame but an ACK. -/
theorem composePacket_close {c c' : Connection} {now : Instant} {id : SpaceId} {ackEliciting : Bool}
    (h : composePacket now true c id ackEliciting = .ok c') : ∃ p : ScheduledPacket,
      c'.path.sendingQueue = c.path.sendingQueue ++ [p] ∧
      ∀ errorCode reason, ¬ TellsWhy errorCode reason p.packet := by
  obtain ⟨n, buf, sent, c₂, buf₂, h1, h2, rfl⟩ := composePacket_cases h
  obtain ⟨-, rfl, rfl, largest, h3⟩ := h2.resolve_right fun h => Bool.noConfusion h.1
  obtain ⟨number, -, rfl⟩ := startPacket_buf h1
  obtain ⟨payload, rfl, hp⟩ := populateAnyAcks_payload h3
  refine ⟨_, rfl, ?_⟩
  rintro errorCode reason ⟨header, payload', frames, hd, hf, text, -, hm⟩
  -- the header is read back, and what follows it has at most an ACK frame
  obtain ⟨header', -, hd'⟩ := decode_txBytes id number payload
  have hbytes : (((BufMut.withCapacity initialMtu).append (txBytes id number)).append payload).written =
      txBytes id number ++ payload := rfl
  rw [hbytes, hd'] at hd
  cases hd
  obtain ⟨ack, rfl⟩ := hp frames hf
  cases List.mem_singleton.mp hm

/-- **A poll of a closed connection** schedules nothing that tells why. -/
theorem pollTransmit_close {c c' : Connection} {now : Instant} {more : Bool} (hc : c.state.isClosed = true)
    (h : c.pollTransmit now = .ok (more, c')) :
    Appended (fun p => ∀ errorCode reason, ¬ TellsWhy errorCode reason p.packet) c c' := by
  refine pollTransmit_appended (I := fun _ => True) (Q := fun _ _ _ => True) trivial
    (fun _ _ => Meets.trivial _ _ _) (fun close s id s' hpolls _ _ hs => ⟨trivial, ?_⟩) h
  -- only a closing poll goes through the spaces of a closed connection
  have hclose : close = true := by
    unfold polls at hpolls
    cases hst : c.state with
    | handshake | established =>
        rw [hst] at hc
        cases hc
    | drained =>
        rw [hst] at hpolls
        cases hpolls
    | closed reason | draining =>
        rw [hst] at hpolls
        dsimp only at hpolls
        split_ifs at hpolls
        cases hpolls
        rfl
  subst hclose
  refine transmitSpace_appended (fun c₁ _ _ hcomp => ?_) hs
  obtain ⟨p, hp, hnot⟩ := composePacket_close hcomp
  exact .one hp hnot

end Connection

/-- **Nothing tells the peer why the connection was closed.** After `close` on an open connection, and
whatever happens then, no packet that `poll_transmit` schedules has the CLOSE frame. -/
theorem close_unsent (c : Connection) (hopen : c.state.isClosed = false) (now : Instant) (errorCode : ℕ)
    (reason : Bytes) (ops : List ConnectionOp) (c₁ : Connection)
    (hrun : run connectionStep (c.close now errorCode reason) ops = .ok c₁) (now' : Instant) (more : Bool)
    (c₂ : Connection) (hpoll : c₁.pollTransmit now' = .ok (more, c₂)) :
    ∃ new, c₂.path.sendingQueue = c₁.path.sendingQueue ++ new ∧
      ∀ p ∈ new, ¬ TellsWhy errorCode reason p.packet := by
  have hclosed := close_state hopen now errorCode reason
  have hc₁ : c₁.state.isClosed = true := run_inv (I := fun x : Connection => x.state.isClosed = true)
    (fun _ _ _ hx _ hs => connectionStep_closed hs hx) hclosed (Meets.trivial _ _ _) hrun
  obtain ⟨new, hq, hnew⟩ := pollTransmit_close hc₁ hpoll
  exact ⟨new, hq, fun p hp => hnew p hp errorCode reason⟩

/-- A client that has heard of the server closes the connection with code 7, and the next poll schedules
one packet, in the highest space. -/
theorem closing_poll : ∃ ops c c₂ p, run connectionStep (Connection.new 0 .client) ops = .ok c ∧
    c.state.isClosed = false ∧ (c.close 3 7 [98, 121, 101]).pollTransmit 4 = .ok (true, c₂) ∧
    c.path.sendingQueue = [] ∧ c₂.path.sendingQueue = [p] ∧ p.metaInfo.spaceId = c.highestSpace := by
  let ops : List ConnectionOp := [.pollTransmit 1, .sendOne 1, .handleData 2 (initialDatagram 0 [6, 0, 1, 0])]
  obtain ⟨c, hc, hv⟩ := Checked.map_eq_ok.mp (show (fun c : Connection =>
      ((c.state.isClosed, c.path.sendingQueue.isEmpty), (fun r : Bool × Connection =>
        (r.1, r.2.path.sendingQueue.map fun p => p.metaInfo.spaceId == c.highestSpace)) <$>
          (c.close 3 7 [98, 121, 101]).pollTransmit 4)) <$>
        run connectionStep (Connection.new 0 .client) ops =
      .ok ((false, true), .ok (true, [true])) by decide +kernel)
  obtain ⟨h1, hv⟩ := Prod.mk.inj hv
  obtain ⟨hopen, hempty⟩ := Prod.mk.inj h1
  obtain ⟨⟨more, c₂⟩, hpoll, hv⟩ := Checked.map_eq_ok.mp hv
  obtain ⟨rfl, hq⟩ := Prod.mk.inj hv
  obtain ⟨p, rest, hqueue, hp, hrest⟩ := List.map_eq_cons_iff.mp hq
  rw [List.map_eq_nil_iff.mp hrest] at hqueue
  exact ⟨ops, c, c₂, p, hc, hopen, hpoll, List.isEmpty_iff.mp hempty, hqueue, eq_of_beq hp⟩

/-- The packet of that poll. -/
theorem close_unsent_bye : ∃ (c c₂ : Connection) (p : ScheduledPacket), c.state.isClosed = false ∧
    (c.close 3 7 [98, 121, 101]).pollTransmit 4 = .ok (true, c₂) ∧ c₂.path.sendingQueue = [p] ∧
    ¬ TellsWhy 7 [98, 121, 101] p.packet := by
  obtain ⟨ops, c, c₂, p, -, hopen, hpoll, h0, hp, -⟩ := closing_poll
  obtain ⟨new, hnew, hall⟩ := close_unsent c hopen 3 7 [98, 121, 101] [] _ rfl 4 true c₂ hpoll
  rw [close_queue, h0, hp, List.nil_append] at hnew
  exact ⟨c, c₂, p, hopen, hpoll, hp, hall p (by rw [← hnew]; exact List.mem_singleton_self p)⟩

/-- The first packet in the highest space after `close`, on a connection that is open and reachable,
has no CLOSE frame. -/
theorem close_forgotten : ∃ ops c c₂ p, run connectionStep (Connection.new 0 .client) ops = .ok c ∧
    c.state.isClosed = false ∧ (c.close 3 7 [98, 121, 101]).pollTransmit 4 = .ok (true, c₂) ∧
    c.path.sendingQueue = [] ∧ c₂.path.sendingQueue = [p] ∧ p.metaInfo.spaceId = c.highestSpace ∧
    ¬ TellsWhy 7 [98, 121, 101] p.packet := by
  obtain ⟨ops, c, c₂, p, hc, hopen, hpoll, h0, hp, hid⟩ := closing_poll
  obtain ⟨new, hnew, hall⟩ := pollTransmit_close (close_state hopen 3 7 _) hpoll
  rw [close_queue, h0, hp, List.nil_append] at hnew
  exact ⟨ops, c, c₂, p, hc, hopen, hpoll, h0, hp, hid,
    hall p (by rw [← hnew]; exact List.mem_singleton_self p) _ _⟩

end MzQuic
