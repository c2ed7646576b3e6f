import MzQuic.Connection.Inner

/-!
# The packets that wait to be sent

* `Waiting`: the queue of the path is as it was, and no packet number was used;
  `connectionStep_waiting`: only a poll adds packets, and only `send_one` takes one;
* `sendOne_takes`: it takes the first.
-/

namespace MzQuic

open Lib

namespace Connection

/-- The packets that wait to be sent are the same, and the next one of each space gets the same number. -/
structure Waiting (c c' : Connection) : Prop where
  queue : c'.path.sendingQueue = c.path.sendingQueue
  next : ∀ id, (c'.spaces id).nextPacketNumber = (c.spaces id).nextPacketNumber

section Waiting

variable {c c' : Connection} {now : Instant} {id : SpaceId}

theorem Waiting.refl (c : Connection) : Waiting c c := ⟨rfl, fun _ => rfl⟩

theorem Waiting.trans {c₁ c₂ c₃ : Connection} (h : Waiting c₁ c₂) (h' : Waiting c₂ c₃) : Waiting c₁ c₃ :=
  ⟨h'.queue.trans h.queue, fun id => (h'.next id).trans (h.next id)⟩

theorem Waiting.of_eq (hp : c'.path = c.path) (hs : c'.spaces = c.spaces) : Waiting c c' :=
  ⟨by rw [hp], fun id => by rw [hs]⟩

/-- One space has changed. -/
theorem Waiting.of_update {space : PacketSpace} (hp : c'.path.sendingQueue = c.path.sendingQueue)
    (he : c'.spaces = Function.update c.spaces id space)
    (h : space.nextPacketNumber = (c.spaces id).nextPacketNumber) : Waiting c c' := by
  refine ⟨hp, fun i => ?_⟩
  rw [he]
  exact (Function.forall_update_iff c.spaces fun i x => x.nextPacketNumber = (c.spaces i).nextPacketNumber).mpr
    ⟨h, fun _ _ => rfl⟩ i

theorem setLossDetectionTimer_waiting (c : Connection) : Waiting c c.setLossDetectionTimer := by
  obtain ⟨timers, e⟩ := setLossDetectionTimer_eq c
  rw [e]
  exact .of_eq rfl rfl

theorem removeInFlight_sendingQueue {path path' : NetworkPath} {pn : ℕ} {packet : SentPacket} {b : Bool}
    (h : path.removeInFlight pn packet = .ok (b, path')) : path'.sendingQueue = path.sendingQueue := by
  rw [(removeInFlight_ok h).2]

theorem discardSpace_waiting (h : c.discardSpace id = .ok c') : Waiting c c' := by
  have hpath := discardSpace_path h
  obtain ⟨timers, e⟩ := discardSpace_eq h
  have hspaces := congrArg Connection.spaces e
  exact .of_update (by rw [hpath]) hspaces rfl

theorem ackedBy_next (s : PacketSpace) (packet : SentPacket) :
    (s.ackedBy packet).nextPacketNumber = s.nextPacketNumber := by
  unfold PacketSpace.ackedBy
  split <;> rfl

theorem requeue_next (s : PacketSpace) (packet : SentPacket) :
    (s.requeue packet).nextPacketNumber = s.nextPacketNumber := by
  unfold PacketSpace.requeue
  split <;> rfl

theorem ackOne_waiting {l l' : AckLoop} {pn : ℕ} (h : ackOne id l pn = .ok l') : Waiting l.c l'.c := by
  obtain ⟨-, rfl⟩ | ⟨packet, s, removed, path, -, -, -, hr, -, hc⟩ := ackOne_cases h
  · exact .refl l'.c
  · rw [hc]
    exact .of_update ((acked_sendingQueue ..).trans (removeInFlight_sendingQueue hr)) rfl (ackedBy_next _ packet)

theorem loseOne_waiting {p : ℕ × SentPacket} (h : loseOne now id c p = .ok c') : Waiting c c' := by
  obtain ⟨s, removed, path, n, -, hr, -, rfl⟩ := loseOne_cases h
  exact .of_update ((lost_sendingQueue ..).trans (removeInFlight_sendingQueue hr)) rfl (requeue_next _ p.2)

theorem detectLostPackets_waiting (h : c.detectLostPackets now id = .ok c') : Waiting c c' :=
  detectLostPackets_inv (I := Waiting c) (fun _ => .of_update rfl rfl rfl)
    (fun _ _ _ hx _ hs => hx.trans (loseOne_waiting hs)) (fun x hx => hx.trans (setLossDetectionTimer_waiting x)) h

theorem onLossDetectionTimeout_waiting (h : c.onLossDetectionTimeout now = .ok c') : Waiting c c' :=
  onLossDetectionTimeout_keeps (I := Waiting c) (fun _ _ _ hx hs => hx.trans (detectLostPackets_waiting hs))
    (fun x hx => hx.trans (setLossDetectionTimer_waiting x)) h (.refl c)

theorem ackNews_waiting {ack : Ack} {l : AckLoop} (h : ackNews now id ack l = .ok c') : Waiting l.c c' :=
  ackNews_inv (I := Waiting l.c) (fun _ => .of_update rfl rfl rfl)
    (fun _ _ hx hs => hx.trans (detectLostPackets_waiting hs))
    (fun x hx => hx.trans (setLossDetectionTimer_waiting x)) h

theorem onAckReceived_waiting {ack : Ack} {r : Except TransportError Unit}
    (h : c.onAckReceived now id ack = .ok (r, c')) : Waiting c c' :=
  onAckReceived_inv (I := Waiting c) (fun _ _ _ hx hs => hx.trans (ackOne_waiting hs))
    (fun _ _ hx hs => hx.trans (ackNews_waiting hs)) h (.refl c)

theorem onPacketAuthenticated_waiting {number : Option ℕ} (h : c.onPacketAuthenticated now id number = .ok c') :
    Waiting c c' :=
  onPacketAuthenticated_inv (I := Waiting c) (fun _ hd => discardSpace_waiting hd)
    (fun _ _ hx _ => hx.trans (.of_update rfl rfl rfl)) (fun _ hx => hx.trans (.of_eq rfl rfl))
    (fun _ hx => hx.trans (.of_update rfl rfl rfl)) h (.refl c)

theorem FrameMove.waiting {r : Except TransportError Bool} (h : FrameMove c r c') : Waiting c c' := by
  cases h with
  | acked h => exact onAckReceived_waiting h
  | crypto id =>
      unfold onCrypto
      dsimp only
      split_ifs <;> exact .of_update rfl rfl rfl
  | immediate id => exact .of_update rfl rfl rfl
  | skipped | illegal | streams | killed => exact .of_eq rfl rfl

theorem processPacket_waiting {number : Option ℕ} {packet : Packet} {r : Except ConnectionError Unit}
    (h : c.processPacket now number packet = .ok (r, c')) : Waiting c c' :=
  processPacket_inv (I := Waiting c) (fun _ _ _ hm hx => hx.trans hm.waiting) h (.refl c)

theorem afterPacket_waiting (now : Instant) (wasClosed wasDrained : Bool)
    (res : Except ConnectionError Unit × Connection) :
    Waiting res.2 (afterPacket now wasClosed wasDrained res) := by
  obtain ⟨r, c⟩ := res
  unfold afterPacket
  dsimp only
  cases r <;> dsimp only <;> split_ifs <;> exact .of_eq rfl rfl

theorem handleData_waiting {data : Bytes} (h : c.handleData now data = .ok c') : Waiting c c' := by
  have hscreened : ∀ header, Waiting c (c.screened header) := fun header => .of_update rfl rfl rfl
  rcases handleData_cases h with ⟨-, rfl⟩ | ⟨packet, -, ⟨-, rfl⟩ | ⟨-, c₁, res, h1, h2, rfl⟩⟩
  · exact .refl c'
  · exact hscreened _
  · refine ((hscreened packet.header).trans ?_).trans
      ((processPacket_waiting h2).trans (afterPacket_waiting now _ _ res))
    rcases authenticate_cases h1 with ⟨-, rfl⟩ | ⟨-, h1⟩
    · exact .refl _
    · exact onPacketAuthenticated_waiting h1

theorem pollTimers_waiting (h : c.pollTimers now = .ok c') : Waiting c c' := by
  rcases pollTimers_fired h with rfl | ⟨timer, hf⟩
  · exact .refl _
  · cases hf with
    | lossDetection h =>
        have := onLossDetectionTimeout_waiting h
        exact ⟨this.queue, this.next⟩
    | maxAckDelay => exact .of_update rfl rfl rfl
    | close | other => exact .of_eq rfl rfl

theorem sent_next (s : PacketSpace) (packet : SentPacket) :
    (s.sent packet).2.nextPacketNumber = s.nextPacketNumber := by
  unfold PacketSpace.sent
  dsimp only
  split_ifs <;> rfl

/-- **`send_one`** takes the first packet of the queue. -/
theorem sendOne_takes (c : Connection) (t : Instant) :
    (c.sendOne t).path.sendingQueue = c.path.sendingQueue.tail ∧
      ∀ id, ((c.sendOne t).spaces id).nextPacketNumber = (c.spaces id).nextPacketNumber := by
  unfold sendOne NetworkPath.sendOne
  cases hq : c.path.sendingQueue with
  | nil => exact ⟨hq, fun _ => rfl⟩
  | cons scheduled queue =>
      have hsent : ∀ packet path i, (({ c with
          path := path
          spaces := Function.update c.spaces scheduled.metaInfo.spaceId
            ((c.spaces scheduled.metaInfo.spaceId).sent packet).2 } : Connection).spaces i).nextPacketNumber =
          (c.spaces i).nextPacketNumber := fun packet _ =>
        (Function.forall_update_iff c.spaces fun i x => x.nextPacketNumber = (c.spaces i).nextPacketNumber).mpr
          ⟨sent_next _ packet, fun _ _ => rfl⟩
      dsimp only [NetworkPath.record]
      by_cases hack : scheduled.metaInfo.ackEliciting = true
      · rw [if_pos hack]
        have htimer := setLossDetectionTimer_waiting
        exact ⟨(htimer _).queue, fun i => ((htimer _).next i).trans (hsent _ _ i)⟩
      · rw [if_neg hack]
        exact ⟨rfl, hsent _ _⟩

end Waiting

end Connection

open Connection

/-- A poll adds packets to the queue, and `send_one` takes one. -/
def ConnectionOp.sends : ConnectionOp → Bool
  | .pollTransmit _ | .sendOne _ => true
  | _ => false

/-- **Only a poll adds packets to the queue, and only `send_one` takes one.** -/
theorem connectionStep_waiting {c c' : Connection} {op : ConnectionOp} (hop : op.sends = false)
    (h : connectionStep c op = .ok c') : Waiting c c' := by
  cases op with
  | pollTransmit now => cases hop
  | sendOne t => cases hop
  | pollTimers now => exact pollTimers_waiting h
  | close now errorCode reason =>
      cases h
      unfold close
      split_ifs <;> exact .of_eq rfl rfl
  | handleData now data => exact handleData_waiting h
  | handleFirstPacket now packet =>
      obtain ⟨⟨r, c₁⟩, h1, h⟩ := Checked.bind_eq_ok.mp h
      cases h
      obtain ⟨c₂, h2, h1⟩ := Checked.bind_eq_ok.mp h1
      exact (onPacketAuthenticated_waiting h2).trans (processPacket_waiting h1)
  | _ =>
      obtain ⟨s, pending, -, rfl⟩ := connectionStep_call rfl h
      exact .of_update rfl rfl rfl

end MzQuic
