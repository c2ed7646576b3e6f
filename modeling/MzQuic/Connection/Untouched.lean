import MzQuic.Connection.Numbering

/-!
# The Handshake space (`core/src/connection/mod.rs`)

* `Untouched`: the Handshake space is as it was made, and no packet of it waits; what the functions of a connection do
  to the other spaces leaves it so;
* **`connectionStep_untouched`**: so does every step that brings no packet of the Handshake space.
-/

namespace MzQuic

open Lib

/-- The packet is not one of the Handshake space, and is not read as one. -/
def ScheduledPacket.Early (w : ScheduledPacket) : Prop :=
  w.metaInfo.spaceId ≠ .handshake ∧
    ∀ packet, Connection.packetOf w.packet = some packet → packet.header.space ≠ .handshake

namespace Connection

/-- The Handshake space is as it was made at the time `t`, and no packet of it waits. -/
structure Untouched (t : Instant) (c : Connection) : Prop where
  space : c.spaces .handshake = PacketSpace.new t
  highest : c.highestSpace = .initial
  queue : ∀ w ∈ c.path.sendingQueue, w.Early

section Untouched

variable {t : Instant} {c c' : Connection} {now : Instant} {id : SpaceId}

theorem Untouched.of_spaces (hc : c.Untouched t) (hq : c'.path.sendingQueue = c.path.sendingQueue)
    (hs : c'.spaces = c.spaces) (hh : c'.highestSpace = c.highestSpace) : c'.Untouched t :=
  ⟨by rw [hs]; exact hc.space, hh.trans hc.highest, by rw [hq]; exact hc.queue⟩

/-- Another space has changed. -/
theorem Untouched.of_update {space : PacketSpace} (hc : c.Untouched t) (hid : id ≠ .handshake)
    (hq : c'.path.sendingQueue = c.path.sendingQueue) (he : c'.spaces = Function.update c.spaces id space)
    (hh : c'.highestSpace = c.highestSpace) : c'.Untouched t :=
  ⟨by rw [he, Function.update_of_ne (Ne.symm hid)]; exact hc.space, hh.trans hc.highest, by rw [hq]; exact hc.queue⟩

theorem Untouched.timer (hc : c.Untouched t) : c.setLossDetectionTimer.Untouched t := by
  obtain ⟨timers, e⟩ := setLossDetectionTimer_eq c
  rw [e]
  exact hc.of_spaces rfl rfl rfl

theorem Untouched.discard (hc : c.Untouched t) (h : c.discardSpace .initial = .ok c') : c'.Untouched t := by
  have hq := (discardSpace_waiting h).queue
  obtain ⟨timers, e⟩ := discardSpace_eq h
  exact hc.of_update (by decide : SpaceId.initial ≠ .handshake) hq (congrArg Connection.spaces e) (by rw [e]; rfl)

/-- **Nothing of the Handshake space is lost**, since nothing of it was sent. -/
theorem Untouched.detected (hc : c.Untouched t) (h : c.detectLostPackets now id = .ok c') : c'.Untouched t := by
  by_cases hid : id = .handshake
  · subst hid
    unfold detectLostPackets at h
    rw [hc.space] at h
    cases h
    refine ⟨?_, hc.highest, hc.queue⟩
    unfold modifySpace
    dsimp only
    rw [Function.update_self, hc.space]
    rfl
  · refine detectLostPackets_inv (I := Untouched t) (fun _ => hc.of_update hid rfl rfl rfl) (fun x p x' hx _ hs => ?_)
      (fun _ hx => hx.timer) h
    have hq := (loseOne_waiting hs).queue
    obtain ⟨s, removed, path, n, -, -, -, e⟩ := loseOne_cases hs
    exact hx.of_update hid hq (congrArg Connection.spaces e) (by rw [e]; rfl)

theorem Untouched.ackReceived {ack : Ack} {r : Except TransportError Unit} (hc : c.Untouched t) (hid : id ≠ .handshake)
    (h : c.onAckReceived now id ack = .ok (r, c')) : c'.Untouched t := by
  refine onAckReceived_inv (I := Untouched t) (fun l pn l' hx hs => ?_) (fun _ _ hl hs => ackNews_inv (I := Untouched t)
    (fun _ => hl.of_update hid rfl rfl rfl) (fun _ _ hx hd => hx.detected hd) (fun _ hx => hx.timer) hs) h hc
  have hq := (ackOne_waiting hs).queue
  obtain ⟨-, rfl⟩ | ⟨packet, s, removed, path, -, -, -, -, -, e⟩ := ackOne_cases hs
  · exact hx
  · exact hx.of_update hid hq (congrArg Connection.spaces e) (by rw [e]; rfl)

theorem Untouched.authenticated {number : Option ℕ} (hc : c.Untouched t) (hid : id ≠ .handshake)
    (h : c.onPacketAuthenticated now id number = .ok c') : c'.Untouched t :=
  onPacketAuthenticated_inv (I := Untouched t) (fun _ hd => hc.discard hd)
    (fun _ _ hx _ => hx.of_update hid rfl rfl rfl) (fun _ hx => hx.of_spaces rfl rfl rfl)
    (fun _ hx => hx.of_update hid rfl rfl rfl) h hc

/-- A CRYPTO frame of an Initial packet. -/
theorem Untouched.crypto (hc : c.Untouched t) : (c.onCrypto .initial).Untouched t := by
  unfold onCrypto
  dsimp only
  split_ifs with hhigh
  · exact absurd hhigh (Nat.not_lt_zero _)
  · exact absurd hhigh (Nat.not_lt_zero _)
  · exact hc.of_update (by decide : SpaceId.initial ≠ .handshake) rfl rfl rfl
  · exact hc.of_update (by decide : SpaceId.initial ≠ .handshake) rfl rfl rfl

/-- **The frames of a packet** of another space. -/
theorem Untouched.processed {number : Option ℕ} {packet : Packet} {r : Except ConnectionError Unit}
    (hc : c.Untouched t) (hid : packet.header.space ≠ .handshake)
    (h : c.processPacket now number packet = .ok (r, c')) : c'.Untouched t := by
  refine processPacket_reads (I := Untouched t) (fun x f r x' hd _ hx hf => ?_) (fun x f r x' _ _ hx hf => ?_) h hc
  · have hinitial : packet.header.space = .initial := by
      cases hs : packet.header.space with
      | initial => rfl
      | handshake => exact absurd hs hid
      | data => exact absurd hs hd
    cases f with
    | ack ack =>
        obtain ⟨⟨r, x₁⟩, h1, hf⟩ := Checked.bind_eq_ok.mp hf
        cases hf
        exact hx.ackReceived hid h1
    | crypto offset data =>
        cases hf
        rw [hinitial]
        exact hx.crypto
    | _ =>
        cases hf
        exact hx.of_spaces rfl rfl rfl
  · cases f with
    | ack ack =>
        obtain ⟨⟨r, x₁⟩, h1, hf⟩ := Checked.bind_eq_ok.mp hf
        cases hf
        exact hx.ackReceived hid h1
    | immediateAck =>
        cases hf
        exact hx.of_update hid rfl rfl rfl
    | stream stream =>
        obtain ⟨⟨r, s⟩, -, hf⟩ := Checked.bind_eq_ok.mp hf
        cases hf
        exact hx.of_spaces rfl rfl rfl
    | _ =>
        cases hf
        exact hx.of_spaces rfl rfl rfl

theorem afterPacket_highestSpace (now : Instant) (wasClosed wasDrained : Bool)
    (res : Except ConnectionError Unit × Connection) :
    (afterPacket now wasClosed wasDrained res).highestSpace = res.2.highestSpace := by
  obtain ⟨r, c⟩ := res
  unfold afterPacket
  dsimp only
  cases r <;> dsimp only <;> split_ifs <;> rfl

/-! ## Output -/

/-- **A packet of another space** leaves the Handshake space alone. -/
theorem Untouched.composed {close ackEliciting : Bool} (hc : c.Untouched t) (hid : id ≠ .handshake)
    (h : composePacket now close c id ackEliciting = .ok c') : c'.Untouched t := by
  obtain ⟨p, hq, hspace, packet, -, -, hp, hs, -⟩ :=
    composePacket_stamped (show c.LargestAcked fun _ _ => True from fun _ _ _ => trivial) h
  obtain ⟨-, -, -, -, hspaces, -, hhighest⟩ := composePacket_size h
  refine ⟨(hspaces .handshake (Ne.symm hid)).trans hc.space, hhighest.trans hc.highest, ?_⟩
  rw [hq]
  refine fun w hw => (List.mem_append.mp hw).elim (hc.queue w) fun hw => ?_
  obtain rfl := List.mem_singleton.mp hw
  refine ⟨by rw [hspace]; exact hid, fun packet' hp' => ?_⟩
  obtain rfl := Option.some.inj (hp.symm.trans hp')
  rw [hs, hspace]
  exact hid

/-- The Handshake space has nothing to send. -/
theorem Untouched.composes (hc : c.Untouched t) (close blocked : Bool) :
    c.composes close blocked .handshake = false := by
  unfold Connection.composes spaceCanSend
  rw [hc.space, hc.highest]
  cases close <;> rfl

theorem Untouched.polled {more : Bool} (hc : c.Untouched t) (h : c.pollTransmit now = .ok (more, c')) :
    c'.Untouched t := by
  refine pollTransmit_inv (I := Untouched t) (fun close blocked s i s' hs ht => ?_)
    (fun _ _ hx => hx.of_spaces rfl rfl rfl) h hc
  obtain ⟨c₁, hc₁, hlast⟩ := transmitSpace_cases ht
  have h₁ : c₁.Untouched t := by
    rcases hc₁ with rfl | ⟨-, hd⟩
    · exact hs
    · exact hs.discard hd
  rcases hlast with ⟨-, e⟩ | ⟨hcomp, hlast⟩
  · rw [e]
    exact h₁.of_spaces rfl rfl rfl
  · refine h₁.composed (fun hi => ?_) hlast
    rw [hi, hs.composes] at hcomp
    cases hcomp

theorem Untouched.sentOne (hc : c.Untouched t) (time : Instant) : (c.sendOne time).Untouched t := by
  unfold sendOne NetworkPath.sendOne
  cases hq : c.path.sendingQueue with
  | nil => exact hc
  | cons w queue =>
      have hqueue : ∀ x ∈ w :: queue, x.Early := by
        rw [← hq]
        exact hc.queue
      have hsent : ∀ (path : NetworkPath) (space : PacketSpace), path.sendingQueue = queue → Untouched t { c with
          path := path
          spaces := Function.update c.spaces w.metaInfo.spaceId space } := fun path space hpath =>
        ⟨by
          show Function.update c.spaces w.metaInfo.spaceId space .handshake = _
          rw [Function.update_of_ne (Ne.symm (hqueue w List.mem_cons_self).1)]
          exact hc.space, hc.highest, fun x hx => hqueue x (List.mem_cons_of_mem w (hpath ▸ hx))⟩
      dsimp only [NetworkPath.record]
      by_cases hack : w.metaInfo.ackEliciting = true
      · rw [if_pos hack]
        exact (hsent _ _ rfl).timer
      · rw [if_neg hack]
        exact hsent _ _ rfl

theorem Untouched.fired (hc : c.Untouched t) (h : c.pollTimers now = .ok c') : c'.Untouched t := by
  rcases pollTimers_fired h with rfl | ⟨timer, hf⟩
  · exact hc
  · have hstopped : Untouched t { c with timers := c.timers.stop timer } := hc.of_spaces rfl rfl rfl
    cases hf with
    | lossDetection h =>
        exact onLossDetectionTimeout_keeps (I := Untouched t) (fun _ _ _ hx hs => hx.detected hs)
          (fun _ hx => hx.timer) h hstopped
    | maxAckDelay => exact hstopped.of_update (by decide : SpaceId.data ≠ .handshake) rfl rfl rfl
    | close | other => exact hstopped.of_spaces rfl rfl rfl

end Untouched

theorem untouched_new (now : Instant) (side : Side) : (Connection.new now side).Untouched now := by
  cases side <;> exact ⟨rfl, rfl, fun w hw => absurd hw List.not_mem_nil⟩

end Connection

open Connection

/-- **A step that brings no packet of the Handshake space** leaves it as it was made. -/
theorem connectionStep_untouched {t : Instant} {c c' : Connection} {op : ConnectionOp} (hc : c.Untouched t)
    (hb : ∀ packet, op.Brings packet → packet.header.space ≠ .handshake) (h : connectionStep c op = .ok c') :
    c'.Untouched t := by
  cases op with
  | handleData now data =>
      rcases handleData_cases h with ⟨-, rfl⟩ | ⟨packet, hp, ⟨-, rfl⟩ | ⟨-, c₁, res, h1, h2, rfl⟩⟩
      · exact hc
      · exact hc.of_update (hb packet hp) rfl rfl rfl
      · have hscreened : (c.screened packet.header).Untouched t := hc.of_update (hb packet hp) rfl rfl rfl
        have h₁ : c₁.Untouched t := by
          rcases authenticate_cases h1 with ⟨-, rfl⟩ | ⟨-, h1⟩
          · exact hscreened
          · exact hscreened.authenticated (hb packet hp) h1
        exact (h₁.processed (hb packet hp) h2).of_spaces (afterPacket_waiting now _ _ res).queue
          (afterPacket_spaces now _ _ res) (afterPacket_highestSpace now _ _ res)
  | handleFirstPacket now packet =>
      obtain ⟨⟨r, c₁⟩, h1, h⟩ := Checked.bind_eq_ok.mp h
      cases h
      obtain ⟨c₂, h2, h1⟩ := Checked.bind_eq_ok.mp h1
      exact (hc.authenticated (by decide) h2).processed (hb _ rfl) h1
  | pollTransmit now =>
      obtain ⟨⟨more, c₁⟩, h1, h⟩ := Checked.bind_eq_ok.mp h
      cases h
      exact hc.polled h1
  | sendOne time =>
      cases h
      exact hc.sentOne time
  | pollTimers now => exact hc.fired h
  | close now errorCode reason =>
      cases h
      unfold Connection.close
      split_ifs
      · exact hc
      · exact hc.of_spaces rfl rfl rfl
  | _ =>
      obtain ⟨s, pending, -, rfl⟩ := connectionStep_call rfl h
      exact hc.of_update (by decide : SpaceId.data ≠ .handshake) rfl rfl rfl

end MzQuic
