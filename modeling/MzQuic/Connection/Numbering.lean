import MzQuic.Connection.Contents
import MzQuic.Connection.Outbox
import MzQuic.Connection.Refinement

/-!
# The numbers of packets and of acknowledgements

* `LargestAcked`: which largest acknowledged numbers a connection may have; `connectionStep_largest`: they come from
  the ACK frames of packets;
* `Stamped`: the number of a packet is cut to what a peer needs that has acknowledged one of these;
  **`pollTransmit_stamped`**: so are those of all packets that a poll schedules;
* `Numbered`: the packets of each space that were sent, and those that wait, have the numbers from 0 on;
  `Numbered.polled`, `Numbered.sent`: so they have after a poll, and after `send_one`.
-/

namespace MzQuic

open Lib

namespace Connection

/-! ## The largest acknowledged number -/

/-- The largest acknowledged numbers are among `ok`. -/
def LargestAcked (ok : SpaceId → ℕ → Prop) (c : Connection) : Prop :=
  ∀ id, ∀ n ∈ (c.spaces id).largestAckedPacket, ok id n

section LargestAcked

variable {ok : SpaceId → ℕ → Prop} {c c' : Connection} {now : Instant} {id : SpaceId}

theorem LargestAcked.of_spaces (hc : c.LargestAcked ok) (h : c'.spaces = c.spaces) : c'.LargestAcked ok :=
  fun i n hn => hc i n (by rwa [← h])

/-- One space has changed. -/
theorem LargestAcked.of_update {space : PacketSpace} (hc : c.LargestAcked ok)
    (he : c'.spaces = Function.update c.spaces id space) (h : ∀ n ∈ space.largestAckedPacket, ok id n) :
    c'.LargestAcked ok := by
  intro i
  rw [he]
  exact (Function.forall_update_iff c.spaces fun i x => ∀ n ∈ x.largestAckedPacket, ok i n).mpr
    ⟨h, fun i _ => hc i⟩ i

/-- One space has changed, and its number has not. -/
theorem LargestAcked.of_same {space : PacketSpace} (hc : c.LargestAcked ok)
    (he : c'.spaces = Function.update c.spaces id space)
    (h : space.largestAckedPacket = (c.spaces id).largestAckedPacket) : c'.LargestAcked ok :=
  hc.of_update he fun n hn => hc id n (by rwa [← h])

theorem LargestAcked.timer (hc : c.LargestAcked ok) : c.setLossDetectionTimer.LargestAcked ok := by
  obtain ⟨timers, e⟩ := setLossDetectionTimer_eq c
  rw [e]
  exact hc.of_spaces rfl

theorem LargestAcked.discard (hc : c.LargestAcked ok) (h : c.discardSpace id = .ok c') : c'.LargestAcked ok := by
  obtain ⟨timers, e⟩ := discardSpace_eq h
  rw [e]
  exact hc.of_same rfl rfl

theorem ackedBy_largest (s : PacketSpace) (packet : SentPacket) :
    (s.ackedBy packet).largestAckedPacket = s.largestAckedPacket := by
  unfold PacketSpace.ackedBy
  split <;> rfl

theorem requeue_largest (s : PacketSpace) (packet : SentPacket) :
    (s.requeue packet).largestAckedPacket = s.largestAckedPacket := by
  unfold PacketSpace.requeue
  split <;> rfl

theorem sent_largest (s : PacketSpace) (packet : SentPacket) :
    (s.sent packet).2.largestAckedPacket = s.largestAckedPacket := by
  unfold PacketSpace.sent
  dsimp only
  split_ifs <;> rfl

theorem LargestAcked.acked {l l' : AckLoop} {pn : ℕ} (hc : l.c.LargestAcked ok) (h : ackOne id l pn = .ok l') :
    l'.c.LargestAcked ok := by
  obtain ⟨-, rfl⟩ | ⟨packet, s, removed, path, -, -, -, -, -, he⟩ := ackOne_cases h
  · exact hc
  · rw [he]
    exact hc.of_same rfl (ackedBy_largest _ packet)

theorem LargestAcked.lost {p : ℕ × SentPacket} (hc : c.LargestAcked ok) (h : loseOne now id c p = .ok c') :
    c'.LargestAcked ok := by
  obtain ⟨s, removed, path, n, -, -, -, rfl⟩ := loseOne_cases h
  exact hc.of_same rfl (requeue_largest _ p.2)

theorem LargestAcked.detected (hc : c.LargestAcked ok) (h : c.detectLostPackets now id = .ok c') :
    c'.LargestAcked ok :=
  detectLostPackets_inv (I := LargestAcked ok) (fun _ => hc.of_same rfl rfl) (fun _ _ _ hx _ hs => hx.lost hs)
    (fun _ hx => hx.timer) h

/-- **An ACK frame** is noted if it acknowledges anything new. -/
theorem LargestAcked.ackReceived {ack : Ack} {r : Except TransportError Unit} (hc : c.LargestAcked ok)
    (hack : ok id ack.largest) (h : c.onAckReceived now id ack = .ok (r, c')) : c'.LargestAcked ok := by
  refine onAckReceived_inv (I := LargestAcked ok) (fun _ _ _ hx hs => hx.acked hs) (fun l x hl hs => ?_) h hc
  refine ackNews_inv (I := LargestAcked ok) (fun rtt => ?_) (fun _ _ hx hd => hx.detected hd) (fun _ hx => hx.timer) hs
  refine hl.of_update rfl fun n hn => ?_
  obtain rfl := Option.some.inj hn
  cases he : (l.c.spaces id).largestAckedPacket with
  | none => exact hack
  | some prev =>
      show ok id (max prev ack.largest)
      rcases max_choice prev ack.largest with hmax | hmax
      · rw [hmax]
        exact hl id prev he
      · rw [hmax]
        exact hack

theorem LargestAcked.authenticated {number : Option ℕ} (hc : c.LargestAcked ok)
    (h : c.onPacketAuthenticated now id number = .ok c') : c'.LargestAcked ok :=
  onPacketAuthenticated_inv (I := LargestAcked ok) (fun _ hd => hc.discard hd) (fun _ _ hx _ => hx.of_same rfl rfl)
    (fun _ hx => hx.of_spaces rfl) (fun _ hx => hx.of_same rfl rfl) h hc

theorem LargestAcked.crypto (hc : c.LargestAcked ok) (id : SpaceId) : (c.onCrypto id).LargestAcked ok := by
  unfold onCrypto
  dsimp only
  split_ifs <;> exact hc.of_same rfl rfl

/-- **The frames of a packet.** Its ACK frames are for numbers among `ok`. -/
theorem LargestAcked.processed {number : Option ℕ} {packet : Packet} {r : Except ConnectionError Unit}
    (hc : c.LargestAcked ok) (hack : ∀ ack, packet.Reads (.ack ack) → ok packet.header.space ack.largest)
    (h : c.processPacket now number packet = .ok (r, c')) : c'.LargestAcked ok := by
  refine processPacket_reads (I := LargestAcked ok) (fun x f r x' _ hr hx hf => ?_) (fun x f r x' _ hr hx hf => ?_) h hc
  · cases f with
    | ack ack =>
        obtain ⟨⟨r, x₁⟩, h1, hf⟩ := Checked.bind_eq_ok.mp hf
        cases hf
        exact hx.ackReceived (hack ack hr) h1
    | crypto offset data =>
        cases hf
        exact hx.crypto _
    | _ =>
        cases hf
        exact hx.of_spaces rfl
  · cases f with
    | ack ack =>
        obtain ⟨⟨r, x₁⟩, h1, hf⟩ := Checked.bind_eq_ok.mp hf
        cases hf
        exact hx.ackReceived (hack ack hr) h1
    | immediateAck =>
        cases hf
        exact hx.of_same rfl rfl
    | stream stream =>
        obtain ⟨⟨r, s⟩, -, hf⟩ := Checked.bind_eq_ok.mp hf
        cases hf
        exact hx.of_spaces rfl
    | _ =>
        cases hf
        exact hx.of_spaces rfl

theorem afterPacket_spaces (now : Instant) (wasClosed wasDrained : Bool)
    (res : Except ConnectionError Unit × Connection) :
    (afterPacket now wasClosed wasDrained res).spaces = res.2.spaces := by
  obtain ⟨r, c⟩ := res
  unfold afterPacket
  dsimp only
  cases r <;> dsimp only <;> split_ifs <;> rfl

theorem LargestAcked.handled {data : Bytes} (hc : c.LargestAcked ok)
    (hack : ∀ packet, packetOf data = some packet → ∀ ack, packet.Reads (.ack ack) →
      ok packet.header.space ack.largest) (h : c.handleData now data = .ok c') : c'.LargestAcked ok := by
  rcases handleData_cases h with ⟨-, rfl⟩ | ⟨packet, hp, ⟨-, rfl⟩ | ⟨-, c₁, res, h1, h2, rfl⟩⟩
  · exact hc
  · exact hc.of_same rfl rfl
  · have hscreened : (c.screened packet.header).LargestAcked ok := hc.of_same rfl rfl
    have h₁ : c₁.LargestAcked ok := by
      rcases authenticate_cases h1 with ⟨-, rfl⟩ | ⟨-, h1⟩
      · exact hscreened
      · exact hscreened.authenticated h1
    exact (h₁.processed (hack packet hp) h2).of_spaces (afterPacket_spaces now _ _ res)

end LargestAcked

/-! ## The numbers of packets -/

section Stamped

variable {ok ok' : SpaceId → ℕ → Prop} {c c' : Connection} {now : Instant} {id : SpaceId}

/-- The packet is read with a number that is cut to what a peer needs that has acknowledged `largest`, if there is one,
and that is among `ok`. -/
def Stamped (ok : SpaceId → ℕ → Prop) (w : ScheduledPacket) : Prop :=
  ∃ packet number, ∃ largest : Option ℕ, packetOf w.packet = some packet ∧
    packet.header.space = w.metaInfo.spaceId ∧ packet.header.number = some number.wire ∧
    PacketNumber.new w.metaInfo.number (largest.getD 0) = .ok number ∧ w.metaInfo.number < 2 ^ 62 ∧
    ∀ n ∈ largest, ok w.metaInfo.spaceId n

theorem Stamped.mono {w : ScheduledPacket} (h : Stamped ok w) (hok : ∀ id n, ok id n → ok' id n) : Stamped ok' w := by
  obtain ⟨packet, number, largest, hp, hs, hn, hnew, hlt, hl⟩ := h
  exact ⟨packet, number, largest, hp, hs, hn, hnew, hlt, fun n hn => hok _ n (hl n hn)⟩

/-- The packet that begins with the header of a number. -/
theorem packetOf_txBytes (id : SpaceId) (number : PacketNumber) (bs : Bytes) :
    packetOf (txBytes id number ++ bs) = some ⟨(txHeader id number).wire, bs⟩ := by
  unfold packetOf
  rw [txBytes_eq, Header.decode_bytes (txHeader_valid id number) bs]

theorem txHeader_wire (id : SpaceId) (number : PacketNumber) :
    (txHeader id number).wire.space = id ∧ (txHeader id number).wire.number = some number.wire := by
  cases id <;> exact ⟨rfl, rfl⟩

theorem LargestAcked.composed {close ackEliciting : Bool} (hc : c.LargestAcked ok)
    (h : composePacket now close c id ackEliciting = .ok c') : c'.LargestAcked ok := by
  obtain ⟨n, buf, sent, c₂, buf₂, -, h2, rfl⟩ := composePacket_cases h
  have hnumbered : (c.numbered id).LargestAcked ok := hc.of_same rfl rfl
  have hc₂ : c₂.LargestAcked ok := by
    rcases h2 with ⟨-, -, rfl, -⟩ | ⟨-, h2⟩
    · exact hnumbered.of_spaces rfl
    · obtain ⟨⟨sent₁, space, buf₁⟩, h3, h2⟩ := Checked.bind_eq_ok.mp h2
      obtain ⟨-, hi, pending, ping, rfl⟩ := populateControl_space h3
      dsimp only at h2
      split_ifs at h2
      · obtain ⟨⟨frames, s, buf₄⟩, -, h2⟩ := Checked.bind_eq_ok.mp h2
        cases h2
        exact hnumbered.of_same rfl rfl
      · cases h2
        exact hnumbered.of_same rfl rfl
  have hnote : (c₂.noteAcks id sent).LargestAcked ok := by
    unfold noteAcks
    split_ifs
    · exact hc₂.of_same rfl rfl
    · exact hc₂
  exact hnote.of_spaces rfl

/-- A new packet begins with its header, which has its number. -/
theorem startPacket_number {n : ℕ} {buf : BufMut} (h : c.startPacket id = .ok (n, c', buf)) : ∃ number,
    PacketNumber.new n ((c.spaces id).largestAckedPacket.getD 0) = .ok number ∧
      buf = (BufMut.withCapacity initialMtu).append (txBytes id number) := by
  obtain ⟨⟨n', space⟩, -, h⟩ := Checked.bind_eq_ok.mp h
  obtain ⟨number, hn, h⟩ := Checked.bind_eq_ok.mp h
  obtain ⟨buf', he, h⟩ := Checked.bind_eq_ok.mp h
  cases h
  exact ⟨number, hn, ((appends_txHeader id number).eq_ok he).2⟩

/-- **The number of a packet that is composed.** -/
theorem composePacket_stamped {close ackEliciting : Bool} (hc : c.LargestAcked ok)
    (h : composePacket now close c id ackEliciting = .ok c') : ∃ p,
      c'.path.sendingQueue = c.path.sendingQueue ++ [p] ∧ p.metaInfo.spaceId = id ∧ Stamped ok p := by
  obtain ⟨n, buf, sent, c₂, buf₂, h1, h2, rfl⟩ := composePacket_cases h
  obtain ⟨-, hlt, -⟩ := startPacket_ok h1
  obtain ⟨number, hnew, rfl⟩ := startPacket_number h1
  obtain ⟨hpath, bs, -, rfl⟩ : c₂.path = c.path ∧
      ((BufMut.withCapacity initialMtu).append (txBytes id number)).Extends buf₂ := by
    rcases h2 with ⟨-, -, rfl, largest, h3⟩ | ⟨-, h2⟩
    · exact ⟨rfl, populateAnyAcks_extends h3⟩
    · exact ⟨(populatePacket_elsewhere h2).path, populatePacket_extends h2⟩
  obtain ⟨hspace, hnumber⟩ := txHeader_wire id number
  set buf := ((BufMut.withCapacity initialMtu).append (txBytes id number)).append bs
  refine ⟨⟨buf.written, metaInfo now id ackEliciting n sent buf⟩, ?_, rfl,
    _, number, _, packetOf_txBytes id number bs, hspace, hnumber, hnew, hlt, hc id⟩
  show (c₂.noteAcks id sent).path.sendingQueue ++ _ = _
  rw [(noteAcks_elsewhere c₂ id sent).path, hpath]

/-- **The numbers of the packets that a poll schedules.** -/
theorem pollTransmit_stamped {more : Bool} (hc : c.LargestAcked ok) (h : c.pollTransmit now = .ok (more, c')) :
    Appended (Stamped ok) c c' := by
  refine pollTransmit_appended (I := LargestAcked ok) (Q := fun _ _ _ => True) hc
    (fun close _ => Meets.trivial _ _ _) (fun close s id s' _ hs _ ht => ?_) h
  obtain ⟨c₁, hc₁, hlast⟩ := transmitSpace_cases ht
  obtain ⟨hlargest, hq⟩ : c₁.LargestAcked ok ∧ c₁.path.sendingQueue = s.1.path.sendingQueue := by
    rcases hc₁ with rfl | ⟨-, hd⟩
    · exact ⟨hs, rfl⟩
    · exact ⟨hs.discard hd, (discardSpace_waiting hd).queue⟩
  rcases hlast with ⟨-, he⟩ | ⟨-, hcomp⟩
  · rw [he]
    exact ⟨hlargest.of_spaces rfl, .of_eq hq⟩
  · obtain ⟨p, hp, -, hstamped⟩ := composePacket_stamped hlargest hcomp
    exact ⟨hlargest.composed hcomp, (Appended.of_eq hq).trans (.one hp hstamped)⟩

theorem LargestAcked.polled {more : Bool} (hc : c.LargestAcked ok) (h : c.pollTransmit now = .ok (more, c')) :
    c'.LargestAcked ok :=
  pollTransmit_inv (I := LargestAcked ok)
    (fun _ _ _ _ _ hx hs => transmitSpace_inv (I := LargestAcked ok) (fun _ hd => hx.discard hd)
      (fun _ _ hy => hy.of_spaces rfl) (fun _ _ _ hy hs => hy.composed hs) hs hx)
    (fun _ _ hx => hx.of_spaces rfl) h hc

theorem LargestAcked.sent (hc : c.LargestAcked ok) (t : Instant) : (c.sendOne t).LargestAcked ok := by
  unfold sendOne NetworkPath.sendOne
  cases c.path.sendingQueue with
  | nil => exact hc
  | cons scheduled queue =>
      have hsent : ∀ packet path, LargestAcked ok { c with
          path := path
          spaces := Function.update c.spaces scheduled.metaInfo.spaceId
            ((c.spaces scheduled.metaInfo.spaceId).sent packet).2 } :=
        fun packet path => hc.of_same rfl (sent_largest _ packet)
      dsimp only [NetworkPath.record]
      by_cases hack : scheduled.metaInfo.ackEliciting = true
      · rw [if_pos hack]
        exact (hsent _ _).timer
      · rw [if_neg hack]
        exact hsent _ _

theorem LargestAcked.fired (hc : c.LargestAcked ok) (h : c.pollTimers now = .ok c') : c'.LargestAcked ok := by
  rcases pollTimers_fired h with rfl | ⟨timer, hf⟩
  · exact hc
  · have hstopped : LargestAcked ok { c with timers := c.timers.stop timer } := hc.of_spaces rfl
    cases hf with
    | lossDetection h =>
        exact onLossDetectionTimeout_keeps (I := LargestAcked ok) (fun _ _ _ hx hs => hx.detected hs)
          (fun _ hx => hx.timer) h hstopped
    | maxAckDelay => exact hstopped.of_same rfl rfl
    | close | other => exact hstopped.of_spaces rfl

end Stamped

/-! ## All numbers of a space -/

section Numbered

variable {past : List SentPacket} {c c' : Connection} {now : Instant} {id : SpaceId}

/-- In each space the packets `past`, and after them those that wait, have the numbers from 0 on. -/
def Numbered (past : List SentPacket) (c : Connection) : Prop :=
  ∀ id, ((past ++ c.core.queue).filter fun p => p.spaceId = id).map SentPacket.number = List.range (c.core.next id)

theorem Waiting.core (h : Waiting c c') : c'.core.queue = c.core.queue ∧ c'.core.next = c.core.next :=
  ⟨congrArg (List.map ScheduledPacket.metaInfo) h.queue, funext h.next⟩

theorem Numbered.congr (hn : Numbered past c) (h : c'.core.queue = c.core.queue ∧ c'.core.next = c.core.next) :
    Numbered past c' := by
  unfold Numbered
  rw [h.1, h.2]
  exact hn

/-- **A packet that is composed** has the next number of its space. -/
theorem Numbered.composed {close ackEliciting : Bool} (hn : Numbered past c)
    (h : composePacket now close c id ackEliciting = .ok c') : Numbered past c' := by
  obtain ⟨p, hnumber, -, hid, -, hk, -⟩ := composePacket_ok h
  have hq : c'.core.queue = c.core.queue ++ [p] := by rw [hk]
  have hnext : c'.core.next = Function.update c.core.next id (c.core.next id + 1) := by rw [hk]
  intro i
  rw [hq, hnext, ← List.append_assoc, List.filter_append, List.map_append]
  by_cases hi : i = id
  · subst hi
    rw [hn i, Function.update_self, List.range_succ, List.filter_cons_of_pos (by simpa using hid), List.map_cons,
      hnumber]
    rfl
  · rw [hn i, Function.update_of_ne hi, List.filter_cons_of_neg (by simpa [hid] using Ne.symm hi)]
    exact List.append_nil _

theorem Numbered.polled {more : Bool} (hn : Numbered past c) (h : c.pollTransmit now = .ok (more, c')) :
    Numbered past c' :=
  pollTransmit_inv (I := Numbered past)
    (fun _ _ _ _ _ hx hs => transmitSpace_inv (I := Numbered past) (fun _ hd => hx.congr (discardSpace_waiting hd).core)
      (fun _ _ hy => hy.congr ⟨rfl, rfl⟩) (fun _ _ _ hy hs => hy.composed hs) hs hx)
    (fun _ _ hx => hx.congr ⟨rfl, rfl⟩) h hn

/-- **`send_one`** moves the first packet of the queue behind those that were sent. -/
theorem Numbered.sent (hn : Numbered past c) (t : Instant) :
    Numbered (past ++ (c.path.sendingQueue.head?.map ScheduledPacket.metaInfo).toList) (c.sendOne t) := by
  obtain ⟨hq, hnext⟩ := sendOne_takes c t
  have hqueue : (c.path.sendingQueue.head?.map ScheduledPacket.metaInfo).toList ++ (c.sendOne t).core.queue =
      c.core.queue := by
    show _ ++ List.map ScheduledPacket.metaInfo (c.sendOne t).path.sendingQueue =
      c.path.sendingQueue.map ScheduledPacket.metaInfo
    rw [hq]
    cases c.path.sendingQueue <;> rfl
  intro i
  rw [List.append_assoc, hqueue, show (c.sendOne t).core.next = c.core.next from funext hnext]
  exact hn i

end Numbered

end Connection

open Connection

/-! ## Steps -/

/-- The packet is the one that the step is given. -/
def ConnectionOp.Brings (packet : Packet) : ConnectionOp → Prop
  | .handleData _ data => packetOf data = some packet
  | .handleFirstPacket _ first => first.toPacket = packet
  | _ => False

section Steps

variable {ok : SpaceId → ℕ → Prop} {c c' : Connection} {op : ConnectionOp}

/-- **The largest acknowledged numbers come from ACK frames.** -/
theorem connectionStep_largest (hc : c.LargestAcked ok)
    (hack : ∀ packet, op.Brings packet → ∀ ack, packet.Reads (.ack ack) → ok packet.header.space ack.largest)
    (h : connectionStep c op = .ok c') : c'.LargestAcked ok := by
  cases op with
  | pollTransmit now =>
      obtain ⟨⟨more, c₁⟩, h1, h⟩ := Checked.bind_eq_ok.mp h
      cases h
      exact hc.polled h1
  | sendOne t =>
      cases h
      exact hc.sent t
  | pollTimers now => exact hc.fired h
  | handleData now data => exact hc.handled hack h
  | handleFirstPacket now packet =>
      obtain ⟨⟨r, c₁⟩, h1, h⟩ := Checked.bind_eq_ok.mp h
      cases h
      obtain ⟨c₂, h2, h1⟩ := Checked.bind_eq_ok.mp h1
      exact (hc.authenticated h2).processed (hack _ rfl) h1
  | close now errorCode reason =>
      cases h
      unfold close
      split_ifs <;> exact hc.of_spaces rfl
  | _ =>
      obtain ⟨s, pending, -, rfl⟩ := connectionStep_call rfl h
      exact hc.of_same rfl rfl

end Steps

end MzQuic
