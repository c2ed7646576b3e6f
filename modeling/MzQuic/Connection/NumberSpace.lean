import MzQuic.Connection.Dedup
import MzQuic.Connection.HonestAcks
import MzQuic.Connection.Inner
import MzQuic.Proto.NumberSpace

/-!
# The numbers received and the number space

`handle_data` expands the number of a packet relative to the largest one received, and records it.

* `Unheard`: no packet was recorded since; `connectionStep_unheard`: only the arrival of a packet records one;
* `NumbersBelow`: what is recorded is below `2 ^ 62`; `NumbersBelow.acksWritable`: then ACKs can be written;
* `arrives`, `ArrivesBelow`: the number that a step expands, and when it is below `2 ^ 62`;
* **`numbers_below_iff`**: along every run, all of it holds exactly as long as no arrival leaves the number
  space; `number_space_left`: a run in which one does.
-/

namespace MzQuic

open Lib

namespace Connection

/-! ## What records nothing -/

/-- No packet was recorded in the space since: the largest number is the same, and no number more is to be
acknowledged. -/
structure SpaceUnheard (s s' : PacketSpace) : Prop where
  rx : s'.rxPacket = s.rxPacket
  acks : ∀ n ∈ s'.pendingAcks.ranges, n ∈ s.pendingAcks.ranges

/-- No packet was recorded since. -/
def Unheard (c c' : Connection) : Prop := ∀ id, SpaceUnheard (c.spaces id) (c'.spaces id)

section Unheard

variable {c c' : Connection} {now : Instant} {id : SpaceId}

theorem SpaceUnheard.refl (s : PacketSpace) : SpaceUnheard s s := ⟨rfl, fun _ h => h⟩

theorem SpaceUnheard.trans {s₁ s₂ s₃ : PacketSpace} (h : SpaceUnheard s₁ s₂) (h' : SpaceUnheard s₂ s₃) :
    SpaceUnheard s₁ s₃ :=
  ⟨h'.rx.trans h.rx, fun n hn => h.acks n (h'.acks n hn)⟩

/-- A space that differs in other fields. -/
theorem SpaceUnheard.of_eq {s s' : PacketSpace} (hrx : s'.rxPacket = s.rxPacket)
    (ha : s'.pendingAcks.ranges = s.pendingAcks.ranges) : SpaceUnheard s s' :=
  ⟨hrx, fun n hn => by rwa [← ha]⟩

theorem Unheard.refl (c : Connection) : Unheard c c := fun _ => .refl _

theorem Unheard.trans {c₁ c₂ c₃ : Connection} (h : Unheard c₁ c₂) (h' : Unheard c₂ c₃) : Unheard c₁ c₃ :=
  fun id => (h id).trans (h' id)

theorem Unheard.of_spaces (h : c'.spaces = c.spaces) : Unheard c c' := fun id => by
  rw [h]
  exact .refl _

/-- One space has changed. -/
theorem Unheard.of_update {space : PacketSpace} (he : c'.spaces = Function.update c.spaces id space)
    (h : SpaceUnheard (c.spaces id) space) : Unheard c c' := fun i => by
  rw [he]
  exact (Function.forall_update_iff c.spaces fun i x => SpaceUnheard (c.spaces i) x).mpr ⟨h, fun _ _ => .refl _⟩ i

theorem ackedBy_unheard (s : PacketSpace) (packet : SentPacket) : SpaceUnheard s (s.ackedBy packet) := by
  unfold PacketSpace.ackedBy
  split
  · exact ⟨rfl, fun n hn => (ArrayRangeSet.mem_remove.mp hn).1⟩
  · exact .refl s

theorem requeue_unheard (s : PacketSpace) (packet : SentPacket) : SpaceUnheard s (s.requeue packet) := by
  unfold PacketSpace.requeue
  split <;> exact .of_eq rfl rfl

theorem sent_unheard (s : PacketSpace) (packet : SentPacket) : SpaceUnheard s (s.sent packet).2 := by
  unfold PacketSpace.sent
  dsimp only
  split_ifs <;> exact .of_eq rfl rfl

theorem setLossDetectionTimer_unheard (c : Connection) : Unheard c c.setLossDetectionTimer := by
  obtain ⟨timers, e⟩ := setLossDetectionTimer_eq c
  rw [e]
  exact .of_spaces rfl

theorem discardSpace_unheard (h : c.discardSpace id = .ok c') : Unheard c c' := by
  obtain ⟨timers, e⟩ := discardSpace_eq h
  rw [e]
  exact .of_update rfl (.of_eq rfl rfl)

theorem ackOne_unheard {l l' : AckLoop} {pn : ℕ} (h : ackOne id l pn = .ok l') : Unheard l.c l'.c := by
  obtain ⟨-, rfl⟩ | ⟨packet, s, removed, path, -, -, -, -, -, hc⟩ := ackOne_cases h
  · exact .refl l'.c
  · have htaken : SpaceUnheard (l.c.spaces id) ((l.c.spaces id).taken pn packet) := .of_eq rfl rfl
    rw [hc]
    exact .of_update rfl (htaken.trans (ackedBy_unheard _ packet))

theorem loseOne_unheard {p : ℕ × SentPacket} (h : loseOne now id c p = .ok c') : Unheard c c' := by
  obtain ⟨s, removed, path, n, -, -, -, rfl⟩ := loseOne_cases h
  exact .of_update rfl ((requeue_unheard _ p.2).trans (.of_eq rfl rfl))

theorem detectLostPackets_unheard (h : c.detectLostPackets now id = .ok c') : Unheard c c' :=
  detectLostPackets_inv (I := Unheard c) (fun _ => .of_update rfl (.of_eq rfl rfl))
    (fun _ _ _ hx _ hs => hx.trans (loseOne_unheard hs)) (fun x hx => hx.trans (setLossDetectionTimer_unheard x)) h

theorem onLossDetectionTimeout_unheard (h : c.onLossDetectionTimeout now = .ok c') : Unheard c c' :=
  onLossDetectionTimeout_keeps (I := Unheard c) (fun _ _ _ hx hs => hx.trans (detectLostPackets_unheard hs))
    (fun x hx => hx.trans (setLossDetectionTimer_unheard x)) h (.refl c)

theorem ackNews_unheard {ack : Ack} {l : AckLoop} (h : ackNews now id ack l = .ok c') : Unheard l.c c' :=
  ackNews_inv (I := Unheard l.c) (fun _ => .of_update rfl (.of_eq rfl rfl))
    (fun _ _ hx hs => hx.trans (detectLostPackets_unheard hs))
    (fun x hx => hx.trans (setLossDetectionTimer_unheard x)) h

theorem onAckReceived_unheard {ack : Ack} {r : Except TransportError Unit}
    (h : c.onAckReceived now id ack = .ok (r, c')) : Unheard c c' :=
  onAckReceived_inv (I := Unheard c) (fun _ _ _ hx hs => hx.trans (ackOne_unheard hs))
    (fun _ _ hx hs => hx.trans (ackNews_unheard hs)) h (.refl c)

theorem sendOne_unheard (c : Connection) (t : Instant) : Unheard c (c.sendOne t) := by
  unfold sendOne NetworkPath.sendOne
  cases c.path.sendingQueue with
  | nil => exact .refl c
  | cons scheduled queue =>
      have hsent : ∀ packet path, Unheard c { c with
          path := path
          spaces := Function.update c.spaces scheduled.metaInfo.spaceId
            ((c.spaces scheduled.metaInfo.spaceId).sent packet).2 } :=
        fun packet path => .of_update rfl (sent_unheard _ packet)
      dsimp only [NetworkPath.record]
      by_cases hack : scheduled.metaInfo.ackEliciting = true
      · rw [if_pos hack]
        exact (hsent _ _).trans (setLossDetectionTimer_unheard _)
      · rw [if_neg hack]
        exact hsent _ _

/-! ## Polls and frames -/

theorem composePacket_unheard {close ackEliciting : Bool} (h : composePacket now close c id ackEliciting = .ok c') :
    Unheard c c' := by
  obtain ⟨n, buf, sent, c₂, buf₂, -, h2, rfl⟩ := composePacket_cases h
  have hstart : Unheard c (c.numbered id) := .of_update rfl (.of_eq rfl rfl)
  have hpopulate : Unheard (c.numbered id) c₂ := by
    rcases h2 with ⟨-, -, rfl, -⟩ | ⟨-, h2⟩
    · exact .of_spaces rfl
    · obtain ⟨⟨sent₁, space, buf₁⟩, h3, h2⟩ := Checked.bind_eq_ok.mp h2
      obtain ⟨-, hi, pending, ping, rfl⟩ := populateControl_space h3
      dsimp only at h2
      split_ifs at h2
      · obtain ⟨⟨frames, s, buf₄⟩, -, h2⟩ := Checked.bind_eq_ok.mp h2
        cases h2
        exact .of_update rfl (.of_eq rfl rfl)
      · cases h2
        exact .of_update rfl (.of_eq rfl rfl)
  have hnote : Unheard c₂ (c₂.noteAcks id sent) := by
    unfold noteAcks
    split_ifs
    · exact .of_update rfl (.of_eq rfl rfl)
    · exact .refl _
  exact (hstart.trans hpopulate).trans (hnote.trans (.of_spaces rfl))

theorem transmitSpace_unheard {close blocked : Bool} {s s' : Connection × Bool}
    (h : transmitSpace now close blocked s id = .ok s') : Unheard s.1 s'.1 :=
  transmitSpace_inv (I := Unheard s.1) (fun _ hd => discardSpace_unheard hd)
    (fun _ _ hx => hx.trans (.of_spaces rfl)) (fun _ _ _ hx hs => hx.trans (composePacket_unheard hs)) h (.refl s.1)

theorem pollTransmit_unheard {more : Bool} (h : c.pollTransmit now = .ok (more, c')) : Unheard c c' :=
  pollTransmit_inv (I := Unheard c) (fun _ _ _ _ _ hx hs => hx.trans (transmitSpace_unheard hs))
    (fun _ _ hx => hx.trans (.of_spaces rfl)) h (.refl c)

theorem FrameMove.unheard {r : Except TransportError Bool} (h : FrameMove c r c') : Unheard c c' := by
  cases h with
  | acked h => exact onAckReceived_unheard h
  | crypto id =>
      unfold onCrypto
      dsimp only
      split_ifs <;> exact .of_update rfl (.of_eq rfl rfl)
  | immediate id => exact .of_update rfl (.of_eq rfl rfl)
  | skipped | illegal | streams | killed => exact .of_spaces rfl

theorem processPacket_unheard {number : Option ℕ} {packet : Packet} {r : Except ConnectionError Unit}
    (h : c.processPacket now number packet = .ok (r, c')) : Unheard c c' :=
  processPacket_inv (I := Unheard c) (fun _ _ _ hm hx => hx.trans hm.unheard) h (.refl c)

theorem afterPacket_unheard (now : Instant) (wasClosed wasDrained : Bool)
    (res : Except ConnectionError Unit × Connection) :
    Unheard res.2 (afterPacket now wasClosed wasDrained res) := by
  obtain ⟨r, c⟩ := res
  refine .of_spaces ?_
  unfold afterPacket
  dsimp only
  cases r <;> dsimp only <;> split_ifs <;> rfl

theorem pollTimers_unheard (h : c.pollTimers now = .ok c') : Unheard c c' := by
  rcases pollTimers_fired h with rfl | ⟨timer, hf⟩
  · exact .refl _
  · cases hf with
    | lossDetection h => exact fun i => onLossDetectionTimeout_unheard h i
    | maxAckDelay => exact .of_update rfl (.of_eq rfl rfl)
    | close | other => exact .of_spaces rfl

end Unheard

end Connection

open Connection

/-- A packet arrives. -/
def ConnectionOp.isArrival : ConnectionOp → Bool
  | .handleData .. | .handleFirstPacket .. => true
  | _ => false

/-- **Only the arrival of a packet records one.** -/
theorem connectionStep_unheard {c c' : Connection} {op : ConnectionOp} (hop : op.isArrival = false)
    (h : connectionStep c op = .ok c') : Unheard c c' := by
  cases op with
  | pollTransmit now =>
      obtain ⟨⟨more, c₁⟩, h1, h⟩ := Checked.bind_eq_ok.mp h
      cases h
      exact pollTransmit_unheard h1
  | sendOne t =>
      cases h
      exact sendOne_unheard c t
  | pollTimers now => exact pollTimers_unheard h
  | close now errorCode reason =>
      cases h
      refine .of_spaces ?_
      unfold close
      split_ifs <;> rfl
  | handleData now data => cases hop
  | handleFirstPacket now packet => cases hop
  | _ =>
      obtain ⟨s, pending, -, rfl⟩ := connectionStep_call rfl h
      exact .of_update rfl (.of_eq rfl rfl)

namespace Connection

/-! ## What a packet records -/

/-- The largest number received and those to be acknowledged are below `2 ^ 62`. -/
structure InNumberSpace (s : PacketSpace) : Prop where
  rx : s.rxPacket < 2 ^ 62
  acks : ∀ n ∈ s.pendingAcks.ranges, n < 2 ^ 62

/-- The numbers that the connection has recorded are below `2 ^ 62`. -/
def NumbersBelow (c : Connection) : Prop := ∀ id, InNumberSpace (c.spaces id)

/-- The number that a step expands of a packet. -/
def arrives (c : Connection) : ConnectionOp → Option ℕ
  | .handleData _ data => (packetOf data).bind fun packet => c.arrival packet.header
  | .handleFirstPacket _ packet => some (packet.header.number.expand 0)
  | _ => none

section Records

variable {c c' : Connection} {now : Instant} {id : SpaceId}

theorem Unheard.numbersBelow (h : Unheard c c') (hc : c.NumbersBelow) : c'.NumbersBelow := fun id =>
  ⟨by rw [(h id).rx]; exact (hc id).rx, fun n hn => (hc id).acks n ((h id).acks n hn)⟩

theorem numbersBelow_new (now : Instant) (side : Side) : (Connection.new now side).NumbersBelow := by
  intro id
  cases side <;> cases id <;> exact ⟨Nat.two_pow_pos 62, fun n hn => absurd hn (ArrayRangeSet.notMem_new n)⟩

/-- A number that is recorded is the largest one now, or is not, and is to be acknowledged. -/
theorem recorded_below {n : ℕ} (hn : n < 2 ^ 62) (hc : c.NumbersBelow) : (c.recorded now id n).NumbersBelow := by
  have hspace : InNumberSpace { c.spaces id with
      pendingAcks := ((c.spaces id).pendingAcks.packetReceived now n true (c.spaces id).dedup).2
      rxPacket := if n ≥ (c.spaces id).rxPacket then n else (c.spaces id).rxPacket } := by
    constructor
    · dsimp only
      split_ifs
      · exact hn
      · exact (hc id).rx
    · intro m hm
      rw [packetReceived_ranges] at hm
      rcases PendingAcks.mem_insertOne hm with rfl | hm
      · exact hn
      · exact (hc id).acks m hm
  exact (Function.forall_update_iff c.spaces fun _ => InNumberSpace).mpr ⟨hspace, fun i _ => hc i⟩

theorem onPacketAuthenticated_below {number : Option ℕ} (hn : ∀ n ∈ number, n < 2 ^ 62) (hc : c.NumbersBelow)
    (h : c.onPacketAuthenticated now id number = .ok c') : c'.NumbersBelow :=
  onPacketAuthenticated_inv (I := NumbersBelow) (fun _ hd => (discardSpace_unheard hd).numbersBelow hc)
    (fun _ n hx e => recorded_below (hn n e) hx) (fun _ hx => hx)
    (fun _ hx => Unheard.numbersBelow (.of_update rfl (.of_eq rfl rfl)) hx) h hc

theorem authenticate_below {header : Header} (hn : ∀ n ∈ c.arrival header, n < 2 ^ 62) (hc : c.NumbersBelow)
    (h : c.authenticate now header = .ok c') : c'.NumbersBelow := by
  have hs : (c.screened header).NumbersBelow := Unheard.numbersBelow (.of_update rfl (.of_eq rfl rfl)) hc
  rcases authenticate_cases h with ⟨-, rfl⟩ | ⟨-, h⟩
  · exact hs
  · exact onPacketAuthenticated_below hn hs h

theorem handleData_below {data : Bytes} (hn : ∀ n ∈ c.arrives (.handleData now data), n < 2 ^ 62)
    (hc : c.NumbersBelow) (h : c.handleData now data = .ok c') : c'.NumbersBelow := by
  rcases handleData_cases h with ⟨-, rfl⟩ | ⟨packet, hp, ⟨-, rfl⟩ | ⟨-, c₁, res, h1, h2, rfl⟩⟩
  · exact hc
  · exact Unheard.numbersBelow (.of_update rfl (.of_eq rfl rfl)) hc
  · have harrives : c.arrives (.handleData now data) = c.arrival packet.header := by
      dsimp only [arrives]
      rw [hp, Option.bind_some]
    have h₁ := authenticate_below (by rwa [harrives] at hn) hc h1
    exact ((processPacket_unheard h2).trans (afterPacket_unheard now _ _ res)).numbersBelow h₁

theorem handleFirstPacket_below {packet : InitialPacket} {r : Except ConnectionError Unit}
    (hn : packet.header.number.expand 0 < 2 ^ 62) (hc : c.NumbersBelow)
    (h : c.handleFirstPacket now packet = .ok (r, c')) : c'.NumbersBelow := by
  obtain ⟨c₁, h1, h⟩ := Checked.bind_eq_ok.mp h
  have h₁ : c₁.NumbersBelow := onPacketAuthenticated_below (fun n hm => by cases hm; exact hn) hc h1
  exact (processPacket_unheard h).numbersBelow h₁

end Records

end Connection

/-- **A step that expands to a number below `2 ^ 62` records none above.** -/
theorem connectionStep_below {c c' : Connection} {op : ConnectionOp} (hn : ∀ n ∈ c.arrives op, n < 2 ^ 62)
    (hc : c.NumbersBelow) (h : connectionStep c op = .ok c') : c'.NumbersBelow := by
  cases op with
  | handleData now data => exact handleData_below hn hc h
  | handleFirstPacket now packet =>
      obtain ⟨⟨r, c₁⟩, h1, h⟩ := Checked.bind_eq_ok.mp h
      cases h
      exact handleFirstPacket_below (hn _ rfl) hc h1
  | _ => exact (connectionStep_unheard rfl h).numbersBelow hc

namespace Connection

/-! ## Acknowledging what was recorded -/

/-- What `populate_acks` writes for the space, it writes to every buffer with room for it, and it panics for no
other reason. -/
def AcksWritable (space : PacketSpace) : Prop := space.pendingAcks.ranges.isEmpty = false →
  ∀ now, ∃ bs, Appends (fun buf => Prod.snd <$> populateAcks now space buf) bs

/-- The delay in the ACK frame of the space. -/
def frameDelay (now : Instant) (space : PacketSpace) : ℕ :=
  ((space.pendingAcks.ackDelay now).asMicros % 2 ^ 64) >>> ackDelayExp

theorem frameDelay_lt (now : Instant) (space : PacketSpace) : frameDelay now space < 2 ^ 62 := by
  rw [frameDelay, Nat.shiftRight_eq_div_pow, ackDelayExp]
  omega

theorem populateAcks_eq {space : PacketSpace} (hne : space.pendingAcks.ranges.isEmpty = false) (now : Instant)
    (buf : BufMut) : Prod.snd <$> populateAcks now space buf =
      Ack.encode (frameDelay now space) space.pendingAcks.ranges none buf := by
  unfold populateAcks
  rw [hne, Checked.assert_of (show (!false) = true from rfl), Checked.ok_bind]
  dsimp only
  rw [map_bind]
  exact bind_pure _

/-- **Numbers below `2 ^ 62` can be acknowledged.** -/
theorem InNumberSpace.acksWritable {space : PacketSpace} (h : InNumberSpace space) : AcksWritable space := by
  intro hne now
  cases hr : space.pendingAcks.ranges.ranges.reverse with
  | nil =>
      rw [List.reverse_eq_nil_iff] at hr
      rw [ArrayRangeSet.isEmpty, hr] at hne
      cases hne
  | cons first rest =>
      have hfits : AckFits (frameDelay now space) first rest none :=
        (AckFits.of_set hr h.acks (frameDelay_lt now space) fun x hx => by cases hx).1
      exact ⟨_, fun buf => (populateAcks_eq hne now buf).trans (Ack.appends_encode hr hfits buf)⟩

/-- **No other number can.** -/
theorem populateAcks_above {space : PacketSpace} {n : ℕ} (hmem : n ∈ space.pendingAcks.ranges) (hn : 2 ^ 62 ≤ n)
    (now : Instant) {buf : BufMut} (hroom : 0 < buf.remainingMut) :
    populateAcks now space buf = .error .explicit := by
  have hne : space.pendingAcks.ranges.isEmpty = false := by
    obtain ⟨q, hq, -⟩ := hmem
    unfold ArrayRangeSet.isEmpty
    exact List.isEmpty_eq_false_iff_exists_mem.mpr ⟨q, hq⟩
  have hencode := (populateAcks_eq hne now buf).trans (Ack.encode_above hmem hn hroom)
  cases h : populateAcks now space buf with
  | error p =>
      rw [h] at hencode
      simpa using hencode
  | ok r =>
      rw [h] at hencode
      cases hencode

/-! ## Arrivals -/

/-- The packet that arrives, if any, has a number that is expanded to one below `2 ^ 62`: the first number from
`2 ^ 62` on with its low bits is more than half a window above the one that is expected. -/
def ArrivesBelow (c : Connection) : ConnectionOp → Prop
  | .handleData _ data => ∀ packet ∈ packetOf data, ∀ p ∈ packet.header.number,
      (c.spaces packet.header.space).rxPacket + 1 + p.hwin < 2 ^ 62 + p.truncated
  | _ => True

instance (c : Connection) (op : ConnectionOp) : Decidable (c.ArrivesBelow op) := by
  unfold ArrivesBelow
  cases op <;> infer_instance

/-- The number of a packet that was decoded fits its width. -/
theorem packetOf_fits {data : Bytes} {packet : Packet} (h : packetOf data = some packet) :
    ∀ p ∈ packet.header.number, p.Fits := by
  unfold packetOf at h
  split at h
  · rename_i header payload hd
    cases h
    exact Header.yields_decode _ _ _ _ _ hd
  · cases h

end Connection

/-- The packet that `handle_first_packet` gets was decoded. -/
def ConnectionOp.firstFits : ConnectionOp → Prop
  | .handleFirstPacket _ packet => packet.header.number.Fits
  | _ => True

instance (op : ConnectionOp) : Decidable op.firstFits := by
  unfold ConnectionOp.firstFits PacketNumber.Fits
  cases op <;> infer_instance

/-- **When a step expands to a number below `2 ^ 62`.** -/
theorem arrivesBelow_iff {c : Connection} {op : ConnectionOp} (hc : c.NumbersBelow) (hop : op.firstFits) :
    (∀ n ∈ c.arrives op, n < 2 ^ 62) ↔ c.ArrivesBelow op := by
  cases op with
  | handleData now data =>
      dsimp only [arrives, ArrivesBelow]
      cases hp : packetOf data with
      | none => simp
      | some packet =>
          have hfits := packetOf_fits hp
          have hrx := (hc packet.header.space).rx
          unfold arrival
          cases hn : packet.header.number with
          | none => simp [hn]
          | some p =>
              have hfit := hfits p hn
              have hexp := PacketNumber.expand_lt_iff (lt_trans hfit.lt (by norm_num)) hrx
              rw [PacketNumber.staysBelow_iff hfit] at hexp
              simpa [hn] using hexp
  | handleFirstPacket now packet =>
      refine iff_of_true (fun n hn => ?_) trivial
      cases hn
      exact packet.header.number.expand_zero_le.trans_lt (lt_trans (PacketNumber.Fits.lt hop) (by norm_num))
  | _ => exact iff_of_true nofun trivial

/-- **Expanded packet numbers stay in the number space exactly as long as no arrival leaves it.** Each number
that `handle_data` can expand is expanded without overflow, and below `2 ^ 62` if and only if it stays below. Along
every run, every number that is expanded and every largest number received is below `2 ^ 62` and the pending ACKs
can be written, if and only if every arrival stays below. -/
theorem numbers_below_iff (now : Instant) (side : Side) (ops : List ConnectionOp)
    (hops : ∀ op ∈ ops, op.firstFits) :
    (∀ (p : PacketNumber) (rxPacket : ℕ), p.truncated < 2 ^ 32 → rxPacket < 2 ^ 62 →
      p.expandU64 (rxPacket + 1) = .ok (p.expand (rxPacket + 1)) ∧
        (p.expand (rxPacket + 1) < 2 ^ 62 ↔ p.StaysBelow (rxPacket + 1))) ∧
    ((Meets connectionStep (fun c op => ∀ n ∈ c.arrives op, n < 2 ^ 62) (Connection.new now side) ops ∧
      ∀ bs cs c, ops = bs ++ cs → run connectionStep (Connection.new now side) bs = .ok c →
        ∀ id, (c.spaces id).rxPacket < 2 ^ 62 ∧ AcksWritable (c.spaces id)) ↔
      Meets connectionStep ArrivesBelow (Connection.new now side) ops) := by
  refine ⟨fun p rxPacket hp hrx => ?_, ?_⟩
  · have ht : p.truncated < 2 ^ 62 := lt_trans hp (by norm_num)
    exact ⟨PacketNumber.expandU64_eq ht hrx, PacketNumber.expand_lt_iff ht hrx⟩
  have hand : ∀ ok, Meets connectionStep ok (Connection.new now side) ops ↔
      Meets connectionStep (fun c op => ok c op ∧ op.firstFits) (Connection.new now side) ops :=
    fun ok => ⟨fun hm => hm.and (Meets.of_forall hops), fun hm => hm.mono fun _ _ h => h.1⟩
  have hstep : ∀ c op c', c.NumbersBelow → c.ArrivesBelow op ∧ op.firstFits → connectionStep c op = .ok c' →
      c'.NumbersBelow := fun c op c' hc hok h => connectionStep_below ((arrivesBelow_iff hc hok.2).mpr hok.1) hc h
  -- what the steps expand is below `2 ^ 62` as long as what is recorded is
  have hiff : Meets connectionStep (fun c op => ∀ n ∈ c.arrives op, n < 2 ^ 62) (Connection.new now side) ops ↔
      Meets connectionStep ArrivesBelow (Connection.new now side) ops := by
    rw [hand, hand ArrivesBelow]
    exact Meets.congr_inv (I := NumbersBelow) (fun c op hc => and_congr_left fun hop => arrivesBelow_iff hc hop) hstep
      (numbersBelow_new now side)
  rw [hiff]
  refine and_iff_left_of_imp fun hm bs cs c hl hr id => ?_
  rw [hand] at hm
  subst hl
  have hc : c.NumbersBelow := run_inv hstep (numbersBelow_new now side) hm.left hr
  exact ⟨(hc id).rx, (hc id).acksWritable⟩

/-- A server takes its first packet, and another one. -/
theorem numbers_below_two : ∃ ops : List ConnectionOp,
    ops = [.handleFirstPacket 1 ⟨⟨fakeCid, fakeCid, [], .u8 0, 1⟩, [6, 0, 1, 0]⟩,
      .handleData 2 (initialDatagram 1 [1])] ∧
    Meets connectionStep ArrivesBelow (Connection.new 0 .server) ops ∧
    Meets connectionStep (fun c op => ∀ n ∈ c.arrives op, n < 2 ^ 62) (Connection.new 0 .server) ops ∧
    ∀ bs cs c, ops = bs ++ cs → run connectionStep (Connection.new 0 .server) bs = .ok c →
      ∀ id, (c.spaces id).rxPacket < 2 ^ 62 ∧ AcksWritable (c.spaces id) := by
  let ops : List ConnectionOp :=
    [.handleFirstPacket 1 ⟨⟨fakeCid, fakeCid, [], .u8 0, 1⟩, [6, 0, 1, 0]⟩, .handleData 2 (initialDatagram 1 [1])]
  have hops : ∀ op ∈ ops, op.firstFits := by decide
  have hm : Meets connectionStep ArrivesBelow (Connection.new 0 .server) ops := by decide +kernel
  exact ⟨ops, rfl, hm, (numbers_below_iff 0 .server ops hops).2.mpr hm⟩

namespace Connection

/-! ## A run that leaves the number space -/

section Climb

variable {p : PacketNumber} {c : Connection} {r n : ℕ}

/-- An Initial packet of the peer, with nothing but padding. -/
def paddedInitial (p : PacketNumber) : Packet := ⟨.initial ⟨fakeCid, fakeCid, [], p, 1⟩, [0]⟩

/-- The datagram of the packet. -/
def paddedDatagram (p : PacketNumber) : Bytes := (paddedInitial p).header.bytes ++ [0]

theorem packetOf_padded (hp : p.Fits) : packetOf (paddedDatagram p) = some (paddedInitial p) := by
  have hv : (paddedInitial p).header.Valid fakeCid.bytes.length supportedVersions :=
    ⟨⟨one_ne_zero, by norm_num [paddedInitial], List.mem_singleton_self 1⟩, Nat.two_pow_pos 62⟩
  have hfits : ∀ q ∈ (paddedInitial p).header.number, q.Fits := fun q hq => by
    cases hq
    exact hp
  unfold packetOf paddedDatagram
  rw [Header.decode_bytes hv, Header.wire_eq hfits]
  rfl

/-- A datagram that holds a packet is the packet. -/
theorem handleData_eq {data : Bytes} {packet : Packet} (h : packetOf data = some packet) (c : Connection)
    (now : Instant) : c.handleData now data = c.handlePacket now packet := by
  unfold packetOf at h
  split at h
  · rename_i header payload hd
    cases h
    unfold handleData
    rw [hd]
    rfl
  · cases h

/-- Padding does nothing. -/
theorem processPacket_padded (c : Connection) (now : Instant) (number : Option ℕ) :
    c.processPacket now number (paddedInitial p) = .ok (.ok (), c) := by
  have hnew : FrameParser.new [0] = .ok ⟨[0], none⟩ := rfl
  have hfirst : (FrameParser.mk [0] none).next = .ok (some (.ok .padding), ⟨[], some .padding⟩) := by decide +kernel
  have hend : (FrameParser.mk [] (some .padding)).next = .ok (none, ⟨[], some .padding⟩) := by decide +kernel
  have hlast : frameLoop (handleEarlyFrame now .initial) 1 ⟨[], some .padding⟩ c = .ok (.ok (), c) := by
    rw [frameLoop, hend]
    rfl
  have hframes : c.processFrames [0] (handleEarlyFrame now .initial) = .ok (.ok (), c) := by
    unfold processFrames
    rw [hnew]
    dsimp only [List.length_singleton]
    rw [frameLoop, hfirst]
    exact hlast
  have hearly : c.processEarlyPayload now (paddedInitial p) = .ok (.ok (), c) := hframes
  have hspace : (paddedInitial p).header.space = .initial := rfl
  unfold processPacket
  rw [hspace]
  dsimp only
  rw [hearly]
  rfl

/-- A client in its handshake has received `r` as the largest number of the Initial space. -/
structure Climbed (r : ℕ) (c : Connection) : Prop where
  side : c.side = .client
  state : c.state = .handshake
  rx : (c.spaces .initial).rxPacket = r
  next : (c.spaces .initial).dedup.next ≤ r + 1
  acks : ∀ n ∈ (c.spaces .initial).pendingAcks.ranges, n ≤ r

/-- The client after the next packet. -/
def climb (c : Connection) (now : Instant) (p : PacketNumber) (n : ℕ) : Connection :=
  ((c.screened (paddedInitial p).header).recorded now .initial n).modifySpace .initial fun s =>
    { s with pendingAcks := s.pendingAcks.setImmediateAckRequired }

theorem Climbed.arrival (hc : Climbed r c) (hn : p.expand (r + 1) = n) :
    c.arrival (paddedInitial p).header = some n := by
  show some (p.expand ((c.spaces .initial).rxPacket + 1)) = _
  rw [hc.rx, hn]

theorem Climbed.handleData (hc : Climbed r c) (hp : p.Fits) (hn : p.expand (r + 1) = n) (hlt : r < n)
    (now : Instant) : c.handleData now (paddedDatagram p) = .ok (c.climb now p n) := by
  have harrival := hc.arrival hn
  have hnew : (c.screen (paddedInitial p).header).1 = false := by
    unfold screen
    rw [harrival, Bool.eq_false_iff]
    intro h
    have hnext := hc.next
    have hseen : (c.spaces .initial).dedup.Seen n := (Dedup.insert_fst _ n).mp h
    unfold Dedup.Seen at hseen
    omega
  have hacc : c.accepts (paddedInitial p).header = true := by
    unfold accepts
    rw [hnew, hc.state]
    rfl
  have hopen : c.state.isClosed = false := by
    rw [hc.state]
    rfl
  have hauth : c.authenticate now (paddedInitial p).header = .ok (c.climb now p n) := by
    unfold authenticate
    rw [hopen, if_neg Bool.false_ne_true, harrival]
    unfold onPacketAuthenticated
    have hside : (c.screened (paddedInitial p).header).side = .client := hc.side
    rw [hside]
    rfl
  have hstate : (c.climb now p n).state = .handshake := hc.state
  have hafter : afterPacket now false false (.ok (), c.climb now p n) = c.climb now p n := by
    simp [afterPacket, hstate, State.isClosed, State.isDrained]
  rw [handleData_eq (packetOf_padded hp), handlePacket_eq, if_pos hacc, hauth, Checked.ok_bind,
    processPacket_padded, hc.state]
  exact congrArg Except.ok hafter

/-- The Initial space after the next packet. -/
theorem climb_initial (c : Connection) (now : Instant) (p : PacketNumber) (n : ℕ) :
    ((c.climb now p n).spaces .initial).rxPacket =
        (if n ≥ (c.spaces .initial).rxPacket then n else (c.spaces .initial).rxPacket) ∧
      ((c.climb now p n).spaces .initial).dedup = (c.screen (paddedInitial p).header).2 ∧
      ((c.climb now p n).spaces .initial).pendingAcks.ranges =
        ((c.spaces .initial).pendingAcks.packetReceived now n true (c.screen (paddedInitial p).header).2).2.ranges := by
  have hspace : (paddedInitial p).header.space = .initial := rfl
  unfold climb recorded screened
  rw [hspace]
  simp only [modifySpace, Function.update_self]
  exact ⟨trivial, trivial, rfl⟩

theorem Climbed.climb (hc : Climbed r c) (hn : p.expand (r + 1) = n) (hlt : r < n) (now : Instant) :
    Climbed n (c.climb now p n) ∧ n ∈ ((c.climb now p n).spaces .initial).pendingAcks.ranges := by
  obtain ⟨hrx, hdedup, hranges⟩ := c.climb_initial now p n
  have hscreen : c.screen (paddedInitial p).header = (c.spaces .initial).dedup.insert n := by
    unfold screen
    rw [hc.arrival hn]
    rfl
  have hnext := hc.next
  refine ⟨⟨hc.side, hc.state, ?_, ?_, fun m hm => ?_⟩, ?_⟩
  · rw [hrx, hc.rx, if_pos hlt.le]
  · rw [hdedup, hscreen, Dedup.insert_right (by omega)]
  · rw [hranges, packetReceived_ranges] at hm
    rcases PendingAcks.mem_insertOne hm with rfl | hm
    · exact le_rfl
    · exact (hc.acks m hm).trans hlt.le
  · rw [hranges]
    refine PendingAcks.packetReceived_greatest ⟨Set.mem_insert n _, ?_⟩
    rintro m (rfl | hm)
    · exact le_rfl
    · exact (hc.acks m hm).trans hlt.le

/-- Where the client starts. -/
theorem climbed_new (now : Instant) : Climbed 0 (Connection.new now .client) where
  side := rfl
  state := rfl
  rx := rfl
  next := Nat.zero_le _
  acks := fun n hn => absurd hn (ArrayRangeSet.notMem_new n)

/-- The number of a packet of which the last four bytes are sent. -/
theorem expand_u32 {r n : ℕ} (hlt : r < n) (hle : n ≤ r + 1 + 2 ^ 31) (hn : n < 2 ^ 62) :
    (PacketNumber.u32 (n % 2 ^ 32)).Fits ∧ (PacketNumber.u32 (n % 2 ^ 32)).expand (r + 1) = n := by
  refine ⟨Nat.mod_lt n (Nat.two_pow_pos 32), (PacketNumber.expand_of_near rfl hn ?_ hle).1⟩
  have := PacketNumber.hwin_bounds (.u32 (n % 2 ^ 32))
  omega

/-- The datagrams that take the client up by half a window each. -/
def climbing (k : ℕ) : List ConnectionOp :=
  (List.range k).map fun i => .handleData 0 (paddedDatagram (.u32 ((i + 1) * 2 ^ 31 % 2 ^ 32)))

theorem run_climbing {k : ℕ} (hk : k < 2 ^ 31) :
    ∃ c, run connectionStep (Connection.new 0 .client) (climbing k) = .ok c ∧ Climbed (k * 2 ^ 31) c := by
  induction k with
  | zero => exact ⟨_, rfl, climbed_new 0⟩
  | succ k ih =>
      obtain ⟨c, hr, hc⟩ := ih (by omega)
      obtain ⟨hfits, hexp⟩ := expand_u32 (show k * 2 ^ 31 < (k + 1) * 2 ^ 31 by omega) (by omega) (by omega)
      have hlt : k * 2 ^ 31 < (k + 1) * 2 ^ 31 := by omega
      refine ⟨_, ?_, (hc.climb hexp hlt 0).1⟩
      rw [climbing, List.range_succ, List.map_append, run_append]
      rw [climbing] at hr
      rw [hr, Checked.ok_bind, List.map_singleton, run_cons]
      rw [show connectionStep c (.handleData 0 _) = _ from hc.handleData hfits hexp hlt 0]
      rfl

end Climb

end Connection

/-- **A run that leaves the number space.** A client takes `2 ^ 31 - 1` Initial packets, each half a window above the
last, one with the number `2 ^ 62 - 2`, and one whose number is the byte 0: this is expanded to `2 ^ 62`, recorded
as the largest number, and then no ACK can be written. -/
theorem number_space_left : ∃ ops c c',
    ops = climbing (2 ^ 31 - 1) ++ [.handleData 0 (paddedDatagram (.u32 (2 ^ 32 - 2)))] ∧
    run connectionStep (Connection.new 0 .client) ops = .ok c ∧ (c.spaces .initial).rxPacket = 2 ^ 62 - 2 ∧
    (PacketNumber.u8 0).Fits ∧ (PacketNumber.u8 0).expandU64 ((c.spaces .initial).rxPacket + 1) = .ok (2 ^ 62) ∧
    connectionStep c (.handleData 0 (paddedDatagram (.u8 0))) = .ok c' ∧ (c'.spaces .initial).rxPacket = 2 ^ 62 ∧
    populateAcks 0 (c'.spaces .initial) (BufMut.withCapacity initialMtu) = .error .explicit := by
  obtain ⟨c₁, hr, hc₁⟩ := run_climbing (show 2 ^ 31 - 1 < 2 ^ 31 by norm_num)
  have hlt : (2 ^ 31 - 1) * 2 ^ 31 < 2 ^ 62 - 2 := by norm_num
  obtain ⟨hfits, hexp⟩ := expand_u32 hlt (by norm_num) (by norm_num)
  rw [show (2 ^ 62 - 2) % 2 ^ 32 = 2 ^ 32 - 2 by norm_num] at hfits hexp
  obtain ⟨hc, -⟩ := hc₁.climb hexp hlt 0
  have hfits' : (PacketNumber.u8 0).Fits := Nat.two_pow_pos 8
  have hexp' : (PacketNumber.u8 0).expand (2 ^ 62 - 2 + 1) = 2 ^ 62 := by decide +kernel
  have hlt' : 2 ^ 62 - 2 < 2 ^ 62 := by norm_num
  obtain ⟨hc', hmem⟩ := hc.climb hexp' hlt' 0
  refine ⟨_, _, _, rfl, ?_, hc.rx, hfits', ?_, hc.handleData hfits' hexp' hlt' 0, hc'.rx, ?_⟩
  · rw [run_append, hr, Checked.ok_bind, run_cons]
    rw [show connectionStep c₁ (.handleData 0 _) = _ from hc₁.handleData hfits hexp hlt 0]
    rfl
  · rw [hc.rx]
    decide +kernel
  · exact populateAcks_above hmem le_rfl 0 (by decide)

end MzQuic
