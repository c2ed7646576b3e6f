import MzQuic.Connection.Inner
import MzQuic.Connection.Truthful

/-!
# Owed ACKs are scheduled

The data space delays its ACKs with the `MaxAckDelay` timer. The timer is stopped when ACKs of any space
are sent.

* `AckScheduled`: an ACK that the data space owes is wanted at once, or the timer is armed;
* `onPacketAuthenticated_scheduled`, `processPacket_scheduled`, `pollTimers_scheduled`: what is received,
  and timers that fire, keep this;
* `pollTransmit_scheduled`: a poll keeps it if no ACK of another space is sent without one of the data
  space that the timer stands for;
* **`owed_ack_scheduled`**: it holds along every run in which every poll is such.
-/

namespace MzQuic

open Lib

namespace Connection

/-- An ACK that the data space owes is wanted at once, or the timer will ask for it. -/
def AckScheduled (c : Connection) : Prop :=
  0 < (c.spaces .data).pendingAcks.ackElicitingSinceLastAckSent →
    (c.spaces .data).pendingAcks.immediateAckRequired = true ∨ (c.timers.data .maxAckDelay).isSome = true

/-- An open connection has scheduled the ACK it owes. -/
def OpenScheduled (c : Connection) : Prop := c.state.isClosed = false → c.AckScheduled

section Input

variable {c c' : Connection} {now : Instant} {id : SpaceId}

theorem AckScheduled.congr (h : c.AckScheduled)
    (h1 : (c'.spaces .data).pendingAcks = (c.spaces .data).pendingAcks)
    (h2 : c'.timers.data .maxAckDelay = c.timers.data .maxAckDelay) : c'.AckScheduled := by
  unfold AckScheduled
  rw [h1, h2]
  exact h

theorem AckScheduled.kept (h : c.AckScheduled) (hs : SpaceInner (c.spaces .data) (c'.spaces .data))
    (ht : c'.timers.data .maxAckDelay = c.timers.data .maxAckDelay) : c'.AckScheduled := by
  unfold AckScheduled
  rw [hs.counter, hs.immediate, ht]
  exact h

theorem AckScheduled.inner (h : c.AckScheduled) {b : Bool} (hi : Inner b c c') : c'.AckScheduled :=
  h.kept (hi.spaces .data) (hi.timers _ (.inl (by decide)))

/-- A change of another space. -/
theorem AckScheduled.elsewhere (h : c.AckScheduled) (hid : id ≠ .data) (f : PacketSpace → PacketSpace) :
    (c.modifySpace id f).AckScheduled :=
  h.congr (by simp only [modifySpace, Function.update_of_ne (Ne.symm hid)]) rfl

theorem OpenScheduled.inner (h : c.OpenScheduled) {b : Bool} (hi : Inner b c c') : c'.OpenScheduled := by
  intro hopen
  rw [hi.state] at hopen
  exact (h hopen).inner hi

/-- A received packet is acknowledged at once, or after a delay. -/
theorem packetReceived_scheduled (a : PendingAcks) (now : Instant) (n : ℕ) (dedup : Dedup) :
    (a.packetReceived now n true dedup).2.immediateAckRequired = true ∨
      (a.packetReceived now n true dedup).1 = true := by
  unfold PendingAcks.packetReceived
  dsimp only
  split_ifs
  · exact .inl rfl
  · dsimp only
    cases (a.record now n true).immediateAckRequired with
    | true => exact .inl rfl
    | false => exact .inr rfl

theorem onPacketAuthenticated_scheduled {number : Option ℕ} (hc : c.AckScheduled)
    (h : c.onPacketAuthenticated now id number = .ok c') : c'.AckScheduled := by
  rcases onPacketAuthenticated_cases h with ⟨-, rfl⟩ | ⟨n, c₁, -, hc₁, hr⟩
  · exact hc
  · have hs : c₁.AckScheduled := by
      rcases hc₁ with rfl | hd
      · exact hc
      · exact hc.inner (discardSpace_inner hd)
    rcases hr with ⟨-, rfl⟩ | ⟨rfl, harm, rfl⟩ | ⟨hid, rfl⟩
    · exact fun _ => .inr rfl
    · have hrec := packetReceived_scheduled (c₁.spaces .data).pendingAcks now n (c₁.spaces .data).dedup
      rw [harm] at hrec
      intro _
      left
      simp only [recorded, modifySpace, Function.update_self]
      exact hrec.resolve_right Bool.false_ne_true
    · exact (hs.elsewhere hid _).elsewhere hid _

theorem FrameMove.scheduled {r : Except TransportError Bool} (h : FrameMove c r c') (hc : c.OpenScheduled) :
    c'.OpenScheduled := by
  cases h with
  | acked h => exact hc.inner (onAckReceived_inner h)
  | crypto id =>
      obtain ⟨-, htimers, hspaces⟩ := c.onCrypto_kept id
      intro hopen
      refine (hc ?_).kept (hspaces .data) (by rw [htimers])
      rcases c.onCrypto_state id with ⟨hs, -⟩ | ⟨hs, -, -⟩
      · rwa [← hs]
      · rw [hs]
        rfl
  | immediate id =>
      intro hopen
      by_cases hid : id = .data
      · subst hid
        refine fun _ => .inl ?_
        simp only [modifySpace, Function.update_self]
        rfl
      · exact (hc hopen).elsewhere hid _
  | killed reason => exact fun hopen => by cases hopen
  | _ => exact hc

theorem handleData_scheduled {data : Bytes} (hc : c.OpenScheduled) (h : c.handleData now data = .ok c') :
    c'.OpenScheduled := by
  have hscreen : ∀ header, c.AckScheduled → (c.screened header).AckScheduled := fun header hs =>
    hs.congr (forall_modifySpace (P := fun i x => x.pendingAcks = (c.spaces i).pendingAcks) c header.space _
      rfl (fun _ _ => rfl) .data) rfl
  rcases handleData_cases h with ⟨-, rfl⟩ | ⟨packet, -, ⟨-, rfl⟩ | ⟨-, c₁, res, h1, h2, rfl⟩⟩
  · exact hc
  · exact fun hopen => hscreen _ (hc hopen)
  · have hc₁ : c₁.OpenScheduled := by
      rcases authenticate_cases h1 with ⟨-, rfl⟩ | ⟨hopen, h1⟩
      · exact fun hopen => hscreen _ (hc hopen)
      · exact fun _ => onPacketAuthenticated_scheduled (hscreen _ (hc hopen)) h1
    have hres : res.2.OpenScheduled := processPacket_inv (fun _ _ _ hm => hm.scheduled) h2 hc₁
    intro hopen
    have hsame := afterPacket_open hopen
    rw [hsame] at hopen ⊢
    exact hres hopen

/-- A timer that fires asks for the ACK it stands for. -/
theorem pollTimers_scheduled (hc : c.OpenScheduled) (h : c.pollTimers now = .ok c') : c'.OpenScheduled := by
  rcases pollTimers_fired h with rfl | ⟨timer, hf⟩
  · exact hc
  · have hstop : timer ≠ .maxAckDelay → { c with timers := c.timers.stop timer }.OpenScheduled :=
      fun hne hopen => (hc hopen).congr rfl (c.timers.data_stop_of_ne (Ne.symm hne))
    cases hf with
    | lossDetection h => exact (hstop (by decide)).inner (onLossDetectionTimeout_inner h)
    | close => exact fun hopen => by cases hopen
    | maxAckDelay =>
        refine fun _ hcount => .inl ?_
        simp only [modifySpace, Function.update_self, PendingAcks.onAckDelayTimeout] at hcount ⊢
        exact decide_eq_true hcount
    | other _ _ h3 => exact hstop h3

end Input

/-! ## Polls -/

section Poll

variable {c c' : Connection} {now : Instant} {id : SpaceId}

/-- The round of a poll that comes to the space `id` sends ACKs. -/
def sendsAcks (blocked : Bool) (c : Connection) (id : SpaceId) : Bool :=
  c.composes false blocked id && !(c.spaces id).pendingAcks.ranges.isEmpty

/-- A poll sends the ACK of the data space that waits for the timer, if it sends ACKs of other spaces. -/
def keepsTimer (c : Connection) : Bool :=
  let blocked := c.path.inFlight.bytes ≥ c.path.congestion.window
  let waits := (c.spaces .data).pendingAcks.ackElicitingSinceLastAckSent > 0 &&
    !(c.spaces .data).pendingAcks.immediateAckRequired
  !(waits && (c.sendsAcks blocked .initial || c.sendsAcks blocked .handshake)) || c.sendsAcks blocked .data

theorem populatePacket_acks {sent : SentFrames} {buf buf' : BufMut}
    (h : c.populatePacket now id buf = .ok (sent, c', buf')) :
    sent.largestAcked.isSome = !(c.spaces id).pendingAcks.ranges.isEmpty ∧
      (c'.spaces id).pendingAcks = (c.spaces id).pendingAcks := by
  obtain ⟨⟨sent₁, space, buf₁⟩, h1, h⟩ := Checked.bind_eq_ok.mp h
  have hk := (populateControl_ok h1).2
  obtain ⟨⟨largest, buf₂⟩, h2, h1⟩ := Checked.bind_eq_ok.mp h1
  obtain ⟨⟨sent₂, space₂, buf₃⟩, h3, h1⟩ := Checked.bind_eq_ok.mp h1
  have hlargest : largest.isSome = !(c.spaces id).pendingAcks.ranges.isEmpty := by
    rcases populateAnyAcks_wrote h2 with ⟨he, rfl, -⟩ | ⟨ack, rfl, -⟩
    · rw [he]
      rfl
    · unfold populateAnyAcks at h2
      split_ifs at h2 with hr
      · exact hr.symm
      · cases h2
  have hsent : sent₁.largestAcked = largest := by
    have hl := (populateHello_controls h3).2.1
    dsimp only at h1
    split_ifs at h1
    · obtain ⟨⟨b, pending, retransmits⟩, -, h1⟩ := Checked.bind_eq_ok.mp h1
      cases h1
      exact hl
    · cases h1
      exact hl
  have hspace : ((c.modifySpace id fun _ => space).spaces id).pendingAcks = (c.spaces id).pendingAcks := by
    simp only [modifySpace, Function.update_self]
    exact hk.acks
  dsimp only at h
  split_ifs at h
  · obtain ⟨⟨frames, s, buf₄⟩, -, h⟩ := Checked.bind_eq_ok.mp h
    cases h
    exact ⟨by rw [← hlargest, ← hsent], hspace⟩
  · cases h
    exact ⟨by rw [← hlargest, ← hsent], hspace⟩

/-- A packet with ACKs settles what its space owes, and stops the timer. -/
theorem composePacket_acks {ackEliciting : Bool} (h : composePacket now false c id ackEliciting = .ok c') :
    ((c.spaces id).pendingAcks.ranges.isEmpty = false ∧
      (c'.spaces id).pendingAcks = (c.spaces id).pendingAcks.acksSent) ∨
    ((c.spaces id).pendingAcks.ranges.isEmpty = true ∧
      (c'.spaces id).pendingAcks = (c.spaces id).pendingAcks ∧ c'.timers = c.timers) := by
  obtain ⟨n, buf, sent, c₂, buf₂, -, ⟨hclose, -⟩ | ⟨-, h2⟩, rfl⟩ := composePacket_cases h
  · cases hclose
  obtain ⟨hl, hacks⟩ := populatePacket_acks h2
  have htimers := populatePacket_timers h2
  simp only [numbered, modifySpace, Function.update_self] at hl hacks
  cases he : (c.spaces id).pendingAcks.ranges.isEmpty with
  | false =>
      refine .inl ⟨rfl, ?_⟩
      rw [he, Bool.not_false] at hl
      show ((c₂.noteAcks id sent).spaces id).pendingAcks = _
      unfold noteAcks
      rw [if_pos hl]
      simp only [modifySpace, Function.update_self]
      rw [hacks]
  | true =>
      refine .inr ⟨rfl, ?_⟩
      rw [he, Bool.not_true] at hl
      have hnote : c₂.noteAcks id sent = c₂ := by
        unfold noteAcks
        rw [if_neg (by rw [hl]; exact Bool.false_ne_true)]
      rw [hnote]
      exact ⟨hacks, htimers⟩

/-- **What a round does to the ACKs of its space.** -/
theorem transmitSpace_acks {blocked : Bool} {s s' : Connection × Bool}
    (h : transmitSpace now false blocked s id = .ok s') :
    (s.1.sendsAcks blocked id = true ∧
      (s'.1.spaces id).pendingAcks = (s.1.spaces id).pendingAcks.acksSent) ∨
    (s.1.sendsAcks blocked id = false ∧ (s'.1.spaces id).pendingAcks = (s.1.spaces id).pendingAcks ∧
      s'.1.timers.data .maxAckDelay = s.1.timers.data .maxAckDelay) := by
  obtain ⟨c₁, hc₁, h⟩ := transmitSpace_cases h
  -- the space that may have been discarded is another one
  have hsame : c₁.spaces id = { s.1.spaces id with
        lossTime := (c₁.spaces id).lossTime
        inFlight := (c₁.spaces id).inFlight
        sentPackets := (c₁.spaces id).sentPackets } ∧
      c₁.timers.data .maxAckDelay = s.1.timers.data .maxAckDelay := by
    rcases hc₁ with rfl | ⟨rfl, hd⟩
    · exact ⟨rfl, rfl⟩
    · refine ⟨?_, (discardSpace_inner hd).timers _ (.inl (by decide))⟩
      obtain ⟨timers, e⟩ := discardSpace_eq hd
      rw [e]
      simp only [modifySpace, Function.update_of_ne (show SpaceId.handshake ≠ .initial by decide)]
  obtain ⟨hspace, htimer⟩ := hsame
  have hacks : (c₁.spaces id).pendingAcks = (s.1.spaces id).pendingAcks := by rw [hspace]
  unfold sendsAcks
  rcases h with ⟨hcomp, h⟩ | ⟨hcomp, h⟩
  · rw [hcomp, h]
    exact .inr ⟨rfl, hacks, htimer⟩
  · rw [hcomp, ← hacks, Bool.true_and]
    rcases composePacket_acks h with ⟨he, ha⟩ | ⟨he, ha, ht⟩
    · rw [he]
      exact .inl ⟨rfl, ha⟩
    · rw [he, ht]
      exact .inr ⟨rfl, ha, htimer⟩

theorem transmitSpace_acks_timer {blocked : Bool} {s s' : Connection × Bool}
    (h : transmitSpace now false blocked s id = .ok s') (hnot : s.1.sendsAcks blocked id = false) :
    s'.1.timers.data .maxAckDelay = s.1.timers.data .maxAckDelay := by
  rcases transmitSpace_acks h with ⟨hs, -⟩ | ⟨-, -, ht⟩
  · exact absurd (hnot.symm.trans hs) Bool.false_ne_true
  · exact ht

theorem Same.sendsAcks {d : Connection} {blocked : Bool} (h : Same id c d) :
    d.sendsAcks blocked id = c.sendsAcks blocked id := by
  unfold Connection.sendsAcks
  rw [h.composes, h.space]

/-- **A poll keeps the ACK scheduled** that the data space owes. -/
theorem pollTransmit_scheduled {more : Bool} (hc : c.OpenScheduled) (hk : c.keepsTimer = true)
    (h : c.pollTransmit now = .ok (more, c')) : c'.OpenScheduled := by
  intro hopen
  rw [(pollTransmit_outer h).state] at hopen
  have hs := hc hopen
  rcases pollTransmit_cases h with rfl | ⟨close, s₃, hp, hrun, hc'⟩
  · exact hs
  have hclose : close = false := by
    unfold polls at hp
    cases hstate : c.state <;> rw [hstate] at hp hopen <;> cases hopen <;> cases hp <;> rfl
  subst hclose
  obtain ⟨s₁, h1, hrun⟩ := Checked.bind_eq_ok.mp hrun
  obtain ⟨s₂, h2, hrun⟩ := Checked.bind_eq_ok.mp hrun
  obtain ⟨s, h3, hrun⟩ := Checked.bind_eq_ok.mp hrun
  cases hrun
  have hs₁ : ∀ i, i ≠ .initial → Same i c s₁.1 := fun i hi => transmitSpace_same hi hi (by decide) h1
  have hs₂ : Same .data c s₂.1 :=
    (hs₁ .data (by decide)).trans (transmitSpace_same (by decide) (by decide) (by decide) h2)
  rw [hc']
  rcases transmitSpace_acks h3 with ⟨-, hsent⟩ | ⟨hnot, hacks, htimer⟩
  · -- nothing is owed any more
    intro howed
    rw [show ((_ : Connection).spaces .data).pendingAcks = _ from hsent] at howed
    exact absurd howed (Nat.lt_irrefl 0)
  · rw [hs₂.space] at hacks
    rw [hs₂.sendsAcks] at hnot
    intro howed
    rw [show ((_ : Connection).spaces .data).pendingAcks = _ from hacks] at howed ⊢
    cases him : (c.spaces .data).pendingAcks.immediateAckRequired with
    | true => exact .inl rfl
    | false =>
        -- no other space has stopped the timer
        unfold keepsTimer at hk
        dsimp only at hk
        rw [hnot, him, decide_eq_true howed] at hk
        simp only [Bool.not_false, Bool.and_self, Bool.true_and, Bool.or_false, Bool.not_eq_true',
          Bool.or_eq_false_iff] at hk
        have e1 : s₁.1.timers.data .maxAckDelay = c.timers.data .maxAckDelay :=
          transmitSpace_acks_timer h1 hk.1
        have e2 : s₂.1.timers.data .maxAckDelay = s₁.1.timers.data .maxAckDelay :=
          transmitSpace_acks_timer h2 ((hs₁ .handshake (by decide)).sendsAcks.trans hk.2)
        rw [htimer, e2, e1]
        exact (hs howed).imp_left fun hi => absurd (him.symm.trans hi) Bool.false_ne_true

end Poll

end Connection

open Connection

/-! ## Runs -/

/-- A poll of an open connection sends the ACK of the data space that waits for the timer, if it sends
ACKs of other spaces. -/
def ConnectionOp.KeepsTimer (c : Connection) : ConnectionOp → Prop
  | .pollTransmit _ => c.state.isClosed = false → c.keepsTimer = true
  | _ => True

theorem connectionStep_scheduled {c c' : Connection} {op : ConnectionOp} (hc : c.OpenScheduled)
    (hop : op.inTask = true) (hk : op.KeepsTimer c) (h : connectionStep c op = .ok c') :
    c'.OpenScheduled := by
  cases op with
  | pollTransmit now =>
      obtain ⟨⟨more, c₁⟩, h1, h⟩ := Checked.bind_eq_ok.mp h
      cases h
      intro hopen
      have hopen' := hopen
      rw [(pollTransmit_outer h1).state] at hopen'
      exact pollTransmit_scheduled hc (hk hopen') h1 hopen
  | sendOne t =>
      cases h
      exact hc.inner (sendOne_inner c t)
  | pollTimers now => exact pollTimers_scheduled hc h
  | handleData now data => exact handleData_scheduled hc h
  | handleFirstPacket now packet => cases hop
  | close now errorCode reason =>
      cases h
      unfold close
      split_ifs with hclosed
      · exact hc
      · exact fun hopen => by cases hopen
  | _ => exact hc.inner (connectionStep_call_inner rfl h)

theorem Connection.Starts.scheduled {c : Connection} {first : Option ℕ} (hc : Starts c first) :
    c.OpenScheduled := by
  cases hc with
  | client now => exact fun _ h => absurd h (Nat.lt_irrefl 0)
  | server now h =>
      obtain ⟨c₁, h1, h⟩ := Checked.bind_eq_ok.mp h
      have hnew : (Connection.new now .server).AckScheduled := fun h => absurd h (Nat.lt_irrefl 0)
      exact processPacket_inv (fun _ _ _ hm => hm.scheduled) h fun _ => onPacketAuthenticated_scheduled hnew h1

instance ConnectionOp.KeepsTimer.decidable (c : Connection) : ∀ op, Decidable (ConnectionOp.KeepsTimer c op)
  | .pollTransmit _ => inferInstanceAs (Decidable (c.state.isClosed = false → c.keepsTimer = true))
  | .sendOne _ | .pollTimers _ | .handleData .. | .handleFirstPacket .. | .close .. | .openStream _ | .write ..
  | .finish _ | .reset .. | .setPriority .. | .read .. | .stop .. | .takeReset _ => .isTrue trivial

/-- **An owed ACK is always scheduled**, in every run in which every poll of the open connection that sends
ACKs of the Initial or Handshake space also sends the ACK of the data space that waits for the timer,
because each of them stops the timer. -/
theorem owed_ack_scheduled (c : Connection) (first : Option ℕ) (hc : Starts c first)
    (ops : List ConnectionOp) (hops : ∀ op ∈ ops, op.inTask = true)
    (hm : Meets connectionStep (fun c op => op.KeepsTimer c) c ops) (c' : Connection)
    (h : run connectionStep c ops = .ok c') (hopen : c'.state.isClosed = false) : c'.AckScheduled :=
  run_inv (I := OpenScheduled) (fun _ _ _ hx hok hs => connectionStep_scheduled hx hok.1 hok.2 hs) hc.scheduled
    (Meets.and (Meets.of_forall hops) hm) h hopen

/-- The client has acknowledged the hello of the server before a packet with a PING comes. -/
theorem owed_ack_scheduled_ping : ∃ ops c, run connectionStep (Connection.new 0 .client) ops = .ok c ∧
    c.state.isClosed = false ∧ (c.spaces .data).pendingAcks.ackElicitingSinceLastAckSent = 1 ∧
    c.AckScheduled := by
  let ops : List ConnectionOp := [.pollTransmit 1, .sendOne 1, .handleData 2 (initialDatagram 0 [6, 0, 1, 0]),
    .pollTransmit 3, .handleData 4 (shortDatagram 0 [1]), .pollTransmit 5]
  obtain ⟨c, hc, hv⟩ := Checked.map_eq_ok.mp (show (fun c : Connection =>
      (c.state.isClosed, (c.spaces .data).pendingAcks.ackElicitingSinceLastAckSent,
        decide (Meets connectionStep (fun c op => ConnectionOp.KeepsTimer c op) (Connection.new 0 .client) ops))) <$>
      run connectionStep (Connection.new 0 .client) ops = .ok (false, 1, true) by decide +kernel)
  obtain ⟨hopen, hv⟩ := Prod.mk.inj hv
  obtain ⟨hcount, hmeets⟩ := Prod.mk.inj hv
  exact ⟨ops, c, hc, hopen, hcount, owed_ack_scheduled _ none (.client 0) ops (by decide)
    (of_decide_eq_true hmeets) c hc hopen⟩

/-- A packet with a PING comes before the client has acknowledged the hello of the server; when it does,
the timer is stopped, and nothing is left to ask for the other ACK. -/
theorem owed_ack_forgotten : ∃ ops c, (∀ op ∈ ops, ConnectionOp.inTask op = true) ∧
    run connectionStep (Connection.new 0 .client) ops = .ok c ∧ c.state.isClosed = false ∧ ¬ c.AckScheduled := by
  let ops : List ConnectionOp := [.pollTransmit 1, .sendOne 1, .handleData 2 (initialDatagram 0 [6, 0, 1, 0]),
    .handleData 3 (shortDatagram 0 [1]), .pollTransmit 4]
  obtain ⟨c, hc, hv⟩ := Checked.map_eq_ok.mp (show (fun c : Connection =>
      (c.state.isClosed, (c.spaces .data).pendingAcks.ackElicitingSinceLastAckSent,
        (c.spaces .data).pendingAcks.immediateAckRequired, (c.timers.data .maxAckDelay).isSome)) <$>
      run connectionStep (Connection.new 0 .client) ops = .ok (false, 1, false, false) by decide +kernel)
  obtain ⟨hopen, hv⟩ := Prod.mk.inj hv
  obtain ⟨hcount, hv⟩ := Prod.mk.inj hv
  obtain ⟨him, htimer⟩ := Prod.mk.inj hv
  refine ⟨ops, c, by decide, hc, hopen, fun hs => ?_⟩
  rcases hs (by rw [hcount]; exact Nat.one_pos) with h | h
  · exact Bool.false_ne_true (him.symm.trans h)
  · exact Bool.false_ne_true (htimer.symm.trans h)

end MzQuic
