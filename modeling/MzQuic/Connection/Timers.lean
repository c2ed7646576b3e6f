import MzQuic.Connection.Accounting
import MzQuic.Connection.Inner
import MzQuic.Connection.Window

/-!
# The timers over the life of a connection

* `OpenArmed`: an open connection with packets in flight has its loss detection timer armed;
* `setLossDetectionTimer_armed`: the timer is set for what is in flight, which `Accounted` counts;
* `ClosingTimers`: a connection that is closing has armed the close timer and no other one;
* **`timers_right`**: both hold in every state that the task of a connection reaches, and a
  connection that is closing is drained when its close timer fires.
-/

namespace MzQuic

open Lib

namespace Connection

/-! ## Loss detection -/

/-- A packet in flight is watched by the timer, while the connection is open. -/
def OpenArmed (c : Connection) : Prop :=
  c.state.isClosed = false → ∀ id, 0 < (c.spaces id).inFlight → (c.timers.data .lossDetection).isSome = true

section Loss

variable {c c' : Connection} {now : Instant} {id : SpaceId}

/-- Less is in flight, and the timer is the same. -/
theorem OpenArmed.shrink (h : c.OpenArmed) (hs : c'.state.isClosed = false → c.state.isClosed = false)
    (hin : ∀ id, (c'.spaces id).inFlight ≤ (c.spaces id).inFlight)
    (ht : c'.timers.data .lossDetection = c.timers.data .lossDetection) : c'.OpenArmed := by
  intro hopen id hid
  rw [ht]
  exact h (hs hopen) id (lt_of_lt_of_le hid (hin id))

/-- One space changes in something else. -/
theorem OpenArmed.modifySpace (h : c.OpenArmed) (id : SpaceId) (f : PacketSpace → PacketSpace)
    (hf : (f (c.spaces id)).inFlight = (c.spaces id).inFlight) : (c.modifySpace id f).OpenArmed :=
  h.shrink (fun ho => ho) (forall_modifySpace (P := fun i x => x.inFlight ≤ (c.spaces i).inFlight) c id f hf.le
    fun _ _ => Nat.le_refl _) rfl

/-- A space with something in flight has sent packets. -/
theorem earliestSent_isSome (hacc : Accounted c.core) (hid : 0 < (c.spaces id).inFlight) :
    c.earliestSent.isSome = true := by
  have hne : (c.spaces id).sentPackets.entries ≠ [] := by
    intro he
    have hsum : (c.spaces id).inFlight = sumOf SentPacket.size (c.spaces id).sentPackets.entries := hacc.space id
    rw [he] at hsum
    exact hid.ne' hsum
  obtain ⟨p, rest, he⟩ := List.exists_cons_of_ne_nil hne
  refine List.isSome_min?_of_mem (a := p.2.timeSent) (List.mem_filterMap.mpr ⟨id, SpaceId.mem_variants id, ?_⟩)
  rw [he]
  rfl

/-- **The timer is set for what is in flight.** -/
theorem setLossDetectionTimer_armed (hacc : Accounted c.core) : c.setLossDetectionTimer.OpenArmed := by
  intro hopen id hid
  have hopen' : c.state.isClosed = false := by rwa [(setLossDetectionTimer_inner c).state] at hopen
  have hid' : 0 < (c.spaces id).inFlight := by
    obtain ⟨timers, e⟩ := c.setLossDetectionTimer_eq
    rwa [e] at hid
  have hany : (SpaceId.variants.any fun id => decide ((c.spaces id).inFlight > 0)) = true :=
    List.any_eq_true.mpr ⟨id, SpaceId.mem_variants id, decide_eq_true hid'⟩
  obtain ⟨sent, hsent⟩ := Option.isSome_iff_exists.mp (earliestSent_isSome hacc hid')
  unfold setLossDetectionTimer
  rw [if_neg (by rw [hopen']; exact Bool.false_ne_true)]
  split
  · simp [TimerTable.set]
  · dsimp only
    rw [hany, hsent]
    simp [TimerTable.set]

/-- The timer has just been set. -/
theorem armed_of_set {c₁ : Connection} (hc : c' = c₁.setLossDetectionTimer) (hacc : Accounted c'.core) :
    c'.OpenArmed := by
  rw [hc, (quiet_setLossDetectionTimer c₁).1] at hacc
  rw [hc]
  exact setLossDetectionTimer_armed hacc

theorem accounted_of_moves (hacc : Accounted c.core) (h : Moves c c') : Accounted c'.core :=
  Moves.inv (I := fun c => Accounted c.core) (fun _ _ hm => hm.accounted) h hacc

theorem discardSpace_armed (hacc : Accounted c.core) (h : c.discardSpace id = .ok c') : c'.OpenArmed := by
  have hacc' := accounted_of_moves hacc (.single (.discarded id h))
  obtain ⟨u, -, h⟩ := Checked.bind_eq_ok.mp h
  obtain ⟨path, -, h⟩ := Checked.bind_eq_ok.mp h
  cases h
  exact armed_of_set rfl hacc'

theorem onLossDetectionTimeout_armed (hacc : Accounted c.core) (h : c.onLossDetectionTimeout now = .ok c') :
    c'.OpenArmed := by
  have hacc' := accounted_of_moves hacc (onLossDetectionTimeout_moves h)
  obtain ⟨c₁, -, h⟩ := Checked.bind_eq_ok.mp h
  cases h
  exact armed_of_set rfl hacc'

/-- Less is in flight after a packet is acknowledged. -/
theorem ackOne_armed {l l' : AckLoop} {pn : ℕ} (hl : l.c.OpenArmed) (h : ackOne id l pn = .ok l') :
    l'.c.OpenArmed := by
  have htimers : l'.c.timers = l.c.timers := by
    obtain ⟨-, rfl⟩ | ⟨p, s, removed, path, -, -, -, -, -, hc⟩ := ackOne_cases h
    · rfl
    · rw [hc]
      rfl
  refine hl.shrink (fun ho => by rwa [(ackOne_inner h).state] at ho) (fun i => ?_) (by rw [htimers])
  rcases ackOne_ok h with ⟨rfl, -⟩ | ⟨packet, s, hr, -, -⟩
  · exact Nat.le_refl _
  · have hflight := congrFun (congrArg Core.spaceInFlight hr.core) i
    rw [show (l'.c.spaces i).inFlight = _ from hflight]
    dsimp only
    by_cases hi : i = id
    · subst hi
      rw [Function.update_self]
      exact Nat.sub_le _ _
    · rw [Function.update_of_ne hi]
      exact Nat.le_refl _

theorem onAckReceived_armed {ack : Ack} {r : Except TransportError Unit} (hacc : Accounted c.core)
    (hc : c.OpenArmed) (h : c.onAckReceived now id ack = .ok (r, c')) : c'.OpenArmed := by
  have hacc' := accounted_of_moves hacc (onAckReceived_moves h)
  rcases onAckReceived_cases h with ⟨-, -, rfl⟩ | ⟨-, -, ranges, l, -, hl, hnews⟩
  · exact hc
  · rcases hnews with rfl | hnews
    · exact run_inv (I := fun l : AckLoop => l.c.OpenArmed) (fun _ _ _ hx _ hs => ackOne_armed hx hs) hc
        (Meets.trivial _ _ _) hl
    · obtain ⟨c₂, -, hnews⟩ := Checked.bind_eq_ok.mp hnews
      cases hnews
      exact armed_of_set rfl hacc'

theorem onPacketAuthenticated_armed {number : Option ℕ} (hacc : Accounted c.core) (hc : c.OpenArmed)
    (h : c.onPacketAuthenticated now id number = .ok c') : c'.OpenArmed :=
  onPacketAuthenticated_inv (I := OpenArmed) (fun _ hd => discardSpace_armed hacc hd)
    (fun _ _ hx _ => hx.modifySpace id _ rfl)
    (fun _ hx => hx.shrink (fun ho => ho) (fun _ => Nat.le_refl _) (TimerTable.data_set_of_ne _ (by decide) _))
    (fun _ hx => hx.modifySpace id _ rfl) h hc

/-- What is known of a connection while the frames of a packet are processed. -/
theorem FrameMove.armed {r : Except TransportError Bool} (h : FrameMove c r c')
    (hc : Accounted c.core ∧ c.OpenArmed) : Accounted c'.core ∧ c'.OpenArmed := by
  obtain ⟨hacc, hc⟩ := hc
  cases h with
  | acked h _ => exact ⟨accounted_of_moves hacc (onAckReceived_moves h), onAckReceived_armed hacc hc h⟩
  | crypto id =>
      obtain ⟨-, htimers, -⟩ := c.onCrypto_kept id
      have hcore := (quiet_onCrypto c id).1
      refine ⟨by rwa [hcore], hc.shrink (fun ho => ?_) (fun i => ?_) (by rw [htimers])⟩
      · rcases c.onCrypto_state id with ⟨hs, -⟩ | ⟨hs, -, -⟩
        · rwa [← hs]
        · rw [hs]
          rfl
      · exact (congrFun (congrArg Core.spaceInFlight hcore) i).le
  | immediate id =>
      refine ⟨?_, hc.modifySpace id _ rfl⟩
      rwa [(quiet_modifySpace c id _ rfl rfl rfl rfl).1]
  | streams s _ => exact ⟨hacc.congr rfl, hc⟩
  | killed reason => exact ⟨hacc.congr rfl, fun ho => by cases ho⟩
  | _ => exact ⟨hacc, hc⟩

theorem composePacket_armed {close ackEliciting : Bool} (hc : c.OpenArmed)
    (h : composePacket now close c id ackEliciting = .ok c') : c'.OpenArmed := by
  obtain ⟨p, -, -, -, -, hcore, -⟩ := composePacket_ok h
  refine hc.shrink (fun ho => by rwa [(composePacket_outer h).state] at ho) (fun i => ?_) ?_
  · exact (congrFun (congrArg Core.spaceInFlight hcore) i).le
  · rcases composePacket_timers h with e | e
    · rw [e]
    · rw [e, TimerTable.data_stop_of_ne _ (by decide)]

theorem transmitSpace_armed {close blocked : Bool} {s s' : Connection × Bool}
    (hs : Accounted s.1.core ∧ s.1.OpenArmed) (h : transmitSpace now close blocked s id = .ok s') :
    Accounted s'.1.core ∧ s'.1.OpenArmed :=
  ⟨accounted_of_moves hs.1 (transmitSpace_moves h),
    transmitSpace_inv (I := OpenArmed) (fun _ hd => discardSpace_armed hs.1 hd) (fun _ _ hx => hx)
      (fun _ _ _ hx hstep => composePacket_armed hx hstep) h hs.2⟩

theorem pollTransmit_armed {more : Bool} (hacc : Accounted c.core) (hc : c.OpenArmed)
    (h : c.pollTransmit now = .ok (more, c')) : c'.OpenArmed :=
  (pollTransmit_inv (I := fun x => Accounted x.core ∧ x.OpenArmed)
    (fun _ _ _ _ _ hx hs => transmitSpace_armed hx hs) (fun _ _ hx => hx) h ⟨hacc, hc⟩).2

/-- Packets that elicit no ACK do not count as in flight. -/
def Sized (c : Connection) : Prop := ∀ p ∈ c.core.queue, p.ackEliciting = false → p.size = 0

theorem Move.sized (h : Move c c') (hc : c.Sized) : c'.Sized := by
  have hqueue : c'.core.queue = c.core.queue → c'.Sized := fun e => by
    unfold Sized
    rwa [e]
  cases h with
  | quiet h => exact hqueue (by rw [h.1])
  | received id n now h _ => exact hqueue (by rw [h])
  | acked id pn h =>
      rcases ackOne_ok h with ⟨rfl, -⟩ | ⟨packet, s, hr, -, -⟩
      · exact hc
      · exact hqueue (by rw [hr.core])
  | lost now id p hp h =>
      obtain ⟨s, hr, -, -⟩ := loseOne_ok hp h
      exact hqueue (by rw [hr.core])
  | discarded id h =>
      obtain ⟨-, hcore, -⟩ := discardSpace_ok h
      exact hqueue (by rw [hcore])
  | composed now close id ackEliciting h =>
      obtain ⟨p, hack, hsize, hpath, -, -, -⟩ := composePacket_size h
      intro q hq hq'
      have hqueue : c'.core.queue = c.core.queue ++ [p.metaInfo] := by
        unfold core
        rw [hpath]
        simp
      rw [hqueue] at hq
      rcases List.mem_append.mp hq with hq | hq
      · exact hc q hq hq'
      · rw [List.mem_singleton.mp hq] at hq' ⊢
        rw [← hack, hq', if_neg Bool.false_ne_true] at hsize
        exact Nat.le_zero.mp hsize
  | sent t =>
      rcases sendOne_ok c t with ⟨-, e⟩ | ⟨p, queue, hq, hcore, -⟩
      · rwa [e]
      · intro q hq' hne
        rw [hcore] at hq'
        exact hc q (by rw [hq]; exact List.mem_cons_of_mem p hq') hne

/-- A packet that elicits an ACK sets the timer. -/
theorem sendOne_timer (c : Connection) (t : Instant) : (∃ c₁ : Connection, c.sendOne t = c₁.setLossDetectionTimer) ∨
    ((c.sendOne t).timers = c.timers ∧ ∀ p ∈ c.core.queue.head?, p.ackEliciting = false) := by
  unfold sendOne NetworkPath.sendOne core
  cases hq : c.path.sendingQueue with
  | nil => exact .inr ⟨rfl, fun p hp => by cases hp⟩
  | cons scheduled queue =>
      dsimp only
      by_cases hack : scheduled.metaInfo.ackEliciting = true
      · rw [if_pos hack]
        exact .inl ⟨_, rfl⟩
      · rw [if_neg hack]
        refine .inr ⟨rfl, fun p hp => ?_⟩
        cases hp
        exact Bool.eq_false_iff.mpr hack

theorem sendOne_armed (hacc : Accounted c.core) (hsized : c.Sized) (hc : c.OpenArmed) (t : Instant) :
    (c.sendOne t).OpenArmed := by
  have hacc' := accounted_of_moves hacc (.single (.sent t))
  rcases sendOne_timer c t with ⟨c₁, e⟩ | ⟨htimers, hhead⟩
  · exact armed_of_set e hacc'
  · refine hc.shrink (fun ho => by rwa [(sendOne_inner c t).state] at ho) (fun i => ?_) (by rw [htimers])
    rcases sendOne_ok c t with ⟨-, e⟩ | ⟨p, queue, hq, hcore, -⟩
    · rw [e]
    · -- the packet adds nothing to what is in flight
      rw [hq] at hhead
      have hsize := hsized p (by rw [hq]; exact List.mem_cons_self) (hhead p rfl)
      have hflight := congrFun (congrArg Core.spaceInFlight hcore) i
      rw [show ((c.sendOne t).spaces i).inFlight = _ from hflight]
      dsimp only
      rw [hsize, Nat.add_zero, Function.update_eq_self]
      exact Nat.le_refl _

theorem pollTimers_armed (hacc : Accounted c.core) (hc : c.OpenArmed) (h : c.pollTimers now = .ok c') :
    c'.OpenArmed := by
  rcases pollTimers_fired h with rfl | ⟨timer, hf⟩
  · exact hc
  · have hstop : timer ≠ .lossDetection → { c with timers := c.timers.stop timer }.OpenArmed := fun hne =>
      hc.shrink (fun ho => ho) (fun _ => Nat.le_refl _) (c.timers.data_stop_of_ne (Ne.symm hne))
    cases hf with
    | lossDetection h =>
        have hacc' : Accounted { c with timers := c.timers.stop .lossDetection }.core := hacc
        exact onLossDetectionTimeout_armed hacc' h
    | close => exact fun ho => by cases ho
    | maxAckDelay => exact (hstop (by decide)).modifySpace .data _ rfl
    | other h1 _ _ => exact hstop h1

theorem handleData_armed {data : Bytes} (hacc : Accounted c.core) (hc : c.OpenArmed)
    (h : c.handleData now data = .ok c') : c'.OpenArmed := by
  have hscreen : ∀ header, Accounted (c.screened header).core ∧ (c.screened header).OpenArmed := fun header =>
    ⟨by rwa [screened, (quiet_modifySpace c header.space _ rfl rfl rfl rfl).1], hc.modifySpace _ _ rfl⟩
  rcases handleData_cases h with ⟨-, rfl⟩ | ⟨packet, -, ⟨-, rfl⟩ | ⟨-, c₁, res, h1, h2, rfl⟩⟩
  · exact hc
  · exact (hscreen _).2
  · obtain ⟨hacc₁, hs⟩ := hscreen packet.header
    have hc₁ : Accounted c₁.core ∧ c₁.OpenArmed := by
      rcases authenticate_cases h1 with ⟨-, rfl⟩ | ⟨-, h1⟩
      · exact ⟨hacc₁, hs⟩
      · exact ⟨accounted_of_moves hacc₁ (onPacketAuthenticated_moves h1),
          onPacketAuthenticated_armed hacc₁ hs h1⟩
    have hres := processPacket_inv (I := fun c => Accounted c.core ∧ c.OpenArmed)
      (fun _ _ _ hm => hm.armed) h2 hc₁
    intro hopen
    have hsame := afterPacket_open hopen
    rw [hsame] at hopen ⊢
    exact hres.2 hopen

end Loss

/-! ## Closing -/

/-- A connection that is closing has armed the close timer and no other one, and an open one has not
armed it. -/
structure ClosingTimers (c : Connection) : Prop where
  closing : c.state.isClosed = true → c.state.isDrained = false →
    (c.timers.data .close).isSome = true ∧ ∀ t, t ≠ .close → c.timers.data t = none
  opened : c.state.isClosed = false → c.timers.data .close = none

section Closing

variable {c c' : Connection} {now : Instant} {id : SpaceId}

/-- The close timer is the same, and if the connection is closed no other one was armed. -/
theorem ClosingTimers.kept (h : c.ClosingTimers) (hc : c'.state.isClosed = c.state.isClosed)
    (hd : c'.state.isDrained = c.state.isDrained) (h1 : c'.timers.data .close = c.timers.data .close)
    (h2 : c.state.isClosed = true → ∀ t, t ≠ .close → c.timers.data t = none → c'.timers.data t = none) :
    c'.ClosingTimers where
  closing := by
    rw [hc, hd, h1]
    intro hclosed hdrained
    obtain ⟨hclose, hrest⟩ := h.closing hclosed hdrained
    exact ⟨hclose, fun t ht => h2 hclosed t ht (hrest t ht)⟩
  opened := by
    rw [hc, h1]
    exact h.opened

theorem ClosingTimers.inner (h : c.ClosingTimers) {b : Bool} (hi : Inner b c c') : c'.ClosingTimers :=
  h.kept (by rw [hi.state]) (by rw [hi.state]) (hi.timers _ (.inl (by decide))) fun hclosed t _ ht => by
    rw [hi.timers t (.inr hclosed), ht]

/-- Nothing is asked of a drained connection. -/
theorem ClosingTimers.of_drained (h : c.state = .drained) : c.ClosingTimers where
  closing := fun _ hd => by
    rw [h] at hd
    cases hd
  opened := fun ho => by
    rw [h] at ho
    cases ho

theorem closeCommon_timers (c : Connection) (t : Timer) : c.closeCommon.timers.data t = none := by
  cases t <;> rfl

@[simp] theorem closeCommon_state (c : Connection) : c.closeCommon.state = c.state := rfl

@[simp] theorem setCloseTimer_state (c : Connection) (now : Instant) : (c.setCloseTimer now).state = c.state := rfl

/-- A connection that has just begun to close. -/
theorem ClosingTimers.of_closed (c : Connection) (now : Instant) (h : c'.state.isClosed = true)
    (ht : c'.timers = (c.closeCommon.setCloseTimer now).timers) : c'.ClosingTimers where
  closing := fun _ _ => by
    rw [ht]
    refine ⟨rfl, fun t hne => ?_⟩
    exact (TimerTable.data_set_of_ne _ hne _).trans (closeCommon_timers c t)
  opened := fun ho => absurd (h.symm.trans ho) Bool.noConfusion

theorem close_closing (hc : c.ClosingTimers) (errorCode : ℕ) (reason : Bytes) :
    (c.close now errorCode reason).ClosingTimers := by
  unfold close
  split_ifs
  · exact hc
  · exact .of_closed c now rfl rfl

/-- Timers that are not armed when a closed connection is polled stay so. -/
theorem composePacket_stopped {close ackEliciting : Bool} {t : Timer} (ht : c.timers.data t = none)
    (h : composePacket now close c id ackEliciting = .ok c') : c'.timers.data t = none := by
  rcases composePacket_timers h with e | e
  · rwa [e]
  · rw [e]
    by_cases hm : t = .maxAckDelay
    · rw [hm]
      rfl
    · rwa [TimerTable.data_stop_of_ne _ hm]

theorem transmitSpace_stopped {close blocked : Bool} {s s' : Connection × Bool}
    (h : transmitSpace now close blocked s id = .ok s') (hclosed : s.1.state.isClosed = true) (t : Timer)
    (ht : s.1.timers.data t = none) : s'.1.timers.data t = none :=
  transmitSpace_inv (I := fun x => x.timers.data t = none)
    (fun x hd => by rwa [(discardSpace_inner hd).timers t (.inr hclosed)]) (fun _ _ hx => hx)
    (fun _ _ _ hx hs => composePacket_stopped hx hs) h ht

theorem pollTransmit_closing {more : Bool} (hc : c.ClosingTimers) (h : c.pollTransmit now = .ok (more, c')) :
    c'.ClosingTimers := by
  have ho := pollTransmit_outer h
  refine hc.kept (by rw [ho.state]) (by rw [ho.state]) (ho.timers _ (by decide) (by decide))
    fun hclosed t _ ht => ?_
  have hstopped := pollTransmit_inv (I := fun x => x.state.isClosed = true ∧ x.timers.data t = none)
    (fun _ _ _ _ _ hx hs => ⟨by rw [(transmitSpace_outer hs).state, hx.1], transmitSpace_stopped hs hx.1 t hx.2⟩)
    (fun _ _ hx => hx) h ⟨hclosed, ht⟩
  exact hstopped.2

/-- The frames of a packet, up to a CLOSE frame, leave the timers of a closed connection alone. -/
theorem FrameMove.closing {b : Bool} {r : Except TransportError Bool} (h : FrameMove c r c')
    (hr : r ≠ .ok false) (hc : c.ClosingTimers ∧ c.state.isDrained = false ∧ c.state.isClosed = b) :
    c'.ClosingTimers ∧ c'.state.isDrained = false ∧ c'.state.isClosed = b := by
  obtain ⟨hc, hd, hb⟩ := hc
  cases h with
  | acked h _ =>
      have hi := onAckReceived_inner h
      exact ⟨hc.inner hi, by rw [hi.state, hd], by rw [hi.state, hb]⟩
  | crypto id =>
      obtain ⟨-, htimers, -⟩ := c.onCrypto_kept id
      have hstate : (c.onCrypto id).state.isClosed = c.state.isClosed ∧
          (c.onCrypto id).state.isDrained = c.state.isDrained := by
        rcases c.onCrypto_state id with ⟨hs, -⟩ | ⟨hs, hs', -⟩
        · rw [hs]
          exact ⟨rfl, rfl⟩
        · rw [hs, hs']
          exact ⟨rfl, rfl⟩
      refine ⟨hc.kept hstate.1 hstate.2 (by rw [htimers]) (fun _ t _ ht => by rwa [htimers]), ?_, ?_⟩
      · rw [hstate.2, hd]
      · rw [hstate.1, hb]
  | immediate id => exact ⟨hc.kept rfl rfl rfl fun _ _ _ ht => ht, hd, hb⟩
  | streams s _ => exact ⟨hc.kept rfl rfl rfl fun _ _ _ ht => ht, hd, hb⟩
  | killed reason => exact absurd rfl hr
  | _ => exact ⟨hc, hd, hb⟩

/-- **The timers after a packet.** -/
theorem afterPacket_closing {wasClosed : Bool} {res : Except ConnectionError Unit × Connection}
    (h : (res.2.ClosingTimers ∧ res.2.state.isDrained = false ∧ res.2.state.isClosed = wasClosed) ∨
      (res.1 = .ok () ∧ res.2.state = .drained)) :
    (afterPacket now wasClosed false res).ClosingTimers := by
  obtain ⟨r, c⟩ := res
  dsimp only at h
  cases r with
  | error e =>
      obtain ⟨hc, hd, rfl⟩ := h.resolve_right fun hk => by cases hk.1
      have he : (errorState e).isClosed = true := by cases e <;> rfl
      unfold afterPacket
      dsimp only
      cases hdr : (errorState e).isDrained with
      | true =>
          have hstate : errorState e = .drained := of_decide_eq_true hdr
          split_ifs <;> exact .of_drained hstate
      | false =>
          cases hb : c.state.isClosed with
          | true =>
              -- the close timer was armed before
              simp only [Bool.not_true, Bool.false_and, Bool.false_eq_true, if_false, hdr, Bool.and_false]
              exact hc.kept (he.trans hb.symm) (hdr.trans hd.symm) rfl fun _ _ _ ht => ht
          | false =>
              simp only [he, Bool.not_false, Bool.and_self, if_true, closeCommon_state, hdr, setCloseTimer_state,
                Bool.and_false, Bool.false_eq_true, if_false]
              exact .of_closed _ now he rfl
  | ok u =>
      unfold afterPacket
      dsimp only
      rcases h with ⟨hc, hd, rfl⟩ | ⟨-, hstate⟩
      · rw [Bool.not_and_self, if_neg Bool.false_ne_true, hd, Bool.and_false, if_neg Bool.false_ne_true]
        exact hc
      · split_ifs <;> exact .of_drained hstate

theorem handleData_closing {data : Bytes} (hc : c.ClosingTimers) (hd : c.state ≠ .drained)
    (h : c.handleData now data = .ok c') : c'.ClosingTimers := by
  have hdrained : c.state.isDrained = false := decide_eq_false hd
  rcases handleData_cases h with ⟨-, rfl⟩ | ⟨packet, -, ⟨-, rfl⟩ | ⟨-, c₁, res, h1, h2, rfl⟩⟩
  · exact hc
  · exact hc.kept rfl rfl rfl fun _ _ _ ht => ht
  · have hscreen : (c.screened packet.header).ClosingTimers := hc.kept rfl rfl rfl fun _ _ _ ht => ht
    have hc₁ : c₁.ClosingTimers ∧ c₁.state.isDrained = false ∧ c₁.state.isClosed = c.state.isClosed := by
      rcases authenticate_cases h1 with ⟨-, rfl⟩ | ⟨hopen, h1⟩
      · exact ⟨hscreen, hdrained, rfl⟩
      · have ho := onPacketAuthenticated_outer h1
        refine ⟨hscreen.kept (by rw [ho.state]) (by rw [ho.state]) (ho.timers _ (by decide) (by decide))
          fun hclosed' => absurd (hclosed'.symm.trans hopen) Bool.noConfusion, ?_, ?_⟩
        · rw [ho.state]
          exact hdrained
        · rw [ho.state]
          rfl
    rw [hdrained]
    refine afterPacket_closing ?_
    rcases processPacket_ends (fun _ _ _ hm hr => hm.closing hr) h2 hc₁ with hc₂ | ⟨hr, c₂, reason, -, e⟩
    · exact .inl hc₂
    · refine .inr ⟨hr, ?_⟩
      rw [e]
      rfl

theorem pollTimers_closing (hc : c.ClosingTimers) (h : c.pollTimers now = .ok c') : c'.ClosingTimers := by
  rcases pollTimers_fired h with rfl | ⟨timer, hf⟩
  · exact hc
  · have hstop : timer ≠ .close → { c with timers := c.timers.stop timer }.ClosingTimers := by
      intro hne
      refine hc.kept rfl rfl (c.timers.data_stop_of_ne (Ne.symm hne)) fun _ t _ ht => ?_
      by_cases he : t = timer
      · subst he
        exact Function.update_self t none c.timers.data
      · exact (c.timers.data_stop_of_ne he).trans ht
    cases hf with
    | lossDetection h => exact (hstop (by decide)).inner (onLossDetectionTimeout_inner h)
    | close => exact .of_drained rfl
    | maxAckDelay => exact (hstop (by decide)).kept rfl rfl rfl fun _ _ _ ht => ht
    | other _ h2 _ => exact hstop h2

/-- A connection that is closing is drained when its close timer fires. -/
def Drains (c : Connection) : Prop :=
  c.state.isClosed = true → c.state.isDrained = false → ∃ t, c.timers.data .close = some t ∧
    ∀ now, t ≤ now → ∃ c', c.pollTimers now = .ok c' ∧ c'.state = .drained

theorem ClosingTimers.drains (h : c.ClosingTimers) : c.Drains := by
  intro hclosed hdrained
  obtain ⟨hclose, hrest⟩ := h.closing hclosed hdrained
  obtain ⟨t, ht⟩ := Option.isSome_iff_exists.mp hclose
  refine ⟨t, ht, fun now hnow => ?_⟩
  have harmed : (Timer.variants.filterMap fun timer => (c.timers.data timer).map fun time => (timer, time)) =
      [(.close, t)] := by
    simp [Timer.variants, ht, hrest]
  have hpoll : c.timers.poll now = some (.close, c.timers.stop .close) := by
    unfold TimerTable.poll
    dsimp only
    rw [harmed, List.argmin_singleton]
    exact if_pos hnow
  unfold pollTimers
  rw [hpoll]
  exact ⟨_, rfl, rfl⟩

end Closing

end Connection

open Connection

/-! ## Runs -/

/-- What is known of a connection between the steps of its task. -/
structure Timed (c : Connection) : Prop where
  accounted : Accounted c.core
  sized : c.Sized
  armed : c.OpenArmed
  closing : c.ClosingTimers

theorem connectionStep_sized {c c' : Connection} {op : ConnectionOp} (hc : c.Sized)
    (h : connectionStep c op = .ok c') : c'.Sized := by
  by_cases hop : op.creates = false
  · exact Moves.inv (I := Sized) (fun _ _ hm => hm.sized) (connectionStep_moves hop h) hc
  · obtain ⟨s, rfl⟩ := connectionStep_creates hop h
    exact hc

theorem connectionStep_timed {c c' : Connection} {op : ConnectionOp} (hc : Timed c) (hop : op.inTask = true)
    (hd : c.state ≠ .drained) (h : connectionStep c op = .ok c') : Timed c' := by
  refine ⟨packetStep_accounted c (.step op) c' hc.accounted h, connectionStep_sized hc.sized h, ?_, ?_⟩
  · cases op with
    | pollTransmit now =>
        obtain ⟨⟨more, c₁⟩, h1, h⟩ := Checked.bind_eq_ok.mp h
        cases h
        exact pollTransmit_armed hc.accounted hc.armed h1
    | sendOne t =>
        cases h
        exact sendOne_armed hc.accounted hc.sized hc.armed t
    | pollTimers now => exact pollTimers_armed hc.accounted hc.armed h
    | handleData now data => exact handleData_armed hc.accounted hc.armed h
    | handleFirstPacket now packet => cases hop
    | close now errorCode reason =>
        cases h
        unfold close
        split_ifs
        · exact hc.armed
        · exact fun ho => by cases ho
    | _ =>
        obtain ⟨s, pending, -, rfl⟩ := connectionStep_call rfl h
        exact OpenArmed.modifySpace (c := { c with streams := s }) hc.armed .data _ rfl
  · cases op with
    | pollTransmit now =>
        obtain ⟨⟨more, c₁⟩, h1, h⟩ := Checked.bind_eq_ok.mp h
        cases h
        exact pollTransmit_closing hc.closing h1
    | sendOne t =>
        cases h
        exact hc.closing.inner (sendOne_inner c t)
    | pollTimers now => exact pollTimers_closing hc.closing h
    | handleData now data => exact handleData_closing hc.closing hd h
    | handleFirstPacket now packet => cases hop
    | close now errorCode reason =>
        cases h
        exact close_closing hc.closing errorCode reason
    | _ => exact hc.closing.inner (connectionStep_call_inner rfl h)

theorem timed_new (now : Instant) (side : Side) : Timed (Connection.new now side) where
  accounted := accounted_new now side
  sized := by
    intro p hp
    cases side <;> cases hp
  armed := by
    intro _ id hid
    cases side <;> cases id <;> exact absurd hid (Nat.lt_irrefl 0)
  closing := by
    constructor
    · intro hclosed
      cases side <;> cases hclosed
    · intro _
      cases side <;> rfl

theorem Connection.Starts.timed {c : Connection} {first : Option ℕ} (hc : Starts c first) : Timed c := by
  cases hc with
  | client now => exact timed_new now .client
  | server now h =>
      have hnew := timed_new now .server
      have hmoves := handleFirstPacket_moves h
      obtain ⟨c₁, h1, h⟩ := Checked.bind_eq_ok.mp h
      have hacc₁ := accounted_of_moves hnew.accounted (onPacketAuthenticated_moves h1)
      have ho := onPacketAuthenticated_outer h1
      have hc₁ : c₁.ClosingTimers := hnew.closing.kept (by rw [ho.state]) (by rw [ho.state])
        (ho.timers _ (by decide) (by decide)) fun hclosed => by cases hclosed
      refine ⟨accounted_of_moves hnew.accounted hmoves,
        Moves.inv (I := Sized) (fun _ _ hm => hm.sized) hmoves hnew.sized,
        (processPacket_inv (I := fun c => Accounted c.core ∧ c.OpenArmed) (fun _ _ _ hm => hm.armed) h
          ⟨hacc₁, onPacketAuthenticated_armed hnew.accounted hnew.armed h1⟩).2, ?_⟩
      have hstart : c₁.ClosingTimers ∧ c₁.state.isDrained = false ∧ c₁.state.isClosed = false := by
        rw [ho.state]
        exact ⟨hc₁, rfl, rfl⟩
      rcases processPacket_ends (fun _ _ _ hm hr => hm.closing hr) h hstart with hc' | ⟨-, c₂, reason, -, e⟩
      · exact hc'.1
      · rw [e]
        exact .of_drained rfl

/-- **The timers over the life of a connection.** Between the steps of the task, which ends when the
connection is drained: an open connection with packets in flight has its loss detection timer armed; one
that is closing has armed the close timer and no other; an open one has not armed it. So one that is
closing is drained once its close timer fires. -/
theorem timers_right (c : Connection) (first : Option ℕ) (hc : Starts c first) (ops : List ConnectionOp)
    (hops : ∀ op ∈ ops, op.inTask = true)
    (hm : Meets connectionStep (fun c _ => c.state ≠ .drained) c ops) (c' : Connection)
    (h : run connectionStep c ops = .ok c') : c'.OpenArmed ∧ c'.ClosingTimers ∧ c'.Drains := by
  have ht : Timed c' := run_inv (fun _ _ _ hx hok hs => connectionStep_timed hx hok.1 hok.2 hs) hc.timed
    (Meets.and (Meets.of_forall hops) hm) h
  exact ⟨ht.armed, ht.closing, ht.closing.drains⟩

/-- A client that has sent its hello, and is then closed. -/
theorem timers_right_close : ∃ ops c, run connectionStep (Connection.new 0 .client) ops = .ok c ∧
    0 < (c.spaces .initial).inFlight ∧ c.state.isClosed = true ∧ c.state.isDrained = false ∧
    c.OpenArmed ∧ c.ClosingTimers ∧ c.Drains := by
  let ops : List ConnectionOp := [.pollTransmit 1, .sendOne 1, .close 2 0 []]
  obtain ⟨c, hc, hv⟩ := Checked.map_eq_ok.mp (show (fun c : Connection =>
      (decide (0 < (c.spaces .initial).inFlight), c.state.isClosed, c.state.isDrained,
        decide (Meets connectionStep (fun c _ => c.state ≠ .drained) (Connection.new 0 .client) ops))) <$>
      run connectionStep (Connection.new 0 .client) ops = .ok (true, true, false, true) by decide +kernel)
  obtain ⟨hflight, hv⟩ := Prod.mk.inj hv
  obtain ⟨hclosed, hv⟩ := Prod.mk.inj hv
  obtain ⟨hdrained, hmeets⟩ := Prod.mk.inj hv
  exact ⟨ops, c, hc, of_decide_eq_true hflight, hclosed, hdrained, timers_right _ none (.client 0) ops
    (by decide) (of_decide_eq_true hmeets) c hc⟩

end MzQuic
