import MzQuic.System.Packets

/-!
# Both ends number the packets alike

* `connectionStep_rx`: no packet that has arrived has a number above the largest received one;
* `Party.Counted`, **`wire_numbered`**: in every run the packets of a space are put on the wire with the numbers 0, 1, 2
  and so on, and what is in flight was put on the wire;
* `Party.Counts`, `arrivals_agree`: the peer finds the number of a packet from the few bytes of it that are on the wire;
* **`numbers_agree`**: in every run of a client and a server, each packet arrives with the number with which it was
  sent, if it is not overtaken by half a window of later ones.
-/

namespace MzQuic

open Lib Connection

/-! ## The largest number received -/

section Received

variable {c c' : Connection} {now : Instant} {id : SpaceId}

/-- The number of a packet that is authenticated is not above the largest one. -/
theorem onPacketAuthenticated_rx {number : Option ℕ} (h : c.onPacketAuthenticated now id number = .ok c') :
    (∀ i, (c.spaces i).rxPacket ≤ (c'.spaces i).rxPacket) ∧ ∀ n ∈ number, n ≤ (c'.spaces id).rxPacket := by
  rcases onPacketAuthenticated_cases h with ⟨rfl, rfl⟩ | ⟨n, c₁, rfl, hc₁, hr⟩
  · exact ⟨fun _ => le_rfl, nofun⟩
  · have hrx₁ : ∀ i, (c₁.spaces i).rxPacket = (c.spaces i).rxPacket := by
      rcases hc₁ with rfl | hd
      · exact fun _ => rfl
      · exact fun i => (discardSpace_unheard hd i).rx
    have hrecorded : (∀ i, (c.spaces i).rxPacket ≤ ((c₁.recorded now id n).spaces i).rxPacket) ∧
        n ≤ ((c₁.recorded now id n).spaces id).rxPacket := by
      unfold recorded modifySpace
      constructor
      · refine (Function.forall_update_iff c₁.spaces fun i x => (c.spaces i).rxPacket ≤ x.rxPacket).mpr
          ⟨?_, fun i _ => (hrx₁ i).ge⟩
        rw [← hrx₁ id]
        dsimp only
        split_ifs <;> omega
      · dsimp only
        rw [Function.update_self]
        dsimp only
        split_ifs <;> omega
    obtain ⟨hmono, hn⟩ := hrecorded
    have hall : (∀ i, ((c₁.recorded now id n).spaces i).rxPacket ≤ (c'.spaces i).rxPacket) := by
      rcases hr with ⟨-, rfl⟩ | ⟨-, -, rfl⟩ | ⟨-, rfl⟩
      · exact fun _ => le_rfl
      · exact fun _ => le_rfl
      · exact (Function.forall_update_iff (c₁.recorded now id n).spaces fun i x =>
          ((c₁.recorded now id n).spaces i).rxPacket ≤ x.rxPacket).mpr ⟨le_rfl, fun _ _ => le_rfl⟩
    refine ⟨fun i => (hmono i).trans (hall i), ?_⟩
    rintro _ ⟨⟩
    exact hn.trans (hall id)

theorem handleData_rx {data : Bytes} (h : c.handleData now data = .ok c') :
    (∀ i, (c.spaces i).rxPacket ≤ (c'.spaces i).rxPacket) ∧
      ∀ x ∈ c.arrivals data, x.1 ≤ (c'.spaces x.2.header.space).rxPacket := by
  have hscreened : ∀ header i, ((c.screened header).spaces i).rxPacket = (c.spaces i).rxPacket := fun header i =>
    ((Unheard.of_update rfl (.of_eq rfl rfl) : Unheard c (c.screened header)) i).rx
  unfold arrivals
  rcases handleData_cases h with ⟨hp, rfl⟩ | ⟨packet, hp, ⟨ha, rfl⟩ | ⟨ha, c₁, res, h1, h2, rfl⟩⟩
  · rw [hp]
    exact ⟨fun _ => le_rfl, nofun⟩
  · rw [hp]
    dsimp only
    rw [if_neg fun hx => by rw [ha] at hx; cases hx.1]
    exact ⟨fun i => (hscreened _ i).ge, nofun⟩
  · have hlast := fun i => ((processPacket_unheard h2).trans (afterPacket_unheard now c.state.isClosed
      c.state.isDrained res) i).rx
    rw [hp]
    dsimp only
    rcases authenticate_cases h1 with ⟨hclosed, rfl⟩ | ⟨hopen, h1⟩
    · rw [if_neg fun hx => by rw [hclosed] at hx; cases hx.2]
      exact ⟨fun i => by rw [hlast, hscreened], nofun⟩
    · rw [if_pos ⟨ha, hopen⟩]
      obtain ⟨hmono, hn⟩ := onPacketAuthenticated_rx h1
      refine ⟨fun i => by rw [hlast, ← hscreened packet.header]; exact hmono i, fun x hx => ?_⟩
      obtain ⟨n, hmem, rfl⟩ := List.mem_map.mp hx
      rw [hlast]
      exact hn n (Option.mem_toList.mp hmem)

/-- **The largest number received after a step.** -/
theorem connectionStep_rx {op : ConnectionOp} (h : connectionStep c op = .ok c') :
    (∀ i, (c.spaces i).rxPacket ≤ (c'.spaces i).rxPacket) ∧
      ∀ x ∈ op.arrivals c, x.1 ≤ (c'.spaces x.2.header.space).rxPacket := by
  cases op with
  | handleData now data => exact handleData_rx h
  | handleFirstPacket now packet =>
      obtain ⟨⟨r, c₁⟩, h1, h⟩ := Checked.bind_eq_ok.mp h
      cases h
      obtain ⟨c₂, h2, h1⟩ := Checked.bind_eq_ok.mp h1
      obtain ⟨hmono, hn⟩ := onPacketAuthenticated_rx h2
      have hlast := fun i => (processPacket_unheard h1 i).rx
      refine ⟨fun i => by rw [hlast]; exact hmono i, fun x hx => ?_⟩
      obtain rfl := List.mem_singleton.mp hx
      rw [hlast]
      exact hn _ rfl
  | _ => exact ⟨fun i => (connectionStep_unheard rfl h i).rx.ge, nofun⟩

end Received

/-! ## The numbers of one end -/

/-- The packets that were put on the wire, and those that wait, have the numbers of their spaces in order; what is in
flight was put on the wire; and no packet has arrived with a number above the largest one. -/
structure Party.Counted (p : Party) : Prop where
  numbered : Numbered (p.past.wire.map ScheduledPacket.metaInfo) p.conn
  flight : ∀ id, ∀ x ∈ (p.conn.core.sent id).entries, ∃ w ∈ p.past.wire, w.metaInfo.number = x.1 ∧
    w.metaInfo.spaceId = id ∧ x.2 = { w.metaInfo with timeSent := x.2.timeSent }
  rx : ∀ x ∈ p.past.arrived, x.1 ≤ (p.conn.spaces x.2.header.space).rxPacket

section Counted

variable {p p' : Party} {op : ConnectionOp}

/-- **Every step of a party keeps the numbers.** -/
theorem partyStep_counted (ha : Accounted p.conn.core) (hf : Framed p.conn.core) (hp : p.Counted)
    (h : partyStep p op = .ok p') : p'.Counted := by
  obtain ⟨hc, hn⟩ := partyStep_eq_ok.mp h
  have hrx : ∀ x ∈ p'.past.arrived, x.1 ≤ (p'.conn.spaces x.2.header.space).rxPacket := by
    obtain ⟨hmono, hnew⟩ := connectionStep_rx hc
    intro x hx
    rw [History.note_arrived hn] at hx
    rcases List.mem_append.mp hx with hx | hx
    · exact (hp.rx x hx).trans (hmono _)
    · exact hnew x hx
  rcases History.note_wire hn with ⟨hw, hop⟩ | ⟨⟨now, rfl⟩, hw⟩ | ⟨⟨t, rfl⟩, hw⟩
  · refine ⟨?_, fun id x hx => ?_, hrx⟩
    · rw [hw]
      exact hp.numbered.congr (connectionStep_waiting hop hc).core
    · rw [hw]
      exact hp.flight id x (connectionStep_sent ha hf (by rintro t rfl; cases hop) hc id hx)
  · refine ⟨?_, fun id x hx => ?_, hrx⟩
    · obtain ⟨⟨more, c₁⟩, h1, hc⟩ := Checked.bind_eq_ok.mp hc
      rw [hw, ← Except.ok.inj hc]
      exact hp.numbered.polled h1
    · rw [hw]
      exact hp.flight id x (connectionStep_sent ha hf (fun t ht => by cases ht) hc id hx)
  · have hconn : p'.conn = p.conn.sendOne t := (Except.ok.inj hc).symm
    refine ⟨?_, fun id x hx => ?_, hrx⟩
    · rw [hw, hconn, List.map_append, ← Option.toList_map]
      exact hp.numbered.sent t
    · rw [hconn] at hx
      rcases p.conn.sendOne_ok t with ⟨-, e⟩ | ⟨m, queue, hq, hk, -⟩
      · rw [e] at hx
        obtain ⟨w, hmem, hfound⟩ := hp.flight id x hx
        exact ⟨w, hw ▸ List.mem_append_left _ hmem, hfound⟩
      · obtain ⟨w, rest, hqueue, rfl, -⟩ := List.map_eq_cons_iff.mp
          (show p.conn.path.sendingQueue.map ScheduledPacket.metaInfo = m :: queue from hq)
        have hsent : (p.conn.sendOne t).core.sent = Function.update p.conn.core.sent w.metaInfo.spaceId
            ((p.conn.core.sent w.metaInfo.spaceId).insert w.metaInfo.number { w.metaInfo with timeSent := t }) := by
          rw [hk]
        have hhead : p.conn.path.sendingQueue.head?.toList = [w] := by rw [hqueue]; rfl
        have hold : ∀ y ∈ (p.conn.core.sent id).entries, ∃ w ∈ p'.past.wire, w.metaInfo.number = y.1 ∧
            w.metaInfo.spaceId = id ∧ y.2 = { w.metaInfo with timeSent := y.2.timeSent } := by
          intro y hy
          obtain ⟨v, hmem, hfound⟩ := hp.flight id y hy
          exact ⟨v, hw ▸ List.mem_append_left _ hmem, hfound⟩
        rw [hsent] at hx
        by_cases hid : id = w.metaInfo.spaceId
        · subst hid
          rw [Function.update_self] at hx
          rcases OrdMap.mem_insert.mp hx with rfl | ⟨hx, -⟩
          · exact ⟨w, by rw [hw, hhead]; exact List.mem_append_right _ List.mem_cons_self, rfl, rfl, rfl⟩
          · exact hold x hx
        · rw [Function.update_of_ne hid] at hx
          exact hold x hx

theorem Party.counted_new (now : Instant) (side : Side) : (Party.new now side).Counted where
  numbered := fun id => by cases side <;> cases id <;> rfl
  flight := fun id x hx => by cases side <;> cases id <;> cases hx
  rx := nofun

/-- What is filtered and mapped in the list of all packets. -/
theorem Connection.Numbered.range {wire : List ScheduledPacket} {c : Connection}
    (h : Numbered (wire.map ScheduledPacket.metaInfo) c) (id : SpaceId) :
    ((wire ++ c.path.sendingQueue).filter fun w => w.metaInfo.spaceId = id).map (fun w => w.metaInfo.number) =
      List.range (c.spaces id).nextPacketNumber := by
  have hid := h id
  rw [show c.core.queue = c.path.sendingQueue.map ScheduledPacket.metaInfo from rfl, ← List.map_append,
    List.filter_map, List.map_map] at hid
  exact hid

/-- Two packets of a space that were put on the wire have different numbers. -/
theorem Connection.Numbered.unique {wire : List ScheduledPacket} {c : Connection}
    (h : Numbered (wire.map ScheduledPacket.metaInfo) c) {w w' : ScheduledPacket} (hw : w ∈ wire) (hw' : w' ∈ wire)
    (hid : w.metaInfo.spaceId = w'.metaInfo.spaceId) (hn : w.metaInfo.number = w'.metaInfo.number) : w = w' := by
  have hnodup : (((wire ++ c.path.sendingQueue).filter fun x => x.metaInfo.spaceId = w'.metaInfo.spaceId).map
      fun x => x.metaInfo.number).Nodup := by
    rw [h.range]
    exact List.nodup_range
  refine List.inj_on_of_nodup_map hnodup ?_ ?_ hn
  · exact List.mem_filter.mpr ⟨List.mem_append_left _ hw, decide_eq_true hid⟩
  · exact List.mem_filter.mpr ⟨List.mem_append_left _ hw', decide_eq_true rfl⟩

/-- **Packets are numbered without a gap.** In every run of a party, with any input, the packets of each space are put
on the wire in the order of their numbers, which are 0, 1, 2 and so on, and those that wait have the numbers
after them; and every packet that counts as in flight was put on the wire with its number and its data. -/
theorem wire_numbered (now : Instant) (side : Side) (ops : List ConnectionOp) (p : Party)
    (h : run partyStep (Party.new now side) ops = .ok p) (id : SpaceId) :
    ((p.past.wire ++ p.conn.path.sendingQueue).filter fun w => w.metaInfo.spaceId = id).map
      (fun w => w.metaInfo.number) = List.range (p.conn.spaces id).nextPacketNumber ∧
    ∀ x ∈ (p.conn.spaces id).sentPackets.entries, ∃ w ∈ p.past.wire, w.metaInfo.number = x.1 ∧
      w.metaInfo.spaceId = id ∧ x.2 = { w.metaInfo with timeSent := x.2.timeSent } := by
  have hp := run_inv (I := fun p : Party => Accounted p.conn.core ∧ Framed p.conn.core ∧ p.Counted)
    (fun p op p' hp _ hs => by
      obtain ⟨ha, hf⟩ := connectionStep_framed hp.1 hp.2.1 (partyStep_eq_ok.mp hs).1
      exact ⟨ha, hf, partyStep_counted hp.1 hp.2.1 hp.2.2 hs⟩)
    ⟨accounted_new now side, framed_new now side, Party.counted_new now side⟩ (Meets.trivial _ _ _) h
  exact ⟨hp.2.2.numbered.range id, hp.2.2.flight id⟩

/-- Two packets of a client are on the wire, and the second one waits for its acknowledgement. -/
theorem wire_numbered_two : ∃ p : Party, (p.past.wire.length = 2 ∧ (p.conn.spaces .data).nextPacketNumber = 1) ∧
    ((p.past.wire ++ p.conn.path.sendingQueue).filter fun w => w.metaInfo.spaceId = .data).map
      (fun w => w.metaInfo.number) = List.range (p.conn.spaces .data).nextPacketNumber := by
  let ops : List ConnectionOp := [.openStream .bi, .write ⟨0⟩ [1, 2, 3], .pollTransmit 1, .sendOne 1, .sendOne 1]
  obtain ⟨p, hp, hv⟩ := Checked.map_eq_ok.mp (show (fun p : Party =>
      (p.past.wire.length, (p.conn.spaces .data).nextPacketNumber)) <$>
    run partyStep (Party.new 0 .client) ops = .ok (2, 1) by decide +kernel)
  exact ⟨p, Prod.mk.inj hv, (wire_numbered 0 .client ops p hp .data).1⟩

end Counted

/-! ## Numbers on the wire -/

/-- A number that is cut for a peer that has acknowledged `largest`. -/
theorem PacketNumber.new_ok {n largest : ℕ} {number : PacketNumber} (h : PacketNumber.new n largest = .ok number) :
    largest ≤ n ∧ n - largest < number.hwin ∧ number.truncated % 2 ^ (8 * number.len) = n % 2 ^ (8 * number.len) := by
  obtain ⟨d, hd, hrest⟩ := Checked.bind_eq_ok.mp h
  obtain ⟨hle, rfl⟩ := Checked.sub_eq_ok.mp hd
  have hfar : n - largest < 2 ^ 31 := by
    dsimp only at hrest
    split_ifs at hrest <;> omega
  obtain ⟨p, hp, -, hlow, hnear⟩ := new_spec hle hfar
  obtain rfl := Except.ok.inj (hp.symm.trans h)
  exact ⟨hle, hnear, hlow⟩

/-- Half of the window that the number of a packet stands for. -/
def halfWindow (data : Bytes) : ℕ := ((packetOf data).bind fun packet => packet.header.number).elim 0 PacketNumber.hwin

/-- What arrives was not overtaken by packets of its space with numbers half a window above it, and the first packet of
a connection arrives before the others. -/
def ConnectionOp.Timely (p q : Party) : ConnectionOp → Prop
  | .handleData _ data => ∃ w ∈ q.past.wire, w.packet = data ∧
      (p.conn.spaces w.metaInfo.spaceId).rxPacket + 1 < w.metaInfo.number + halfWindow data
  | .handleFirstPacket .. => p.past.arrived = []
  | _ => True

instance (p q : Party) : ∀ op : ConnectionOp, Decidable (op.Timely p q)
  | .handleData _ data => inferInstanceAs (Decidable (∃ w ∈ q.past.wire, w.packet = data ∧
      (p.conn.spaces w.metaInfo.spaceId).rxPacket + 1 < w.metaInfo.number + halfWindow data))
  | .handleFirstPacket .. => decidable_of_iff (p.past.arrived.isEmpty = true) List.isEmpty_iff
  | .openStream _ | .write .. | .finish _ | .reset .. | .setPriority .. | .read .. | .stop .. | .takeReset _
  | .pollTransmit _ | .sendOne _ | .pollTimers _ | .close .. => .isTrue trivial

/-- What a party knows of the numbers of its peer: what it takes for acknowledged has arrived, its packets are numbered
for that, and what has arrived is on the wire of the peer with the same number. -/
structure Party.Counts (p q : Party) : Prop where
  largest : p.conn.LargestAcked q.past.Received
  queue : ∀ w ∈ p.conn.path.sendingQueue, Stamped q.past.Received w
  wire : ∀ w ∈ p.past.wire, Stamped q.past.Received w
  arrived : ∀ x ∈ p.past.arrived, ∃ w ∈ q.past.wire, packetOf w.packet = some x.2 ∧ w.metaInfo.number = x.1 ∧
    w.metaInfo.spaceId = x.2.header.space

section Counts

variable {p p' q q' : Party} {op : ConnectionOp}

/-- **What has arrived has the number with which it was sent.** -/
theorem arrivals_agree (hp : p.Counted) (hq : q.Counts p) (hs : q.Sends op) (ht : op.Timely p q) :
    ∀ x ∈ op.arrivals p.conn, ∃ w ∈ q.past.wire, packetOf w.packet = some x.2 ∧ w.metaInfo.number = x.1 ∧
      w.metaInfo.spaceId = x.2.header.space := by
  -- a packet that is within half a window of the expected number
  have hnear : ∀ {w : ScheduledPacket} {packet : Packet} {number : PacketNumber} {expected : ℕ}, w ∈ q.past.wire →
      packetOf w.packet = some packet → packet.header.number = some number →
      (∀ x ∈ p.past.arrived, x.2.header.space = w.metaInfo.spaceId → x.1 ≤ expected) →
      expected < w.metaInfo.number + number.hwin →
      number.expand expected = w.metaInfo.number ∧ w.metaInfo.spaceId = packet.header.space := by
    intro w packet number expected hw hpacket hnumber hold hlo
    obtain ⟨packet', number', largest, hpacket', hspace, hnumber', hnew, hlt, hlargest⟩ := hq.wire w hw
    obtain rfl := Option.some.inj (hpacket'.symm.trans hpacket)
    obtain rfl := Option.some.inj (hnumber'.symm.trans hnumber)
    obtain ⟨hle, hfar, hlow⟩ := PacketNumber.new_ok hnew
    have hacked : largest.getD 0 ≤ expected := by
      cases largest with
      | none => exact Nat.zero_le _
      | some n =>
          obtain ⟨x, hx, rfl, hid⟩ := hlargest n rfl
          exact hold x hx hid
    have hwin : number'.wire.hwin = number'.hwin := by
      unfold PacketNumber.hwin
      rw [PacketNumber.len_wire]
    refine ⟨(PacketNumber.expand_of_near ?_ hlt hlo ?_).1, hspace.symm⟩
    · rw [PacketNumber.truncated_wire, PacketNumber.len_wire]
      exact hlow
    · rw [hwin]
      omega
  cases op with
  | handleData now data =>
      intro x hx
      obtain ⟨w, hw, rfl, hlo⟩ := ht
      change x ∈ p.conn.arrivals w.packet at hx
      unfold arrivals at hx
      unfold halfWindow at hlo
      cases hpacket : packetOf w.packet with
      | none =>
          rw [hpacket] at hx
          cases hx
      | some packet =>
          rw [hpacket] at hx hlo
          dsimp only at hx
          split_ifs at hx
          · obtain ⟨n, hn, rfl⟩ := List.mem_map.mp hx
            obtain ⟨number, hnumber, rfl⟩ := Option.map_eq_some_iff.mp (Option.mem_toList.mp hn)
            rw [Option.bind_some, hnumber] at hlo
            obtain ⟨packet', -, -, hpacket', hspace, -⟩ := hq.wire w hw
            obtain rfl := Option.some.inj (hpacket'.symm.trans hpacket)
            obtain ⟨hexpand, hid⟩ := hnear hw hpacket hnumber
              (fun x hx hid => (hid ▸ hp.rx x hx).trans (Nat.le_succ _)) hlo
            refine ⟨w, hw, hpacket, ?_, hid⟩
            dsimp only
            rw [hspace, hexpand]
          · cases hx
  | handleFirstPacket now packet =>
      intro x hx
      obtain rfl := List.mem_singleton.mp hx
      obtain ⟨w, hw, hpacket⟩ := hs
      have hnone : p.past.arrived = [] := ht
      have hnumber : packet.toPacket.header.number = some packet.header.number := rfl
      obtain ⟨hexpand, hid⟩ := hnear hw hpacket hnumber
        (fun x hx _ => by rw [hnone] at hx; cases hx)
        (Nat.add_pos_right _ (lt_of_lt_of_le Nat.zero_lt_two (PacketNumber.hwin_bounds _).1))
      exact ⟨w, hw, hpacket, hexpand.symm, hid⟩
  | _ => nofun

/-- **A step of a party** keeps what it knows of the numbers of its peer, and what the peer knows of its own. -/
theorem partyStep_counts (hp : p.Honest) (hq : q.Honest) (hc : p.Counted) (hA : p.Counts q) (hB : q.Counts p)
    (hs : q.Sends op) (hop : op.Proper p) (ht : op.Timely p q) (h : partyStep p op = .ok p') :
    p'.Counts q ∧ q.Counts p' := by
  have hgrows := partyStep_grows hp hop h
  have hagree := arrivals_agree hc hB hs ht
  obtain ⟨hstep, hn⟩ := partyStep_eq_ok.mp h
  have hreceived : ∀ id n, p.past.Received id n → p'.past.Received id n := fun _ _ hr => hgrows.received hr
  constructor
  · refine ⟨?_, fun w hw => ?_, fun w hw => ?_, fun x hx => ?_⟩
    · -- an ACK frame says what the peer has received
      refine connectionStep_largest hA.largest (fun packet hbrings ack hread => ?_) hstep
      obtain ⟨w, hw, hpacket⟩ := hs.brings hbrings
      obtain ⟨fs, packet', hreads, htrue⟩ := hq.wire w hw
      obtain rfl := Option.some.inj (hreads.decode.symm.trans hpacket)
      rw [hreads.space]
      exact (htrue _ (hread.mem hreads.spells)).1
    · rcases History.note_wire hn with ⟨-, hno⟩ | ⟨⟨now, rfl⟩, -⟩ | ⟨⟨t, rfl⟩, -⟩
      · rw [(connectionStep_waiting hno hstep).queue] at hw
        exact hA.queue w hw
      · obtain ⟨⟨more, c₁⟩, h1, hstep⟩ := Checked.bind_eq_ok.mp hstep
        obtain ⟨new, hnew, hstamped⟩ := pollTransmit_stamped hA.largest h1
        rw [← Except.ok.inj hstep, hnew] at hw
        rcases List.mem_append.mp hw with hw | hw
        · exact hA.queue w hw
        · exact hstamped w hw
      · rw [← Except.ok.inj hstep, (sendOne_takes p.conn t).1] at hw
        exact hA.queue w (List.mem_of_mem_tail hw)
    · rcases History.note_wire hn with ⟨he, -⟩ | ⟨-, he⟩ | ⟨-, he⟩
      · exact hA.wire w (he ▸ hw)
      · exact hA.wire w (he ▸ hw)
      · rw [he] at hw
        rcases List.mem_append.mp hw with hw | hw
        · exact hA.wire w hw
        · exact hA.queue w (List.mem_of_mem_head? (Option.mem_toList.mp hw))
    · rw [History.note_arrived hn] at hx
      rcases List.mem_append.mp hx with hx | hx
      · exact hA.arrived x hx
      · exact hagree x hx
  · refine ⟨fun id n hn => hreceived id n (hB.largest id n hn), fun w hw => (hB.queue w hw).mono hreceived,
      fun w hw => (hB.wire w hw).mono hreceived, fun x hx => ?_⟩
    obtain ⟨w, hw, hfound⟩ := hB.arrived x hx
    exact ⟨w, hgrows.wire hw, hfound⟩

theorem Party.counts_new (now : Instant) (side : Side) (q : Party) : (Party.new now side).Counts q where
  largest := fun id n hn => by cases side <;> cases id <;> cases hn
  queue := by cases side <;> nofun
  wire := nofun
  arrived := nofun

/-- **Runs of a client and a server in which packets are not overtaken too far.** -/
theorem network_counts (start : Side → Instant) (ops : List (Side × ConnectionOp)) (f : Side → Party)
    (hm : Meets network.step (network.Legal fun p q op => op.Proper p ∧ op.Timely p q) (network.start start) ops)
    (h : run network.step (network.start start) ops = .ok f) (side : Side) :
    ((f side).Honest ∧ (f side).Counted) ∧ (f side).Counts (f side.peer) :=
  Exchange.run_inv (e := network) (L := fun _ p => p.Honest ∧ p.Counted) (V := fun _ p q => p.Counts q)
    (fun _ _ _ _ _ hp hop hs =>
      ⟨partyStep_honest hp.1 hop.1 hs, partyStep_counted hp.1.accounted hp.1.framed hp.2 hs⟩)
    (fun _ _ _ _ _ hp hq hA hB hsends hop hs => partyStep_counts hp.1 hq.1 hp.2 hA hB hsends hop.1 hop.2 hs)
    (fun i => ⟨Party.honest_new (start i) i, Party.counted_new (start i) i⟩)
    (fun i => Party.counts_new (start i) i _) hm h side

/-- **Both ends number the packets alike.** In every run of a client and a server whose applications make no send half a
second time and whose polls cut no range that they send, on a network that may lose, duplicate, delay and reorder
datagrams as long as none is overtaken by half a window of later ones and the first packet of a connection comes
before the others: each packet that an end accepts was put on the wire by the other end, in the same space and with
the number that the receiver has found for it, and the largest number that an end takes for acknowledged in a space
was accepted by the other. -/
theorem numbers_agree (start : Side → Instant) (ops : List (Side × ConnectionOp)) (f : Side → Party)
    (hm : Meets network.step (network.Legal fun p q op => op.Proper p ∧ op.Timely p q) (network.start start) ops)
    (h : run network.step (network.start start) ops = .ok f) (side : Side) :
    (∀ x ∈ (f side).past.arrived, ∃ w ∈ (f side.peer).past.wire, packetOf w.packet = some x.2 ∧
      w.metaInfo.number = x.1 ∧ w.metaInfo.spaceId = x.2.header.space) ∧
    ∀ id, ∀ n ∈ ((f side).conn.spaces id).largestAckedPacket, (f side.peer).past.Received id n := by
  have hA := (network_counts start ops f hm h side).2
  exact ⟨hA.arrived, hA.largest⟩

/-- A client is told that its hello has arrived, and it has. -/
theorem numbers_agree_ack : ∃ f : Side → Party, (f .server).past.arrived.length = 2 ∧
    ((f .client).conn.spaces .initial).largestAckedPacket = some 0 ∧
    (∀ x ∈ (f .server).past.arrived, ∃ w ∈ (f .client).past.wire, packetOf w.packet = some x.2 ∧
      w.metaInfo.number = x.1 ∧ w.metaInfo.spaceId = x.2.header.space) ∧
    (f .server).past.Received .initial 0 := by
  let hello : InitialPacket := ⟨⟨fakeCid, fakeCid, [], .u8 0, 1⟩, [6, 0, 1, 0]⟩
  let ops : List (Side × ConnectionOp) :=
    [(.client, .openStream .bi), (.client, .write ⟨0⟩ [1, 2, 3]), (.client, .pollTransmit 1), (.client, .sendOne 1),
      (.client, .sendOne 1), (.server, .handleFirstPacket 2 hello),
      (.server, .handleData 3 (txBytes .data (.u8 0) ++ [10, 0, 3, 1, 2, 3])), (.server, .pollTransmit 4),
      (.server, .sendOne 4), (.client, .handleData 5 (txBytes .initial (.u8 0) ++ [2, 0, 0, 0, 0, 6, 0, 1, 0]))]
  obtain ⟨f, hf, hv⟩ := Checked.map_eq_ok.mp (show (fun f : Side → Party =>
      ((f .server).past.arrived.length, ((f .client).conn.spaces .initial).largestAckedPacket)) <$>
    run network.step (network.start fun _ => 0) ops = .ok (2, some 0) by decide +kernel)
  obtain ⟨hlength, hlargest⟩ := Prod.mk.inj hv
  have hm : Meets network.step (network.Legal fun p q op => op.Proper p ∧ op.Timely p q)
    (network.start fun _ => 0) ops := by decide +kernel
  refine ⟨f, hlength, hlargest, (numbers_agree (fun _ => 0) ops f hm hf .server).1, ?_⟩
  exact (numbers_agree (fun _ => 0) ops f hm hf .client).2 .initial 0 hlargest

end Counts

end MzQuic
