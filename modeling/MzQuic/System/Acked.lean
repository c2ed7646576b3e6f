import MzQuic.Connection.Ledger
import MzQuic.System.Numbers

/-!
# What is released has arrived

* `History.Got`: a packet with the STREAM frame of a range has arrived; `acked_got`: so has one with each range that is
  acknowledged;
* `Party.Settles`, `partyStep_settles`: every step keeps that the books of the streams have no other acknowledged
  ranges;
* **`released_arrived`**: in every run of a client and a server, a byte that an end no longer has for sending has
  arrived at the other.
-/

namespace MzQuic

open Lib Connection

/-! ## Ranges that have arrived -/

/-- A packet has arrived that is read as frames, with the STREAM frame of the range `m` among them. -/
def History.Got (h : History) (wrote : StreamId → Bytes) (m : StreamMeta) : Prop :=
  m.offsets.start ≤ m.offsets.end ∧ m.offsets.end ≤ (wrote m.id).length ∧ ∃ x ∈ h.arrived, ∃ fs,
    FrameParser.frames x.2.payload = .ok (.ok fs) ∧ .stream (m.frame (wrote m.id)) ∈ fs

section Got

variable {h h' g : History} {m : StreamMeta} {wrote : StreamId → Bytes}

theorem History.Got.more (hm : h.Got wrote m) (ha : h.arrived ⊆ h'.arrived) : h'.Got wrote m := by
  obtain ⟨h1, h2, x, hx, hfs⟩ := hm
  exact ⟨h1, h2, x, ha hx, hfs⟩

/-- The sender writes more. -/
theorem History.Got.grows (hm : g.Got h.wrote m) (hg : h.Grows h') : g.Got h'.wrote m := by
  obtain ⟨h1, h2, x, hx, fs, hfs, hmem⟩ := hm
  refine ⟨h1, h2.trans (hg.length_le m.id), x, hx, fs, hfs, ?_⟩
  rw [hg.frame h1 h2]
  exact hmem

/-- The bytes of the range. -/
theorem History.Got.byte (hm : h.Got wrote m) {x : ℕ} (hx : x ∈ m.offsets) : ∃ y ∈ h.arrived, ∃ fs frame,
    FrameParser.frames y.2.payload = .ok (.ok fs) ∧ .stream frame ∈ fs ∧ frame.id = m.id ∧ frame.offset ≤ x ∧
      x < frame.stop ∧ frame.data[x - frame.offset]? = (wrote m.id)[x]? := by
  obtain ⟨h1, h2, y, hy, fs, hfs, hmem⟩ := hm
  obtain ⟨hlo, hhi⟩ := hx
  have hlen : (m.frame (wrote m.id)).data.length = m.offsets.end - m.offsets.start := by
    rw [StreamMeta.frame, List.length_take, List.length_drop]
    omega
  refine ⟨y, hy, fs, _, hfs, hmem, rfl, hlo, ?_, ?_⟩
  · show x < m.offsets.start + (m.frame (wrote m.id)).data.length
    omega
  · show (((wrote m.id).drop m.offsets.start).take (m.offsets.end - m.offsets.start))[x - m.offsets.start]? = _
    rw [List.getElem?_take_of_lt (by omega), List.getElem?_drop, Nat.add_sub_cancel' hlo]

end Got

section Steps

variable {p p' q : Party} {op : ConnectionOp} {r r' : StreamsRun} {m : StreamMeta}

/-- **A range that is acknowledged has arrived.** The ACK frame is true, so a packet with its number has; both ends
number the packets alike, so it is the one in which the range was sent. -/
theorem acked_got (hp : p.Honest) (hc : p.Counted) (hq : q.Honest) (hB : q.Counts p) (hs : q.Sends op)
    (hd : op.Does p.conn r (.op (.receivedAckOf m))) : q.past.Got p.past.wrote m := by
  have hpacket : ∀ {w : ScheduledPacket} {packet : Packet}, w ∈ q.past.wire → packetOf w.packet = some packet →
      packet.Does p.conn (.op (.receivedAckOf m)) → q.past.Got p.past.wrote m := by
    intro w packet hw hdecode hdoes
    cases hdoes with
    | acked hread hranges hn hsent hm =>
        obtain ⟨fs, packet', hreads, htrue⟩ := hq.wire w hw
        obtain rfl := Option.some.inj (hreads.decode.symm.trans hdecode)
        obtain ⟨x, hx, rfl, hspace⟩ := (htrue _ (hread.mem hreads.spells)).2 _ hranges _ hn
        obtain ⟨v, hv, hnumber, hid, hmeta⟩ := hc.flight _ _ hsent
        obtain ⟨v', hv', hdecode', hnumber', hid'⟩ := hB.arrived x hx
        obtain rfl : v = v' := by
          refine hc.numbered.unique hv hv' ?_ (hnumber.trans hnumber'.symm)
          rw [hid, hid', hspace, hreads.space]
        obtain ⟨fs', packet'', hreads', -⟩ := hp.wire v hv
        obtain rfl := Option.some.inj (hreads'.decode.symm.trans hdecode')
        have hmem : m ∈ v.metaInfo.streamFrames := by
          dsimp only at hmeta
          rw [hmeta] at hm
          exact hm
        have hframe : Frame.stream (m.frame (p.past.wrote m.id)) ∈
            fs' ++ v.metaInfo.streamFrames.map fun m => .stream (m.frame (p.past.wrote m.id)) :=
          List.mem_append_right _ (List.mem_map.mpr ⟨m, hmem, rfl⟩)
        obtain ⟨h1, h2⟩ := hreads'.ranges m hmem
        refine ⟨h1, h2, x, hx, _, FrameParser.frames_of_spells hreads'.spells ?_, hframe⟩
        exact hreads'.spells.ne_nil (List.ne_nil_of_mem hframe)
  cases hd with
  | packet hdecode hdoes =>
      obtain ⟨w, hw, rfl⟩ := hs
      exact hpacket hw hdecode hdoes
  | first hdoes =>
      obtain ⟨w, hw, hdecode⟩ := hs
      exact hpacket hw hdecode hdoes
  | call hcall _ => cases op <;> cases hcall

/-- An act of the task is no call of the application. -/
theorem ConnectionOp.Does.call_none {c : Connection} {a : StreamsAct} (h : op.Does c r a) (ha : a.ofTask = true) :
    op.call c = none := by
  cases h with
  | sent | lost | packet | first => rfl
  | call hcall _ => cases op <;> cases hcall <;> cases ha

/-- Only an acknowledgement acknowledges. -/
theorem StreamsAct.mem_acknowledged {a : StreamsAct} {s : StreamsState} {acked : List StreamMeta}
    (h : m ∈ a.acknowledged s acked) : m ∈ acked ∨ a = .op (.receivedAckOf m) := by
  cases a with
  | told => exact .inl h
  | op o =>
      rcases List.mem_append.mp h with h | h
      · exact .inl (List.mem_of_mem_filter h)
      · cases o with
        | receivedAckOf => exact .inr (by rw [List.mem_singleton.mp h])
        | _ => cases h

/-! ## The books -/

/-- The books of the streams have only acknowledged ranges that have arrived, and the frames in flight are those of
streams that were begun. -/
structure StreamsRun.Settled (h : History) (got : StreamMeta → Prop) (r : StreamsRun) : Prop where
  ledger : ∃ acked, r.Ledger acked ∧ ∀ m ∈ acked, got m
  begun : ∀ m ∈ r.flight, (h.streams m.id).began = true

/-- What a party has released has arrived at its peer. -/
def Party.Settles (p q : Party) : Prop := ∃ r, Projects p.conn r ∧ r.Settled p.past (q.past.Got p.past.wrote)

/-- A send half is made for a stream that was not begun, and that has no frames in flight. -/
theorem ConnectionOp.Proper.unused (hop : op.Proper p) (hr : Projects p.conn r)
    (hb : ∀ m ∈ r.flight, (p.past.streams m.id).began = true) : op.Unused p.conn := by
  intro o ho m hm hmake
  have hbegan := hb m (hr.flight.mem_iff.mpr hm)
  have hnew : (p.past.streams m.id).began = false := by
    cases op with
    | openStream dir =>
        cases ho
        rw [show m.id = (p.conn.streams.open dir).1 from hmake]
        exact hop
    | write id data =>
        cases ho
        obtain ⟨rfl, hopen, hnone⟩ := hmake
        exact hop hopen hnone
    | finish | reset | setPriority | read | stop | takeReset =>
        cases ho
        cases hmake
    | _ => cases ho
  rw [hnew] at hbegan
  cases hbegan

/-- **A step of a party** keeps that what it has released has arrived. -/
theorem partyStep_settles (hp : p.Honest) (hc : p.Counted) (hq : q.Honest) (hB : q.Counts p) (hA : p.Settles q)
    (hs : q.Sends op) (hop : op.Proper p) (h : partyStep p op = .ok p') : p'.Settles q := by
  obtain ⟨r, hr, hsettled⟩ := hA
  have hgrows := partyStep_grows hp hop h
  obtain ⟨hstep, -⟩ := partyStep_eq_ok.mp h
  have hunused := hop.unused hr hsettled.begun
  -- one act
  have hact : ∀ r a r', (r.Settled p.past (q.past.Got p.past.wrote) ∧
      (op.call p.conn = none → ∀ i, SendHalf (p.past.streams i) (r.state.send i))) →
      a.Legal r ∧ op.Does p.conn r a → actStep r a = .ok r' → r'.Settled p.past (q.past.Got p.past.wrote) ∧
        (op.call p.conn = none → ∀ i, SendHalf (p.past.streams i) (r'.state.send i)) := by
    rintro r a r' ⟨⟨⟨acked, hledger, hgot⟩, hbegun⟩, hhalves⟩ ⟨hlegal, hdoes⟩ ha
    refine ⟨⟨⟨_, actStep_ledger hledger hlegal (hdoes.unused hunused) ha, fun m hm => ?_⟩, ?_⟩, ?_⟩
    · rcases StreamsAct.mem_acknowledged hm with hm | rfl
      · exact hgot m hm
      · exact acked_got hp hc hq hB hs hdoes
    · exact actStep_began hbegun (fun htask => hhalves (hdoes.call_none htask)) ha
    · exact fun hnone => actStep_halves (hhalves hnone) (hdoes.ofTask hnone) ha
  obtain ⟨r', hr', ⟨⟨acked, hledger, hgot⟩, hbegun⟩, -⟩ :=
    (connectionStep_refines hp.accounted hp.framed hstep).transport hact hr
      ⟨hsettled, fun _ i => by rw [hr.state]; exact hp.covers.halves i⟩
  exact ⟨r', hr', ⟨acked, hledger, fun m hm => (hgot m hm).grows hgrows⟩,
    fun m hm => (hgrows.streams m.id).began (hbegun m hm)⟩

/-- The peer takes a step. -/
theorem Party.Settles.peer (h : q.Settles p) (hg : p.past.Grows p'.past) : q.Settles p' := by
  obtain ⟨r, hr, ⟨acked, hledger, hgot⟩, hbegun⟩ := h
  exact ⟨r, hr, ⟨acked, hledger, fun m hm => (hgot m hm).more hg.arrived⟩, hbegun⟩

theorem Party.settles_new (now : Instant) (side : Side) (q : Party) : (Party.new now side).Settles q :=
  ⟨StreamsRun.new side, projects_new now side, ⟨[], StreamsRun.ledger_new side, nofun⟩, nofun⟩

end Steps

/-! ## Runs -/

/-- **What is released has arrived.** In every run of a client and a server whose applications make no send half a
second time and whose polls cut no range that they send, on a network that may lose, duplicate, delay and reorder
datagrams as long as none is overtaken by half a window of later ones and the first packet of a connection comes
before the others: each byte of a stream that is not reset is at one place at its sender, where it waits to be sent or
is in a STREAM frame that a packet, scheduled or in flight, has in its record, or it is at none, and then the peer has
accepted a packet with a STREAM frame that has this byte. -/
theorem released_arrived (start : Side → Instant) (ops : List (Side × ConnectionOp)) (f : Side → Party)
    (hm : Meets network.step (network.Legal fun p q op => op.Proper p ∧ op.Timely p q) (network.start start) ops)
    (h : run network.step (network.start start) ops = .ok f) (side : Side) (id : StreamId) (stream : Send)
    (hs : (f side).conn.streams.send id = some stream) (hlive : stream.state ≠ .resetSent) (x : ℕ)
    (hx : x < stream.pending.offset) :
    (f side).conn.copies id stream.pending x = 1 ∨
    (f side).conn.copies id stream.pending x = 0 ∧ ∃ y ∈ (f side.peer).past.arrived, ∃ fs frame,
      FrameParser.frames y.2.payload = .ok (.ok fs) ∧ .stream frame ∈ fs ∧ frame.id = id ∧ frame.offset ≤ x ∧
        x < frame.stop ∧ frame.data[x - frame.offset]? = ((f side).past.streams id).wrote[x]? := by
  have hrun := Exchange.run_inv (e := network) (L := fun _ p => p.Honest ∧ p.Counted)
    (V := fun _ p q => p.Counts q ∧ p.Settles q)
    (fun _ _ _ _ _ hp hop hs =>
      ⟨partyStep_honest hp.1 hop.1 hs, partyStep_counted hp.1.accounted hp.1.framed hp.2 hs⟩)
    (fun _ _ _ _ _ hp hq hA hB hsends hop hs => by
      obtain ⟨hmine, htheirs⟩ := partyStep_counts hp.1 hq.1 hp.2 hA.1 hB.1 hsends hop.1 hop.2 hs
      exact ⟨⟨hmine, partyStep_settles hp.1 hp.2 hq.1 hB.1 hA.2 hsends hop.1 hs⟩,
        htheirs, hB.2.peer (partyStep_grows hp.1 hop.1 hs)⟩)
    (fun i => ⟨Party.honest_new (start i) i, Party.counted_new (start i) i⟩)
    (fun i => ⟨Party.counts_new (start i) i _, Party.settles_new (start i) i _⟩) hm h side
  obtain ⟨r, hr, ⟨acked, hledger, hgot⟩, -⟩ := hrun.2.2
  have hone := (hledger.places hr hs hlive).2 x hx
  by_cases hcopies : (f side).conn.copies id stream.pending x = 0
  · refine .inr ⟨hcopies, ?_⟩
    rw [hcopies, zero_add] at hone
    obtain ⟨m, hmem, hm⟩ := List.countP_pos_iff.mp (hone ▸ Nat.one_pos)
    obtain ⟨rfl, hoffsets⟩ := of_decide_eq_true hm
    exact (hgot m hmem).byte hoffsets
  · exact .inl (by omega)

/-- Three bytes that were acknowledged are at no place any more, and have arrived. -/
theorem released_arrived_three : ∃ f : Side → Party, ∀ x < 3, ∃ y ∈ (f .server).past.arrived, ∃ fs frame,
    FrameParser.frames y.2.payload = .ok (.ok fs) ∧ .stream frame ∈ fs ∧ frame.id = ⟨0⟩ ∧ frame.offset ≤ x ∧
      x < frame.stop ∧ frame.data[x - frame.offset]? = ((f .client).past.streams ⟨0⟩).wrote[x]? := by
  let hello : InitialPacket := ⟨⟨fakeCid, fakeCid, [], .u8 0, 1⟩, [6, 0, 1, 0]⟩
  let late : Instant := 100000000
  let ops : List (Side × ConnectionOp) :=
    [(.client, .openStream .bi), (.client, .write ⟨0⟩ [1, 2, 3]), (.client, .pollTransmit 1), (.client, .sendOne 1),
      (.client, .sendOne 1), (.server, .handleFirstPacket 2 hello),
      (.server, .handleData 3 (txBytes .data (.u8 0) ++ [10, 0, 3, 1, 2, 3])), (.server, .pollTimers late),
      (.server, .pollTransmit late), (.server, .sendOne late), (.server, .sendOne late),
      (.client, .handleData late (txBytes .initial (.u8 0) ++ [2, 0, 112, 211, 0, 0, 6, 0, 1, 0])),
      (.client, .handleData late (txBytes .data (.u8 0) ++ [2, 0, 112, 211, 0, 0]))]
  obtain ⟨f, hf, hv⟩ := Checked.map_eq_ok.mp (show (fun f : Side → Party =>
      ((f .client).conn.streams.send ⟨0⟩).map fun stream => (stream.state, stream.pending.offset,
        (List.range 3).map fun x => (f .client).conn.copies ⟨0⟩ stream.pending x)) <$>
    run network.step (network.start fun _ => 0) ops = .ok (some (.ready, 3, [0, 0, 0])) by decide +kernel)
  obtain ⟨stream, hs, hv⟩ := Option.map_eq_some_iff.mp hv
  obtain ⟨hstate, hv⟩ := Prod.mk.inj hv
  obtain ⟨hoffset, hcopies⟩ := Prod.mk.inj hv
  refine ⟨f, fun x hx => ?_⟩
  have hnone : (f .client).conn.copies ⟨0⟩ stream.pending x = 0 := by
    have hmem := List.mem_map_of_mem (f := fun x => (f .client).conn.copies ⟨0⟩ stream.pending x)
      (List.mem_range.mpr hx)
    rw [hcopies] at hmem
    simpa using hmem
  rcases released_arrived (fun _ => 0) ops f (by decide +kernel) hf .client ⟨0⟩ stream hs
    (by rw [hstate]; exact nofun) x (by omega) with hone | ⟨-, harrived⟩
  · rw [hnone] at hone
    cases hone
  · exact harrived

end MzQuic
