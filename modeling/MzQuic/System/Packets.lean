import MzQuic.Connection.NumberSpace
import MzQuic.Connection.Numbering
import MzQuic.System.Sender

/-!
# What is on the wire is true

* `History.Says`: what each frame says of the history of its sender;
* `History.Spoken`: all frames of a packet are true; what was true stays so as the history grows;
* `History.Covers`: what a connection has for its packets is true, with `composePacket_spoken` and
  `pollTransmit_spoken`;
* `Party.Honest`, **`partyStep_honest`**: every step of a party keeps that all of its packets, in the queue and on the
  wire, are true.
-/

namespace MzQuic

open Lib Connection

/-! ## Frames and packets -/

/-- What happened is still in the history. -/
structure History.Grows (h h' : History) : Prop where
  streams : ∀ i, (h.streams i).Grows (h'.streams i)
  arrived : h.arrived ⊆ h'.arrived
  wire : h.wire ⊆ h'.wire

namespace History

/-- The packet with the number `n` has arrived in the space `id`. -/
def Received (h : History) (id : SpaceId) (n : ℕ) : Prop := ∃ x ∈ h.arrived, x.1 = n ∧ x.2.header.space = id

/-- What a frame of a packet of the space `id` says has happened at its sender: an ACK, that packets were received;
RESET_STREAM, that the application has reset the stream, and how much it had written; STOP_SENDING, that the receive
half was stopped; and STREAM, that its bytes were written there, and that the stream was finished with them if it has a
FIN. The other frames that are sent say nothing. -/
def Says (h : History) (id : SpaceId) : Frame → Prop
  | .padding | .ping | .crypto .. => True
  | .ack a => h.Received id a.largest ∧
      ∀ ranges, a.iter = .ok ranges → ∀ n ∈ ranges.flatMap rangeInclusive, h.Received id n
  | .resetStream f => f.errorCode ∈ (h.streams f.id).resets ∧ f.finalOffset = (h.streams f.id).wrote.length
  | .stopSending f => f.errorCode ∈ (h.streams f.id).stops
  | .stream f => f.data = ((h.streams f.id).wrote.drop f.offset).take f.data.length ∧
      f.stop ≤ (h.streams f.id).wrote.length ∧
      (f.fin = true → (h.streams f.id).finished = true ∧ f.stop = (h.streams f.id).wrote.length)
  | _ => False

/-- What is written to the streams. -/
def wrote (h : History) (i : StreamId) : Bytes := (h.streams i).wrote

/-- The peer reads the packet as frames that are true, with the STREAM frames that are noted of it. -/
def Spoken (h : History) (w : ScheduledPacket) : Prop :=
  ∃ fs packet, Reads h.wrote w fs packet ∧
    ∀ f ∈ fs ++ w.metaInfo.streamFrames.map fun m => .stream (m.frame (h.wrote m.id)), h.Says w.metaInfo.spaceId f

section Grows

variable {h h' : History} {id : SpaceId}

theorem Grows.received (hg : h.Grows h') {n : ℕ} (hr : h.Received id n) : h'.Received id n := by
  obtain ⟨x, hx, hn, hs⟩ := hr
  exact ⟨x, hg.arrived hx, hn, hs⟩

theorem Grows.length_le (hg : h.Grows h') (i : StreamId) : (h.wrote i).length ≤ (h'.wrote i).length :=
  (hg.streams i).wrote.length_le

/-- **What a frame has said stays true.** -/
theorem Grows.said (hg : h.Grows h') {f : Frame} (hf : h.Says id f) : h'.Says id f := by
  cases f with
  | padding | ping | crypto => trivial
  | ack a => exact ⟨hg.received hf.1, fun ranges hr n hn => hg.received (hf.2 ranges hr n hn)⟩
  | resetStream f =>
      obtain ⟨hcode, hsize⟩ := hf
      have hshut := (hg.streams f.id).shut (.inr (List.ne_nil_of_mem hcode))
      exact ⟨(hg.streams f.id).resets hcode, by rw [hshut]; exact hsize⟩
  | stopSending f => exact (hg.streams f.id).stops hf
  | stream f =>
      obtain ⟨hdata, hstop, hfin⟩ := hf
      refine ⟨hdata.trans ((hg.streams f.id).slice hstop).symm, hstop.trans (hg.length_le f.id), fun hx => ?_⟩
      obtain ⟨hfinished, hsize⟩ := hfin hx
      have hshut := (hg.streams f.id).shut (.inl hfinished)
      exact ⟨(hg.streams f.id).finished hfinished, by rw [hshut]; exact hsize⟩
  | _ => cases hf

/-- The frame of a range stays the same. -/
theorem Grows.frame (hg : h.Grows h') {m : StreamMeta} (hm : m.offsets.start ≤ m.offsets.end)
    (hle : m.offsets.end ≤ (h.wrote m.id).length) : m.frame (h'.wrote m.id) = m.frame (h.wrote m.id) := by
  have hslice := (hg.streams m.id).slice (show m.offsets.start + (m.offsets.end - m.offsets.start) ≤ _ by
    rw [Nat.add_sub_cancel' hm]
    exact hle)
  exact congrArg (Stream.mk m.id m.offsets.start m.fin) hslice

theorem Grows.frames (hg : h.Grows h') {w : ScheduledPacket} {fs : List Frame} {packet : Packet}
    (hr : Reads h.wrote w fs packet) : (w.metaInfo.streamFrames.map fun m => Frame.stream (m.frame (h'.wrote m.id))) =
      w.metaInfo.streamFrames.map fun m => Frame.stream (m.frame (h.wrote m.id)) :=
  List.map_congr_left fun m hm => by rw [hg.frame (hr.ranges m hm).1 (hr.ranges m hm).2]

/-- **A packet that was true stays true.** -/
theorem Grows.spoken (hg : h.Grows h') {w : ScheduledPacket} (hw : h.Spoken w) : h'.Spoken w := by
  obtain ⟨fs, packet, hr, htrue⟩ := hw
  refine ⟨fs, packet, ⟨hr.decode, hr.space, ?_, fun m hm => ⟨(hr.ranges m hm).1, ?_⟩⟩, ?_⟩
  · rw [hg.frames hr]
    exact hr.spells
  · exact (hr.ranges m hm).2.trans (hg.length_le m.id)
  · rw [hg.frames hr]
    exact fun f hf => hg.said (htrue f hf)

end Grows

/-! ## What there is for packets -/

/-- The application has made the request. -/
def Asked (h : History) : Request → Prop
  | .reset id errorCode => errorCode ∈ (h.streams id).resets
  | .stop frame => frame.errorCode ∈ (h.streams frame.id).stops

/-- What a connection has for its packets is as the history has it. -/
structure Covers (h : History) (c : Connection) : Prop where
  halves : ∀ id, SendHalf (h.streams id) (c.streams.send id)
  acks : ∀ id, ∀ n ∈ (c.spaces id).pendingAcks.ranges, h.Received id n
  owed : ∃ owed, Booked owed c ∧ ∀ request ∈ owed, h.Asked request

section Covers

variable {h : History} {c c' : Connection} {now : Instant} {id : SpaceId}

theorem Covers.wf (hc : h.Covers c) (i : StreamId) : ∀ stream ∈ c.streams.send i, stream.pending.WF (h.wrote i) :=
  (hc.halves i).wf

/-- The requests that wait were made. -/
theorem Covers.asked (hc : h.Covers c) {request : Request} (hr : request ∈ c.pendings .data) : h.Asked request := by
  obtain ⟨owed, hb, hasked⟩ := hc.owed
  refine hasked request ?_
  rw [← hb.requests]
  exact Multiset.mem_add.mpr (.inl (Multiset.mem_add.mpr (.inl hr)))

/-- **The frames that a connection has are true.** -/
theorem Covers.offered (hc : h.Covers c) {f : Frame} (hf : c.Offers id f) : h.Says id f := by
  cases hf with
  | ack hl hread => exact ⟨hc.acks id _ hl, fun ranges hr n hn => hc.acks id n (hread ranges hr n hn)⟩
  | hello | ping => trivial
  | @reset i errorCode stream hid hmem hs =>
      refine ⟨?_, (hc.wf i stream hs).offset⟩
      suffices hr : Request.reset i errorCode ∈ c.pendings .data from hc.asked hr
      exact Multiset.mem_add.mpr (.inl (Multiset.mem_coe.mpr (List.mem_map.mpr ⟨(i, errorCode), hmem, rfl⟩)))
  | @stop frame hid hmem =>
      suffices hr : Request.stop frame ∈ c.pendings .data from hc.asked hr
      exact Multiset.mem_add.mpr (.inr (Multiset.mem_coe.mpr (List.mem_map.mpr ⟨frame, hmem, rfl⟩)))

/-- **A packet that is composed is true**, if each range that it sends ends in its segment. -/
theorem composePacket_spoken {close ackEliciting : Bool} (hc : h.Covers c)
    (hw : close = false → id = .data → c.StreamsWhole now)
    (hcomp : composePacket now close c id ackEliciting = .ok c') :
    (∀ i, SendHalf (h.streams i) (c'.streams.send i)) ∧ Appended h.Spoken c c' := by
  obtain ⟨p, fs, packet, hq, hspace, -, hreads, hfs, hstreamed⟩ := composePacket_contents (fun _ => hc.wf) hw hcomp
  obtain ⟨hhalves, hfin⟩ : (∀ i, SendHalf (h.streams i) (c'.streams.send i)) ∧ ∀ m ∈ p.metaInfo.streamFrames,
      (h.streams m.id).began = true ∧
        (m.fin = true → (h.streams m.id).finished = true ∧ m.offsets.end = (h.streams m.id).wrote.length) := by
    rcases hstreamed with ⟨hs, hnil⟩ | ⟨buf, buf', hwrite⟩
    · rw [hs, hnil]
      exact ⟨hc.halves, nofun⟩
    · exact writeStreamFrames_halves hc.halves hwrite
  refine ⟨hhalves, .one hq ⟨fs, packet, hreads, fun f hf => ?_⟩⟩
  rcases List.mem_append.mp hf with hf | hf
  · rw [hspace]
    exact hc.offered (hfs f hf).1
  · obtain ⟨m, hm, rfl⟩ := List.mem_map.mp hf
    obtain ⟨hle, hend⟩ := hreads.ranges m hm
    have hlen : (m.frame (h.wrote m.id)).data.length = m.offsets.end - m.offsets.start := by
      rw [StreamMeta.frame, List.length_take, List.length_drop]
      omega
    have hstop : (m.frame (h.wrote m.id)).stop = m.offsets.end := by
      show m.offsets.start + (m.frame (h.wrote m.id)).data.length = _
      omega
    obtain ⟨-, hfin⟩ := hfin m hm
    refine ⟨?_, hstop.trans_le hend, fun hx => ⟨(hfin hx).1, hstop.trans (hfin hx).2⟩⟩
    rw [hlen]
    rfl

/-- The discarded Initial space had nothing for the others. -/
theorem Covers.discard (hc : h.Covers c) (hd : c.discardSpace id = .ok c') : h.Covers c' := by
  obtain ⟨owed, hb, hasked⟩ := hc.owed
  refine ⟨?_, fun i n hn => hc.acks i n ((discardSpace_unheard hd i).acks n hn), owed, hb.keeps (discardSpace_keeps hd),
    hasked⟩
  rw [discardSpace_streams hd]
  exact hc.halves

/-- A packet that is composed leaves the rest to be true. -/
theorem Covers.compose {close ackEliciting : Bool} (hc : h.Covers c)
    (hhalves : ∀ i, SendHalf (h.streams i) (c'.streams.send i))
    (hcomp : composePacket now close c id ackEliciting = .ok c') : h.Covers c' := by
  obtain ⟨owed, hb, hasked⟩ := hc.owed
  exact ⟨hhalves, fun i n hn => hc.acks i n ((composePacket_unheard hcomp i).acks n hn), owed,
    hb.keeps (composePacket_keeps (fun _ => hb.resetsKnown) hcomp), hasked⟩

/-- **A round of a poll** appends what is true. -/
theorem transmitSpace_spoken {close blocked : Bool} {s s' : Connection × Bool} (hc : h.Covers s.1)
    (hw : close = false → id = .data → s.1.composes false blocked .data = true → s.1.StreamsWhole now)
    (ht : transmitSpace now close blocked s id = .ok s') : h.Covers s'.1 ∧ Appended h.Spoken s.1 s'.1 := by
  obtain ⟨c₁, hc₁, hlast⟩ := transmitSpace_cases ht
  obtain ⟨hcovers, hwhole, hq⟩ : h.Covers c₁ ∧
      (close = false → id = .data → s.1.composes false blocked .data = true → c₁.StreamsWhole now) ∧
      c₁.path.sendingQueue = s.1.path.sendingQueue := by
    rcases hc₁ with rfl | ⟨rfl, hd⟩
    · exact ⟨hc, hw, rfl⟩
    · exact ⟨hc.discard hd, nofun, (discardSpace_waiting hd).queue⟩
  rcases hlast with ⟨-, he⟩ | ⟨hcomposes, hcomp⟩
  · rw [he]
    obtain ⟨owed, hb, hasked⟩ := hcovers.owed
    exact ⟨⟨hcovers.halves, hcovers.acks, owed, hb.keeps (.of_book rfl (.of_eq rfl)), hasked⟩, .of_eq hq⟩
  · have hcut : close = false → id = .data → c₁.StreamsWhole now := by
      rintro rfl rfl
      exact hwhole rfl rfl hcomposes
    obtain ⟨hhalves, happ⟩ := composePacket_spoken hcovers hcut hcomp
    exact ⟨hcovers.compose hhalves hcomp, (Appended.of_eq hq).trans happ⟩

/-- **A poll appends what is true.** -/
theorem pollTransmit_spoken {more : Bool} (hc : h.Covers c) (hw : c.SendsWhole now)
    (hp : c.pollTransmit now = .ok (more, c')) : Appended h.Spoken c c' := by
  refine pollTransmit_appended (I := h.Covers)
    (Q := fun close s id => close = false → id = .data →
      s.1.composes false (c.path.inFlight.bytes ≥ c.path.congestion.window) .data = true → s.1.StreamsWhole now) hc
    (fun close hpolls => ?_) (fun close s id s' _ hs hok hround => transmitSpace_spoken hs hok hround) hp
  refine ⟨nofun, fun s₁ h1 => ⟨nofun, fun s₂ h2 => ⟨?_, fun _ _ => trivial⟩⟩⟩
  -- the other rounds leave the data space as it was
  rintro rfl - hcomposes
  have hsame := (transmitSpace_same (i := .data) (by decide) (by decide) (by decide) h1).trans
    (transmitSpace_same (by decide) (by decide) (by decide) h2)
  rw [hsame.composes] at hcomposes
  exact (hw hpolls hcomposes).congr hsame

end Covers

end History

/-! ## Steps -/

/-- The packets that a step accepts, with their numbers. -/
def ConnectionOp.arrivals (c : Connection) : ConnectionOp → List (ℕ × Packet)
  | .handleData _ data => c.arrivals data
  | .handleFirstPacket _ packet => [(packet.header.number.expand 0, packet.toPacket)]
  | _ => []

namespace History

variable {h h' : History} {c : Connection} {op : ConnectionOp}

/-- A call of the application concerns the streams alone. -/
theorem note_call (hop : op.isCall = true) (hn : h.note c op = .ok h') :
    ∃ streams, h' = { h with streams := streams } := by
  cases op with
  | pollTransmit | sendOne | pollTimers | handleData | handleFirstPacket | close => cases hop
  | openStream | setPriority =>
      cases hn
      exact ⟨_, rfl⟩
  | write id data =>
      dsimp only [note] at hn
      split at hn
      · cases hn
        exact ⟨_, rfl⟩
      · split at hn <;> cases hn <;> exact ⟨_, rfl⟩
  | finish id | reset id errorCode | takeReset id =>
      dsimp only [note] at hn
      split at hn <;> cases hn <;> exact ⟨_, rfl⟩
  | read id lengths =>
      obtain ⟨heard, -, hn⟩ := Checked.bind_eq_ok.mp hn
      cases hn
      exact ⟨_, rfl⟩
  | stop id errorCode =>
      obtain ⟨⟨res, q⟩, -, hn⟩ := Checked.bind_eq_ok.mp hn
      cases res <;> cases hn <;> exact ⟨_, rfl⟩

/-- What has arrived after a step. -/
theorem note_arrived (hn : h.note c op = .ok h') : h'.arrived = h.arrived ++ op.arrivals c := by
  cases op with
  | pollTransmit | sendOne | pollTimers | close =>
      cases hn
      exact (List.append_nil _).symm
  | handleData | handleFirstPacket =>
      cases hn
      rfl
  | _ =>
      obtain ⟨streams, rfl⟩ := note_call rfl hn
      exact (List.append_nil _).symm

/-- The packet that a step puts on the wire. -/
theorem note_wire (hn : h.note c op = .ok h') : h'.wire = h.wire ∧ op.sends = false ∨
    (∃ now, op = .pollTransmit now) ∧ h'.wire = h.wire ∨
    (∃ t, op = .sendOne t) ∧ h'.wire = h.wire ++ c.path.sendingQueue.head?.toList := by
  cases op with
  | pollTransmit now =>
      cases hn
      exact .inr (.inl ⟨⟨now, rfl⟩, rfl⟩)
  | sendOne t =>
      cases hn
      exact .inr (.inr ⟨⟨t, rfl⟩, rfl⟩)
  | pollTimers | close | handleData | handleFirstPacket =>
      cases hn
      exact .inl ⟨rfl, rfl⟩
  | _ =>
      obtain ⟨streams, rfl⟩ := note_call rfl hn
      exact .inl ⟨rfl, rfl⟩

end History

section Acks

variable {c c' : Connection} {now : Instant} {id : SpaceId}

/-- The number of a packet that is authenticated is one more to acknowledge. -/
theorem onPacketAuthenticated_acks {number : Option ℕ} (h : c.onPacketAuthenticated now id number = .ok c') :
    ∀ i, ∀ n ∈ (c'.spaces i).pendingAcks.ranges, n ∈ (c.spaces i).pendingAcks.ranges ∨ number = some n ∧ i = id := by
  have hkeep : ∀ {x x' : Connection}, Unheard x x' → (∀ i, ∀ n ∈ (x.spaces i).pendingAcks.ranges,
      n ∈ (c.spaces i).pendingAcks.ranges ∨ number = some n ∧ i = id) → ∀ i, ∀ n ∈ (x'.spaces i).pendingAcks.ranges,
        n ∈ (c.spaces i).pendingAcks.ranges ∨ number = some n ∧ i = id :=
    fun hu hx i n hn => hx i n ((hu i).acks n hn)
  refine onPacketAuthenticated_inv (I := fun x => ∀ i, ∀ n ∈ (x.spaces i).pendingAcks.ranges,
    n ∈ (c.spaces i).pendingAcks.ranges ∨ number = some n ∧ i = id)
    (fun x hd => hkeep (discardSpace_unheard hd) fun i n hn => .inl hn) ?_ (fun x hx => hx)
    (fun x hx => hkeep (.of_update rfl (.of_eq rfl rfl)) hx) h (fun i n hn => .inl hn)
  intro x m hx hm
  refine (Function.forall_update_iff x.spaces fun i space => ∀ n ∈ space.pendingAcks.ranges,
    n ∈ (c.spaces i).pendingAcks.ranges ∨ number = some n ∧ i = id).mpr ⟨fun n hn => ?_, fun i _ => hx i⟩
  rw [packetReceived_ranges] at hn
  rcases PendingAcks.mem_insertOne hn with rfl | hn
  · exact .inr ⟨hm, rfl⟩
  · exact hx id n hn

theorem handleData_acks {data : Bytes} (h : c.handleData now data = .ok c') (i : SpaceId) :
    ∀ n ∈ (c'.spaces i).pendingAcks.ranges, n ∈ (c.spaces i).pendingAcks.ranges ∨
      ∃ packet, (n, packet) ∈ c.arrivals data ∧ packet.header.space = i := by
  intro n hn
  rcases handleData_cases h with ⟨-, rfl⟩ | ⟨packet, hp, ⟨-, rfl⟩ | ⟨ha, c₁, res, h1, h2, rfl⟩⟩
  · exact .inl hn
  · exact .inl ((Unheard.of_update rfl (.of_eq rfl rfl) : Unheard c (c.screened packet.header)) i |>.acks n hn)
  · have hscreened : Unheard c (c.screened packet.header) := .of_update rfl (.of_eq rfl rfl)
    have hn₁ := ((processPacket_unheard h2).trans (afterPacket_unheard now _ _ res) i).acks n hn
    rcases authenticate_cases h1 with ⟨-, rfl⟩ | ⟨hopen, h1⟩
    · exact .inl ((hscreened i).acks n hn₁)
    · rcases onPacketAuthenticated_acks h1 i n hn₁ with hn₀ | ⟨hnumber, rfl⟩
      · exact .inl ((hscreened i).acks n hn₀)
      · refine .inr ⟨packet, ?_, rfl⟩
        unfold Connection.arrivals
        rw [hp]
        dsimp only
        rw [if_pos ⟨ha, hopen⟩, hnumber]
        exact List.mem_cons_self

/-- **What there is to acknowledge after a step** was there before, or has just arrived. -/
theorem connectionStep_acks {op : ConnectionOp} (h : connectionStep c op = .ok c') (i : SpaceId) :
    ∀ n ∈ (c'.spaces i).pendingAcks.ranges, n ∈ (c.spaces i).pendingAcks.ranges ∨
      ∃ packet, (n, packet) ∈ op.arrivals c ∧ packet.header.space = i := by
  intro n hn
  cases op with
  | handleData now data => exact handleData_acks h i n hn
  | handleFirstPacket now packet =>
      obtain ⟨⟨r, c₁⟩, h1, h⟩ := Checked.bind_eq_ok.mp h
      cases h
      obtain ⟨c₂, h2, h1⟩ := Checked.bind_eq_ok.mp h1
      rcases onPacketAuthenticated_acks h2 i n ((processPacket_unheard h1 i).acks n hn) with hn | ⟨hnumber, rfl⟩
      · exact .inl hn
      · cases hnumber
        exact .inr ⟨packet.toPacket, List.mem_cons_self, rfl⟩
  | _ => exact .inl ((connectionStep_unheard rfl h i).acks n hn)

end Acks

/-! ## Requests -/

section Requests

variable {h h' : History} {c c' : Connection} {op : ConnectionOp}

/-- What waits to be sent does not decide about a reset. -/
theorem StreamsState.reset_accepts (s : StreamsState) (pending pending' : Retransmits) (id : StreamId) (errorCode : ℕ) :
    (s.reset pending id errorCode).1 = (s.reset pending' id errorCode).1 := by
  unfold reset
  cases s.send id with
  | none => rfl
  | some stream =>
      dsimp only
      split_ifs <;> rfl

/-- **A request that a step enters in the book was made.** -/
theorem History.note_asked (hn : h.note c op = .ok h') : ∀ request ∈ c.accepted op, h'.Asked request := by
  intro request hr
  cases op with
  | reset id errorCode =>
      unfold accepted at hr
      dsimp only [note] at hn hr
      rw [c.streams.reset_accepts _ {} id errorCode] at hr
      split at hn
      next hok =>
        rw [hok] at hr
        cases hn
        obtain rfl := Multiset.mem_singleton.mp hr
        show errorCode ∈ ((h.modify id _).streams id).resets
        rw [modify_self]
        exact List.mem_append_right _ List.mem_cons_self
      next herr =>
        rw [herr] at hr
        exact absurd hr (Multiset.notMem_zero _)
  | stop id errorCode =>
      obtain ⟨⟨res, q⟩, hstop, hn⟩ := Checked.bind_eq_ok.mp hn
      unfold accepted at hr
      unfold StreamsState.stop at hstop
      dsimp only at hr
      cases hrecv : c.streams.recv id with
      | none =>
          rw [hrecv] at hr
          exact absurd hr (Multiset.notMem_zero _)
      | some stream =>
          rw [hrecv] at hr hstop
          obtain ⟨⟨res', stream'⟩, hs, hstop⟩ := Checked.bind_eq_ok.mp hstop
          dsimp only at hr
          rw [hs] at hr
          match res' with
          | .error e => exact absurd hr (Multiset.notMem_zero _)
          | .ok (n, false) => exact absurd hr (Multiset.notMem_zero _)
          | .ok (n, true) =>
              cases hstop
              cases hn
              obtain rfl := Multiset.mem_singleton.mp hr
              show errorCode ∈ ((h.modify id _).streams id).stops
              rw [modify_self]
              exact List.mem_append_right _ List.mem_cons_self
  | _ => exact absurd hr (Multiset.notMem_zero _)

/-- The first packet of a server has nothing to settle but what it acknowledges. -/
theorem connectionStep_owed {owed : Multiset Request} (hb : Booked owed c) (ha : Accounted c.core)
    (hk : op.keepsResets c = true) (hstep : connectionStep c op = .ok c') :
    ∃ owed', Booked owed' c' ∧ ∀ request ∈ owed', request ∈ owed ∨ request ∈ c.accepted op := by
  cases hop : op.inTask with
  | true =>
      exact ⟨_, connectionStep_booked hb ha hop hk hstep, fun request hr =>
        Multiset.mem_add.mp (Multiset.mem_of_le tsub_le_self hr)⟩
  | false =>
      cases op with
      | handleFirstPacket now packet =>
          obtain ⟨⟨r, c₁⟩, h1, hstep⟩ := Checked.bind_eq_ok.mp hstep
          cases hstep
          obtain ⟨c₂, h2, h1⟩ := Checked.bind_eq_ok.mp h1
          exact ⟨_, processPacket_booked (hb.keeps (onPacketAuthenticated_keeps h2)) h1, fun request hr =>
            .inl (Multiset.mem_of_le tsub_le_self hr)⟩
      | _ => cases hop

end Requests

/-! ## Parties -/

/-- A packet that a step is given was put on the wire by the peer. -/
theorem Party.Sends.brings {q : Party} {op : ConnectionOp} (hs : q.Sends op) {packet : Packet} (hb : op.Brings packet) :
    ∃ w ∈ q.past.wire, packetOf w.packet = some packet := by
  cases op with
  | handleData now data =>
      obtain ⟨w, hw, rfl⟩ := hs
      exact ⟨w, hw, hb⟩
  | handleFirstPacket now first =>
      obtain ⟨w, hw, hp⟩ := hs
      exact ⟨w, hw, by rw [hp, show first.toPacket = packet from hb]⟩
  | _ => cases hb

/-- What a party has to send, and what it has sent, is true. -/
structure Party.Honest (p : Party) : Prop where
  accounted : Accounted p.conn.core
  framed : Framed p.conn.core
  covers : p.past.Covers p.conn
  queue : ∀ w ∈ p.conn.path.sendingQueue, p.past.Spoken w
  wire : ∀ w ∈ p.past.wire, p.past.Spoken w

section Parties

variable {p p' : Party} {op : ConnectionOp}

/-- **The history of a party grows.** -/
theorem partyStep_grows (hp : p.Honest) (hop : op.Proper p) (h : partyStep p op = .ok p') : p.past.Grows p'.past := by
  obtain ⟨-, hn⟩ := partyStep_eq_ok.mp h
  refine ⟨(partyStep_sends hp.accounted hp.framed hp.covers.halves hop h).2, ?_, ?_⟩
  · rw [History.note_arrived hn]
    exact List.subset_append_left _ _
  · rcases History.note_wire hn with ⟨hw, -⟩ | ⟨-, hw⟩ | ⟨-, hw⟩
    · rw [hw]
      exact List.Subset.refl _
    · rw [hw]
      exact List.Subset.refl _
    · rw [hw]
      exact List.subset_append_left _ _

/-- A stream whose reset is not settled was begun, and is not opened again. -/
theorem ConnectionOp.Proper.keepsResets {owed : Multiset Request} (hop : op.Proper p) (hb : Booked owed p.conn)
    (hc : p.past.Covers p.conn) : op.keepsResets p.conn = true := by
  cases op with
  | openStream dir =>
      refine decide_eq_true fun request hr => ?_
      rw [hb.requests] at hr
      cases request with
      | stop frame => rfl
      | reset id errorCode =>
          refine decide_eq_false ?_
          rintro rfl
          obtain ⟨stream, hs, -⟩ := hb.known _ _ hr
          have hbegan := (hc.halves (p.conn.streams.open dir).1).began (by rw [hs]; exact Option.some_ne_none _)
          rw [show (p.past.streams (p.conn.streams.open dir).1).began = false from hop] at hbegan
          cases hbegan
  | _ => rfl

theorem partyStep_covers (hp : p.Honest) (hop : op.Proper p) (h : partyStep p op = .ok p') :
    p'.past.Covers p'.conn := by
  have hgrows := partyStep_grows hp hop h
  have hsends := partyStep_sends hp.accounted hp.framed hp.covers.halves hop h
  obtain ⟨hc, hn⟩ := partyStep_eq_ok.mp h
  refine ⟨hsends.1, fun id n hmem => ?_, ?_⟩
  · rcases connectionStep_acks hc id n hmem with hold | ⟨packet, hnew, hspace⟩
    · exact hgrows.received (hp.covers.acks id n hold)
    · refine ⟨(n, packet), ?_, rfl, hspace⟩
      rw [History.note_arrived hn]
      exact List.mem_append_right _ hnew
  · obtain ⟨owed, hb, hasked⟩ := hp.covers.owed
    obtain ⟨owed', hb', howed⟩ := connectionStep_owed hb hp.accounted (hop.keepsResets hb hp.covers) hc
    refine ⟨owed', hb', fun request hr => ?_⟩
    rcases howed request hr with hr | hr
    · cases request with
      | reset id errorCode => exact (hgrows.streams id).resets (hasked _ hr)
      | stop frame => exact (hgrows.streams frame.id).stops (hasked _ hr)
    · exact History.note_asked hn request hr

/-- The packets that wait after a step waited before it, or are true. -/
theorem partyStep_queue (hp : p.Honest) (hop : op.Proper p) (h : partyStep p op = .ok p') :
    ∀ w ∈ p'.conn.path.sendingQueue, p'.past.Spoken w := by
  have hgrows := partyStep_grows hp hop h
  obtain ⟨hc, hn⟩ := partyStep_eq_ok.mp h
  intro w hw
  rcases History.note_wire hn with ⟨-, hno⟩ | ⟨⟨now, rfl⟩, -⟩ | ⟨⟨t, rfl⟩, -⟩
  · rw [(connectionStep_waiting hno hc).queue] at hw
    exact hgrows.spoken (hp.queue w hw)
  · obtain ⟨⟨more, c₁⟩, h1, hc⟩ := Checked.bind_eq_ok.mp hc
    cases hc
    obtain ⟨new, hnew, htrue⟩ := History.pollTransmit_spoken hp.covers hop h1
    rw [hnew] at hw
    rcases List.mem_append.mp hw with hw | hw
    · exact hgrows.spoken (hp.queue w hw)
    · exact hgrows.spoken (htrue w hw)
  · have hq : p'.conn.path.sendingQueue = p.conn.path.sendingQueue.tail := by
      rw [← (sendOne_takes p.conn t).1, ← Except.ok.inj hc]
    rw [hq] at hw
    exact hgrows.spoken (hp.queue w (List.mem_of_mem_tail hw))

/-- **Every step of a party** keeps that all its packets, in the queue and on the wire, are true. -/
theorem partyStep_honest (hp : p.Honest) (hop : op.Proper p) (h : partyStep p op = .ok p') : p'.Honest := by
  have hgrows := partyStep_grows hp hop h
  obtain ⟨hc, hn⟩ := partyStep_eq_ok.mp h
  obtain ⟨ha, hf⟩ := connectionStep_framed hp.accounted hp.framed hc
  refine ⟨ha, hf, partyStep_covers hp hop h, partyStep_queue hp hop h, fun w hw => hgrows.spoken ?_⟩
  rcases History.note_wire hn with ⟨he, -⟩ | ⟨-, he⟩ | ⟨-, he⟩
  · rw [he] at hw
    exact hp.wire w hw
  · rw [he] at hw
    exact hp.wire w hw
  · rw [he] at hw
    rcases List.mem_append.mp hw with hw | hw
    · exact hp.wire w hw
    · exact hp.queue w (List.mem_of_mem_head? (Option.mem_toList.mp hw))

/-- A fresh party has nothing to send. -/
theorem Party.honest_new (now : Instant) (side : Side) : (Party.new now side).Honest where
  accounted := accounted_new now side
  framed := framed_new now side
  covers := by
    refine ⟨Party.recorded_new now side, fun id n hn => ?_, 0, booked_new now side, fun _ hr =>
      absurd hr (Multiset.notMem_zero _)⟩
    cases side <;> cases id <;> exact absurd hn (ArrayRangeSet.notMem_new n)
  queue := by
    cases side <;> nofun
  wire := nofun

/-- A party stays honest, whatever arrives. -/
theorem party_honest (now : Instant) (side : Side) (ops : List ConnectionOp) (p : Party)
    (hm : Meets partyStep (fun p op => op.Proper p) (Party.new now side) ops)
    (h : run partyStep (Party.new now side) ops = .ok p) : p.Honest :=
  run_inv (fun _ _ _ hp hop hs => partyStep_honest hp hop hs) (Party.honest_new now side) hm h

/-- **What is on the wire is true.** In every run of a party whose application makes no send half a second time and
whose polls cut no range that they send, with any datagrams for its input, each packet that was put on the wire is
read as a packet of its space, without payload or with frames, and each of the frames says what has happened: which
packets arrived, which bytes were written where, where a finished or reset stream ends, and what the application has
asked for. -/
theorem wire_true (now : Instant) (side : Side) (ops : List ConnectionOp) (p : Party)
    (hm : Meets partyStep (fun p op => op.Proper p) (Party.new now side) ops)
    (h : run partyStep (Party.new now side) ops = .ok p) : ∀ w ∈ p.past.wire, ∃ packet,
      packetOf w.packet = some packet ∧ packet.header.space = w.metaInfo.spaceId ∧
      (packet.payload = [] ∨ ∃ fs, FrameParser.frames packet.payload = .ok (.ok fs) ∧
        ∀ f ∈ fs, p.past.Says w.metaInfo.spaceId f) := by
  intro w hw
  obtain ⟨fs, packet, hreads, htrue⟩ := (party_honest now side ops p hm h).wire w hw
  refine ⟨packet, hreads.decode, hreads.space, ?_⟩
  by_cases hnil : packet.payload = []
  · exact .inl hnil
  · exact .inr ⟨_, FrameParser.frames_of_spells hreads.spells hnil, htrue⟩

/-- A client writes three bytes, and they are on the wire. -/
theorem wire_true_write : ∃ p : Party, p.past.wire.length = 2 ∧ ∀ w ∈ p.past.wire, ∃ packet,
    packetOf w.packet = some packet ∧ packet.header.space = w.metaInfo.spaceId ∧
    (packet.payload = [] ∨ ∃ fs, FrameParser.frames packet.payload = .ok (.ok fs) ∧
      ∀ f ∈ fs, p.past.Says w.metaInfo.spaceId f) := by
  let ops : List ConnectionOp := [.openStream .bi, .write ⟨0⟩ [1, 2, 3], .pollTransmit 1, .sendOne 1, .sendOne 1]
  obtain ⟨p, hp, hv⟩ := Checked.map_eq_ok.mp (show (fun p : Party => p.past.wire.length) <$>
    run partyStep (Party.new 0 .client) ops = .ok 2 by decide +kernel)
  exact ⟨p, hv, wire_true 0 .client ops p (by decide +kernel) hp⟩

end Parties

end MzQuic
