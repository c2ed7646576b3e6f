import MzQuic.Connection.Inner
import MzQuic.Proto.Encode

/-!
# Which packets ask for an ACK

`handle_data` counts a packet as ACK-eliciting before it reads the frames of it.

* `Unasked`: a space asks for no more ACKs than before;
* `Inner.unasked`, `processPacket_unasked`: frames that elicit no ACK ask for none;
* `onPacketAuthenticated_counter`: the packet itself does;
* **`ack_only_unasked`**: a packet of such frames asks for nothing if and only if it is dropped.
-/

namespace MzQuic

open Lib

namespace Connection

/-- Whether the packet is dropped before it is counted: it has no number, or is a duplicate, or comes
with a short header during the handshake. -/
def Drops (c : Connection) (header : Header) : Prop :=
  match header.number with
  | none => True
  | some n => ((c.spaces header.space).dedup.insert (n.expand ((c.spaces header.space).rxPacket + 1))).1 = true ∨
      (c.state.isHandshake = true ∧ header.isShort = true)

theorem drops_iff (c : Connection) (header : Header) :
    c.Drops header ↔ header.number = none ∨ c.accepts header = false := by
  unfold Drops accepts screen arrival
  cases header.number with
  | none => simp
  | some n =>
      dsimp only [Option.map_some]
      rw [Bool.and_eq_false_iff, Bool.not_eq_false', Bool.not_eq_false', Bool.and_eq_true]
      simp

/-- A space asks for no more ACKs than before, and no delayed ACK is armed. -/
structure Unasked (id : SpaceId) (c c' : Connection) : Prop where
  counter : (c'.spaces id).pendingAcks.ackElicitingSinceLastAckSent =
    (c.spaces id).pendingAcks.ackElicitingSinceLastAckSent
  immediate : (c'.spaces id).pendingAcks.immediateAckRequired =
    (c.spaces id).pendingAcks.immediateAckRequired
  timer : ∀ t, c'.timers.data .maxAckDelay = some t → c.timers.data .maxAckDelay = some t

section Unasked

variable {i : SpaceId} {c c' : Connection} {id : SpaceId} {now : Instant}

theorem Unasked.refl (i : SpaceId) (c : Connection) : Unasked i c c := ⟨rfl, rfl, fun _ h => h⟩

theorem Unasked.trans {c₁ c₂ c₃ : Connection} (h : Unasked i c₁ c₂) (h' : Unasked i c₂ c₃) : Unasked i c₁ c₃ :=
  ⟨h'.counter.trans h.counter, h'.immediate.trans h.immediate, fun t ht => h.timer t (h'.timer t ht)⟩

/-- What loss detection and acknowledgements change does not ask for an ACK. -/
theorem Inner.unasked {b : Bool} (h : Inner b c c') : Unasked i c c' where
  counter := (h.spaces i).counter
  immediate := (h.spaces i).immediate
  timer := fun t ht => by rwa [← h.timers .maxAckDelay (.inl (by decide))]

/-- The number of a packet is seen. -/
theorem unasked_dedup (c : Connection) (id : SpaceId) (d : Dedup) :
    Unasked i c (c.modifySpace id fun s => { s with dedup := d }) := by
  have hspaces := forall_modifySpace (P := fun i x => x.pendingAcks = (c.spaces i).pendingAcks) c id
    (fun s => { s with dedup := d }) rfl fun _ _ => rfl
  exact ⟨by rw [hspaces i], by rw [hspaces i], fun _ h => h⟩

/-- A closed connection has no delayed ACK. -/
theorem closeCommon_maxAckDelay (c : Connection) : c.closeCommon.timers.data .maxAckDelay = none := rfl

theorem unasked_kill (c : Connection) (reason : ConnectionError) : Unasked i c (c.kill reason) :=
  ⟨rfl, rfl, fun t ht => absurd (ht.symm.trans (closeCommon_maxAckDelay c)) (Option.some_ne_none t)⟩

theorem unasked_afterPacket (now : Instant) (wasClosed wasDrained : Bool)
    (res : Except ConnectionError Unit × Connection) :
    Unasked i res.2 (afterPacket now wasClosed wasDrained res) := by
  obtain ⟨r, c⟩ := res
  have hclosed : ∀ t, c.closeCommon.timers.data .maxAckDelay = some t → c.timers.data .maxAckDelay = some t :=
    fun t ht => absurd (ht.symm.trans (closeCommon_maxAckDelay c)) (Option.some_ne_none t)
  unfold afterPacket
  dsimp only
  cases r <;> dsimp only <;> split_ifs <;>
    exact ⟨rfl, rfl, by first | exact fun _ h => h | exact hclosed⟩

/-! ## Frames -/

/-- **What the handling of some frames keeps, a packet of such frames keeps.** -/
theorem Walk.inv {handle : Connection → Frame → Handled} {P : Frame → Prop} {I : Connection → Prop}
    (hh : ∀ c f r c', P f → I c → handle c f = .ok (r, c') → I c') {n : ℕ} {p : FrameParser}
    {items : List (Except TransportError Frame × ℕ)} {done : Bool} (he : p.exhaust n = .ok (items, done))
    (hP : ∀ f, .ok f ∈ items.map Prod.fst → P f) {r : Except TransportError Unit}
    (hw : Walk handle n p c r c') (hI : I c) : I c' := by
  -- a frame that is handled is the first one of the items
  have hfirst : ∀ {n : ℕ} {p p' : FrameParser} {frame : Frame} {items done}, p.exhaust (n + 1) = .ok (items, done) →
      p.next = .ok (some (.ok frame), p') →
      ∃ k items', items = (.ok frame, k) :: items' ∧ p'.exhaust n = .ok (items', done) := by
    intro n p p' frame items done he hn
    unfold FrameParser.exhaust at he
    rw [hn, Checked.ok_bind] at he
    obtain ⟨⟨items', done'⟩, he', he⟩ := Checked.bind_eq_ok.mp he
    cases he
    exact ⟨_, items', rfl, he'⟩
  induction hw generalizing items done with
  | out => exact hI
  | ended _ => exact hI
  | malformed _ => exact hI
  | rejected hn h =>
      obtain ⟨k, items', rfl, -⟩ := hfirst he hn
      exact hh _ _ _ _ (hP _ List.mem_cons_self) hI h
  | closed hn h =>
      obtain ⟨k, items', rfl, -⟩ := hfirst he hn
      exact hh _ _ _ _ (hP _ List.mem_cons_self) hI h
  | next hn h _ ih =>
      obtain ⟨k, items', rfl, he'⟩ := hfirst he hn
      exact ih he' (fun f hf => hP f (List.mem_cons_of_mem _ hf)) (hh _ _ _ _ (hP _ List.mem_cons_self) hI h)

theorem processFrames_inv {handle : Connection → Frame → Handled} {I : Connection → Prop} {payload : Bytes}
    {frames : List Frame} (hf : FrameParser.frames payload = .ok (.ok frames))
    (hh : ∀ c, ∀ f ∈ frames, ∀ r c', I c → handle c f = .ok (r, c') → I c')
    {r : Except TransportError Unit} (h : c.processFrames payload handle = .ok (r, c')) (hI : I c) : I c' := by
  obtain ⟨p, items, done, hp, he, hm⟩ := FrameParser.frames_ok hf
  unfold processFrames at h
  rw [hp] at h
  refine (frameLoop_walk h).inv (P := (· ∈ frames)) (fun c f r c' hf => hh c f hf r c') he (fun f hf => ?_) hI
  rw [hm] at hf
  obtain ⟨g, hg, e⟩ := List.mem_map.mp hf
  cases e
  exact hg

theorem handleEarlyFrame_unasked {frame : Frame} (hf : frame.isAckEliciting = false)
    {r : Except TransportError Bool} (h : handleEarlyFrame now id c frame = .ok (r, c')) :
    Unasked i c c' := by
  cases frame with
  | ack ack =>
      obtain ⟨⟨r, c₁⟩, h1, h⟩ := Checked.bind_eq_ok.mp h
      cases h
      exact (onAckReceived_inner h1).unasked
  | close reason =>
      cases h
      exact unasked_kill c _
  | padding =>
      cases h
      exact .refl i c
  | _ => cases hf

theorem handleFrame_unasked {frame : Frame} (hf : frame.isAckEliciting = false) {payloadLen : ℕ}
    {r : Except TransportError Bool} (h : handleFrame now id payloadLen c frame = .ok (r, c')) :
    Unasked i c c' := by
  cases frame with
  | ack ack =>
      obtain ⟨⟨r, c₁⟩, h1, h⟩ := Checked.bind_eq_ok.mp h
      cases h
      exact (onAckReceived_inner h1).unasked
  | close reason =>
      cases h
      exact unasked_kill c _
  | padding =>
      cases h
      exact .refl i c
  | _ => cases hf

/-- **Frames that elicit no ACK ask for none.** -/
theorem processPacket_unasked {number : Option ℕ} {packet : Packet} {frames : List Frame}
    (hf : FrameParser.frames packet.payload = .ok (.ok frames))
    (hne : ∀ f ∈ frames, f.isAckEliciting = false) {r : Except ConnectionError Unit}
    (h : c.processPacket now number packet = .ok (r, c')) : Unasked i c c' := by
  rcases processPacket_cases h with ⟨r', -, h1, -⟩ | ⟨-, -, -, rfl⟩ | ⟨n, r', -, -, h1, -⟩
  · exact processFrames_inv (I := Unasked i c) hf
      (fun _ f hm _ _ hI h => hI.trans (handleEarlyFrame_unasked (hne f hm) h)) h1 (.refl i c)
  · exact .refl i c'
  · exact processFrames_inv (I := Unasked i c) hf
      (fun _ f hm _ _ hI h => hI.trans (handleFrame_unasked (hne f hm) h)) h1 (.refl i c)

/-! ## The packet -/

theorem packetReceived_counter (a : PendingAcks) (now : Instant) (n : ℕ) (dedup : Dedup) :
    (a.packetReceived now n true dedup).2.ackElicitingSinceLastAckSent =
      a.ackElicitingSinceLastAckSent + 1 := by
  unfold PendingAcks.packetReceived
  dsimp only
  split_ifs <;> rfl

/-- **A packet with a number counts as ACK-eliciting.** -/
theorem onPacketAuthenticated_counter {n : ℕ} (h : c.onPacketAuthenticated now id (some n) = .ok c') :
    (c'.spaces id).pendingAcks.ackElicitingSinceLastAckSent =
      (c.spaces id).pendingAcks.ackElicitingSinceLastAckSent + 1 := by
  rcases onPacketAuthenticated_cases h with ⟨hn, -⟩ | ⟨m, c₁, hn, hc₁, hr⟩
  · cases hn
  · cases hn
    have hu : Unasked id c c₁ := by
      rcases hc₁ with rfl | hd
      · exact .refl id _
      · exact (discardSpace_inner hd).unasked
    rw [← hu.counter, ← packetReceived_counter _ now n (c₁.spaces id).dedup]
    rcases hr with ⟨-, rfl⟩ | ⟨-, -, rfl⟩ | ⟨-, rfl⟩ <;> simp only [recorded, modifySpace, Function.update_self]
    rfl

end Unasked

/-- **Packets that elicit no ACK.** For an open connection and a packet whose frames are all ACK, PADDING
or CLOSE, a call of `handle_data` asks for no ACK if and only if it drops the packet: every other
packet is counted as ACK-eliciting before its frames are read. -/
theorem ack_only_unasked (c c' : Connection) (now : Instant) (data : Bytes) (header : Header) (payload : Bytes)
    (frames : List Frame) (hopen : c.state.isClosed = false)
    (hd : Header.decode fakeCid.bytes.length supportedVersions data = .ok (.ok header, payload))
    (hf : FrameParser.frames payload = .ok (.ok frames)) (hne : ∀ f ∈ frames, f.isAckEliciting = false)
    (h : c.handleData now data = .ok c') : Unasked header.space c c' ↔ c.Drops header := by
  have hp : packetOf data = some ⟨header, payload⟩ := by
    unfold packetOf
    rw [hd]
  have hseen : Unasked header.space c (c.screened header) := unasked_dedup c header.space _
  rcases handleData_cases h with ⟨hnone, -⟩ | ⟨packet, hp', hcases⟩
  · rw [hp] at hnone
    cases hnone
  rw [hp] at hp'
  cases hp'
  rw [drops_iff]
  rcases hcases with ⟨ha, rfl⟩ | ⟨ha, c₁, res, h1, h2, rfl⟩
  · exact iff_of_true hseen (.inr ha)
  · have hrest : Unasked header.space c₁ (afterPacket now c.state.isClosed c.state.isDrained res) :=
      (processPacket_unasked hf hne h2).trans (unasked_afterPacket now _ _ res)
    rcases authenticate_cases h1 with ⟨hclosed, -⟩ | ⟨-, h1⟩
    · rw [hopen] at hclosed
      cases hclosed
    cases hnum : header.number with
    | none =>
        refine iff_of_true (.trans ?_ hrest) (.inl rfl)
        rcases onPacketAuthenticated_cases h1 with ⟨-, rfl⟩ | ⟨n, c₂, hn, -, -⟩
        · exact hseen
        · rw [arrival, hnum] at hn
          cases hn
    | some n =>
        refine iff_of_false (fun hu => ?_) ?_
        · -- the count grew by one and nothing after that has changed it
          rw [arrival, hnum] at h1
          have := hu.counter
          rw [hrest.counter, onPacketAuthenticated_counter h1, hseen.counter] at this
          omega
        · rintro (hn | ha')
          · cases hn
          · rw [ha] at ha'
            cases ha'

/-- The second copy of a packet is dropped. -/
theorem ack_only_unasked_twice : ∃ ops c c', run connectionStep (Connection.new 0 .client) ops = .ok c ∧
    c.handleData 3 (initialDatagram 0 [2, 0, 0, 0, 0]) = .ok c' ∧ Unasked .initial c c' := by
  let ops : List ConnectionOp := [.pollTransmit 1, .sendOne 1,
    .handleData 2 (initialDatagram 0 [2, 0, 0, 0, 0])]
  obtain ⟨c, hc, hv⟩ := Checked.map_eq_ok.mp (show (fun c : Connection => (c.state.isClosed,
      ((c.spaces .initial).dedup.insert ((PacketNumber.u8 0).expand ((c.spaces .initial).rxPacket + 1))).1,
      (fun _ => ()) <$> c.handleData 3 (initialDatagram 0 [2, 0, 0, 0, 0]))) <$>
        run connectionStep (Connection.new 0 .client) ops = .ok (false, true, .ok ()) by decide +kernel)
  obtain ⟨hopen, hv⟩ := Prod.mk.inj hv
  obtain ⟨hdup, hv⟩ := Prod.mk.inj hv
  obtain ⟨c', hc', -⟩ := Checked.map_eq_ok.mp hv
  exact ⟨ops, c, c', hc, hc', (ack_only_unasked c c' 3 _ (.initial ⟨fakeCid, fakeCid, [], .u8 0, 1⟩)
    [2, 0, 0, 0, 0] [.ack ⟨0, 0, [0], none⟩] hopen (by decide +kernel) (by decide +kernel) (by decide)
    hc').mpr (.inl hdup)⟩

/-- The first Initial packet of the server acknowledges that of the client and does nothing else, and
the client wants to acknowledge it at once. -/
theorem ack_only_asks : ∃ ops c c' header payload frames,
    run connectionStep (Connection.new 0 .client) ops = .ok c ∧ c.state.isClosed = false ∧
    Header.decode fakeCid.bytes.length supportedVersions (initialDatagram 0 [2, 0, 0, 0, 0]) =
      .ok (.ok header, payload) ∧
    FrameParser.frames payload = .ok (.ok frames) ∧ (∀ f ∈ frames, f.isAckEliciting = false) ∧
    c.handleData 2 (initialDatagram 0 [2, 0, 0, 0, 0]) = .ok c' ∧ ¬ Unasked header.space c c' := by
  let ops : List ConnectionOp := [.pollTransmit 1, .sendOne 1]
  obtain ⟨c, hc, hv⟩ := Checked.map_eq_ok.mp (show (fun c : Connection => (c.state.isClosed,
      (c.spaces .initial).pendingAcks.immediateAckRequired,
      (fun c' => (c'.spaces .initial).pendingAcks.immediateAckRequired) <$>
        c.handleData 2 (initialDatagram 0 [2, 0, 0, 0, 0]))) <$>
        run connectionStep (Connection.new 0 .client) ops = .ok (false, false, .ok true) by decide +kernel)
  obtain ⟨hopen, hv⟩ := Prod.mk.inj hv
  obtain ⟨hbefore, hv⟩ := Prod.mk.inj hv
  obtain ⟨c', hc', hafter⟩ := Checked.map_eq_ok.mp hv
  refine ⟨ops, c, c', .initial ⟨fakeCid, fakeCid, [], .u8 0, 1⟩, [2, 0, 0, 0, 0],
    [.ack ⟨0, 0, [0], none⟩], hc, hopen, by decide +kernel, by decide +kernel, by decide, hc', fun h => ?_⟩
  have := h.immediate
  rw [show (Header.initial ⟨fakeCid, fakeCid, [], .u8 0, 1⟩).space = .initial from rfl, hbefore, hafter] at this
  cases this

end Connection

end MzQuic
