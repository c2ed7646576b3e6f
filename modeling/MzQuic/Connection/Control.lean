import MzQuic.Connection.Book
import MzQuic.Connection.Lifecycle
import MzQuic.Connection.Timers

/-!
# Control frames survive loss

Beside a run a ledger is kept of what the connection owes: a request is entered when the application makes
it, and struck out when a packet that carries it is acknowledged.

* `Booked`: the requests in the book are exactly those that are owed, and the streams to reset are there;
* `onAckReceived_booked`, `handleData_booked`, `pollTransmit_booked`: every step keeps it;
* `Ledger`, `ledgerStep`: runs with a ledger;
* `Connection.places`, `InOnePlace`: where a request can be;
* **`control_frames_kept`**: in every run in which no stream is opened under an id whose reset is not settled,
  each request that is owed is in exactly one place.
-/

namespace MzQuic

open Lib
open Relation (ReflTransGen)

namespace Connection

/-- The requests in the book are those that are owed, and the streams to reset were reset. -/
structure Booked (owed : Multiset Request) (c : Connection) : Prop where
  plain : c.book.Plain
  requests : c.book.requests = owed
  known : ∀ id errorCode, Request.reset id errorCode ∈ owed → c.streams.HasReset id

section Booked

variable {owed : Multiset Request} {c c' : Connection} {now : Instant} {id : SpaceId}

theorem Booked.keeps (hc : Booked owed c) (h : Keeps c c') : Booked owed c' := by
  obtain ⟨hplain, hrequests⟩ := Book.moves_kept h.book hc.plain
  exact ⟨hplain, hrequests.trans hc.requests, fun id errorCode hr => h.resets id (hc.known id errorCode hr)⟩

theorem Booked.resetsKnown (hc : Booked owed c) : c.ResetsKnown := by
  intro x hx hnone
  have hmem : Request.reset x.1 x.2 ∈ owed := by
    rw [← hc.requests]
    refine Multiset.mem_add.mpr (.inl (Multiset.mem_add.mpr (.inl (Multiset.mem_add.mpr (.inl ?_)))))
    exact Multiset.mem_coe.mpr (List.mem_map_of_mem hx)
  obtain ⟨stream, hs, -⟩ := hc.known x.1 x.2 hmem
  rw [hnone] at hs
  cases hs

theorem pollTransmit_booked {more : Bool} (hc : Booked owed c) (h : c.pollTransmit now = .ok (more, c')) :
    Booked owed c' :=
  pollTransmit_inv (I := Booked owed) (fun _ _ _ _ _ hx hs => hx.keeps (transmitSpace_keeps hx.resetsKnown hs))
    (fun _ _ hx => hx.keeps (.of_book rfl (.refl _))) h hc

/-! ## Acknowledgements -/

theorem ackedBy_pending (s : PacketSpace) (packet : SentPacket) : (s.ackedBy packet).pending = s.pending := by
  unfold PacketSpace.ackedBy
  split <;> rfl

/-- An acknowledged packet leaves the book. -/
theorem ackOne_book {l l' : AckLoop} {pn : ℕ} {packet : SentPacket}
    (hf : (l.c.spaces id).sentPackets.find? pn = some packet) (h : ackOne id l pn = .ok l') :
    l'.c.book = l.c.book.take id pn := by
  have hcore : l'.c.core.queue = l.c.core.queue ∧ l'.c.core.sent = Function.update l.c.core.sent id
      ((l.c.spaces id).sentPackets.erase pn) := by
    rcases ackOne_ok h with ⟨-, hnone⟩ | ⟨p, s, hr, -, -⟩
    · rw [hf] at hnone
      cases hnone
    · rw [hr.core]
      exact ⟨rfl, rfl⟩
  have hpend : l'.c.pendings = l.c.pendings := by
    obtain ⟨-, rfl⟩ | ⟨p, s, removed, path, -, -, -, -, -, hc⟩ := ackOne_cases h
    · rfl
    · rw [hc]
      refine (pendings_modifySpace l.c id fun space => (space.taken pn p).ackedBy p).trans ?_
      rw [ackedBy_pending]
      exact Function.update_eq_self id l.c.pendings
  unfold book
  rw [hpend, hcore.1, hcore.2]
  rfl

/-- An acknowledged packet settles what it carried. -/
theorem ackOne_booked {l l' : AckLoop} {pn : ℕ} {packet : SentPacket} (hl : Booked owed l.c)
    (hf : (l.c.spaces id).sentPackets.find? pn = some packet) (h : ackOne id l pn = .ok l') :
    Booked (owed - packet.requests) l'.c := by
  have hbook := ackOne_book hf h
  have hsent : (pn, packet) ∈ (l.c.book.sent id).entries := OrdMap.find?_eq_some.mp hf
  have hstays : l.c.streams.StaysReset l'.c.streams :=
    .of_run (fun _ _ _ => StreamsState.receivedAckOf_staysReset) (ackOne_streams hf h)
  refine ⟨?_, ?_, fun i errorCode hr =>
    hstays i (hl.known i errorCode (Multiset.mem_of_le (Multiset.sub_le_self _ _) hr))⟩
  · rw [hbook]
    exact hl.plain.take id pn
  · rw [hbook, ← hl.requests, ← Book.take_requests hl.plain hsent, Multiset.add_sub_cancel_right]

/-- **The loop over the numbers of an ACK frame settles what the packets with these numbers carried.** -/
theorem ackLoop_booked {l l' : AckLoop} {pns : List ℕ} (hl : Booked owed l.c) (h : run (ackOne id) l pns = .ok l') :
    Booked (owed - carried ((l.c.spaces id).sentPackets.entries.filter (·.1 ∈ pns))) l'.c := by
  induction pns generalizing l owed with
  | nil =>
      cases h
      have hnil : carried ((l'.c.spaces id).sentPackets.entries.filter (·.1 ∈ ([] : List ℕ))) = 0 :=
        carried_eq_zero fun p hp => by simp at hp
      rwa [hnil, tsub_zero]
  | cons pn pns ih =>
      obtain ⟨l₁, h1, h2⟩ := Checked.bind_eq_ok.mp h
      rcases ackOne_ok h1 with ⟨rfl, hnone⟩ | ⟨packet, s, hr, -, -⟩
      · -- no packet in flight has that number
        have hsame : (l₁.c.spaces id).sentPackets.entries.filter (·.1 ∈ pn :: pns) =
            (l₁.c.spaces id).sentPackets.entries.filter (·.1 ∈ pns) := by
          refine List.filter_congr fun p hp => ?_
          simp [OrdMap.find?_eq_none.mp hnone p hp]
        rw [hsame]
        exact ih hl h2
      · have hrest := ih (ackOne_booked hl hr.found h1) h2
        have hcarried : carried ((l.c.spaces id).sentPackets.entries.filter (·.1 ∈ pn :: pns)) =
            packet.requests + carried ((l₁.c.spaces id).sentPackets.entries.filter (·.1 ∈ pns)) := by
          rw [carried_perm ((OrdMap.erase_perm (OrdMap.find?_eq_some.mp hr.found)).filter _),
            List.filter_cons_of_pos (by simp), carried_cons, hr.sentPackets]
          congr 2
          refine List.filter_congr fun p hp => ?_
          simp [(OrdMap.mem_erase.mp hp).2]
        rw [hcarried, ← tsub_tsub]
        exact hrest

/-- The requests that the packets which a frame acknowledges have carried. -/
def acknowledged (id : SpaceId) (c : Connection) : Frame → Multiset Request
  | .ack ack =>
    if c.acceptsAck id ack then
      match ack.iter with
      | .ok ranges => (((c.spaces id).newlyAcked ranges).map SentPacket.requests).sum
      | .error _ => 0
    else 0
  | _ => 0

/-- **An ACK frame settles what the packets that it acknowledges have carried.** -/
theorem onAckReceived_booked {ack : Ack} {r : Except TransportError Unit} (hc : Booked owed c)
    (h : c.onAckReceived now id ack = .ok (r, c')) : Booked (owed - c.acknowledged id (.ack ack)) c' := by
  unfold acknowledged
  dsimp only
  rcases onAckReceived_cases h with ⟨ha, -, rfl⟩ | ⟨ha, -, ranges, l, hranges, hl, hnews⟩
  · rw [ha, if_neg Bool.false_ne_true, tsub_zero]
    exact hc
  · rw [ha, if_pos rfl, hranges]
    dsimp only
    have hcarried : (((c.spaces id).newlyAcked ranges).map SentPacket.requests).sum =
        carried ((c.spaces id).sentPackets.entries.filter (·.1 ∈ ranges.flatMap rangeInclusive)) := by
      unfold PacketSpace.newlyAcked carried
      rw [List.map_map]
      congr 2
      refine List.filter_congr fun p _ => ?_
      simp only [mem_flatMap_rangeInclusive]
      rw [Bool.eq_iff_iff]
      simp
    rw [hcarried]
    have hloop := ackLoop_booked hc hl
    rcases hnews with rfl | hnews
    · exact hloop
    · exact hloop.keeps (ackNews_keeps hnews)

/-! ## Frames -/

theorem keeps_onCrypto (c : Connection) (id : SpaceId) : Keeps c (c.onCrypto id) := by
  have hspace := keeps_modifySpace c id (fun s => { s with
    hi := true
    pending := if !s.hi then { s.pending with hello := true } else s.pending }) (by dsimp only; split_ifs <;> rfl) rfl
  refine hspace.trans ?_
  unfold onCrypto
  dsimp only
  split_ifs <;> exact .of_book rfl (.of_eq rfl)

theorem Booked.sub_zero (hc : Booked owed c) : Booked (owed - 0) c := by rwa [tsub_zero]

theorem keeps_kill (c : Connection) (reason : ConnectionError) : Keeps c (c.kill reason) := .of_book rfl (.of_eq rfl)

theorem handleEarlyFrame_booked {frame : Frame} {r : Except TransportError Bool} (hc : Booked owed c)
    (h : handleEarlyFrame now id c frame = .ok (r, c')) : Booked (owed - c.acknowledged id frame) c' := by
  cases frame with
  | ack ack =>
      obtain ⟨⟨r, c₁⟩, h1, h⟩ := Checked.bind_eq_ok.mp h
      cases h
      exact onAckReceived_booked hc h1
  | crypto offset data =>
      cases h
      exact (hc.keeps (keeps_onCrypto c id)).sub_zero
  | close reason =>
      cases h
      exact (hc.keeps (keeps_kill c _)).sub_zero
  | _ =>
      cases h
      exact hc.sub_zero

theorem handleFrame_booked {payloadLen : ℕ} {frame : Frame} {r : Except TransportError Bool} (hc : Booked owed c)
    (h : handleFrame now id payloadLen c frame = .ok (r, c')) : Booked (owed - c.acknowledged id frame) c' := by
  cases frame with
  | immediateAck =>
      cases h
      exact (hc.keeps (keeps_modifySpace c id _ rfl rfl)).sub_zero
  | ack ack =>
      obtain ⟨⟨r, c₁⟩, h1, h⟩ := Checked.bind_eq_ok.mp h
      cases h
      exact onAckReceived_booked hc h1
  | stream stream =>
      obtain ⟨⟨r, s⟩, h1, h⟩ := Checked.bind_eq_ok.mp h
      cases h
      exact (hc.keeps (keeps_streams c (.of_eq (StreamsState.received_sameSend h1).send))).sub_zero
  | resetStream reset =>
      cases h
      exact (hc.keeps (keeps_streams c (.of_eq (c.streams.receivedReset_sameSend reset).send))).sub_zero
  | stopSending stop =>
      cases h
      exact (hc.keeps (keeps_streams c (c.streams.receivedStopSending_staysReset stop))).sub_zero
  | close reason =>
      cases h
      exact (hc.keeps (keeps_kill c _)).sub_zero
  | _ =>
      cases h
      exact hc.sub_zero

/-- The requests that the packets which the frames of a packet acknowledge have carried. Each frame meets the
connection as the ones before it have left it. -/
def acknowledgedFrames (id : SpaceId) (handle : Connection → Frame → Handled) :
    ℕ → FrameParser → Connection → Multiset Request
  | 0, _, _ => 0
  | n + 1, parser, c =>
    match (parser.next : Checked _) with
    | .ok (some (.ok frame), parser) => c.acknowledged id frame + match (handle c frame : Handled) with
      | .ok (.ok true, c) => acknowledgedFrames id handle n parser c
      | _ => 0
    | _ => 0

/-- The same for a payload. -/
def acknowledgedPayload (id : SpaceId) (c : Connection) (payload : Bytes) (handle : Connection → Frame → Handled) :
    Multiset Request :=
  match FrameParser.new payload with
  | .error _ => 0
  | .ok parser => acknowledgedFrames id handle (payload.length + 1) parser c

/-- The same for a packet. -/
def acknowledgedPacket (c : Connection) (now : Instant) (number : Option ℕ) (packet : Packet) : Multiset Request :=
  match packet.header.space, number with
  | .initial, _ | .handshake, _ => c.acknowledgedPayload packet.header.space packet.payload
      (handleEarlyFrame now packet.header.space)
  | .data, none => 0
  | .data, some _ => c.acknowledgedPayload packet.header.space packet.payload
      (handleFrame now packet.header.space packet.payload.length)

/-- The same for a datagram. -/
def acknowledgedData (c : Connection) (now : Instant) (data : Bytes) : Multiset Request :=
  match packetOf data with
  | none => 0
  | some packet =>
    if c.accepts packet.header then
      match (c.authenticate now packet.header : Checked Connection) with
      | .ok c₁ => c₁.acknowledgedPacket now (c.arrival packet.header) packet
      | .error _ => 0
    else 0

theorem Walk.booked {handle : Connection → Frame → Handled}
    (hh : ∀ owed c frame r c', Booked owed c → handle c frame = .ok (r, c') →
      Booked (owed - c.acknowledged id frame) c') {n : ℕ} {parser : FrameParser} {r : Except TransportError Unit}
    (hc : Booked owed c) (hw : Walk handle n parser c r c') :
    Booked (owed - acknowledgedFrames id handle n parser c) c' := by
  induction hw generalizing owed with
  | out => exact hc.sub_zero
  | ended hn =>
      unfold acknowledgedFrames
      rw [hn]
      exact hc.sub_zero
  | malformed hn =>
      unfold acknowledgedFrames
      rw [hn]
      exact hc.sub_zero
  | rejected hn h =>
      have hc' := hh _ _ _ _ _ hc h
      unfold acknowledgedFrames
      rw [hn]
      dsimp only
      rwa [h, add_zero]
  | closed hn h =>
      have hc' := hh _ _ _ _ _ hc h
      unfold acknowledgedFrames
      rw [hn]
      dsimp only
      rwa [h, add_zero]
  | next hn h _ ih =>
      have hc₁ := hh _ _ _ _ _ hc h
      unfold acknowledgedFrames
      rw [hn]
      dsimp only
      rw [h, ← tsub_tsub]
      exact ih hc₁

theorem processFrames_booked {handle : Connection → Frame → Handled}
    (hh : ∀ owed c frame r c', Booked owed c → handle c frame = .ok (r, c') →
      Booked (owed - c.acknowledged id frame) c') {payload : Bytes} {r : Except TransportError Unit}
    (hc : Booked owed c) (h : c.processFrames payload handle = .ok (r, c')) :
    Booked (owed - c.acknowledgedPayload id payload handle) c' := by
  unfold acknowledgedPayload
  rcases processFrames_cases h with ⟨e, hp, -, rfl⟩ | ⟨parser, hp, hw⟩
  · rw [hp]
    exact hc.sub_zero
  · rw [hp]
    exact hw.booked hh hc

/-- **A packet settles what the packets that it acknowledges have carried.** -/
theorem processPacket_booked {number : Option ℕ} {packet : Packet} {r : Except ConnectionError Unit}
    (hc : Booked owed c) (h : c.processPacket now number packet = .ok (r, c')) :
    Booked (owed - c.acknowledgedPacket now number packet) c' := by
  unfold acknowledgedPacket
  rcases processPacket_cases h with ⟨r', hid, h1, -⟩ | ⟨hid, rfl, -, rfl⟩ | ⟨n, r', hid, rfl, h1, -⟩
  · have hb := processFrames_booked (fun _ _ _ _ _ => handleEarlyFrame_booked) hc h1
    rcases hid with hid | hid <;> rwa [hid] at hb ⊢
  · rw [hid]
    exact hc.sub_zero
  · have hb := processFrames_booked (fun _ _ _ _ _ => handleFrame_booked) hc h1
    rwa [hid] at hb ⊢

theorem keeps_afterPacket (now : Instant) (wasClosed wasDrained : Bool)
    (res : Except ConnectionError Unit × Connection) :
    Keeps res.2 (afterPacket now wasClosed wasDrained res) := by
  obtain ⟨r, c⟩ := res
  unfold afterPacket
  cases r with
  | error e =>
      dsimp only
      split_ifs <;> exact ⟨.refl, .of_eq rfl⟩
  | ok u =>
      dsimp only
      split_ifs <;> exact ⟨.refl, .of_eq rfl⟩

theorem handleData_booked {data : Bytes} (hc : Booked owed c) (h : c.handleData now data = .ok c') :
    Booked (owed - c.acknowledgedData now data) c' := by
  have hscreen : ∀ header, Booked owed (c.screened header) := fun header =>
    hc.keeps (keeps_modifySpace c header.space _ rfl rfl)
  unfold acknowledgedData
  rcases handleData_cases h with ⟨hp, rfl⟩ | ⟨packet, hp, ⟨ha, rfl⟩ | ⟨ha, c₁, res, h1, h2, rfl⟩⟩
  · rw [hp]
    exact hc.sub_zero
  · rw [hp]
    dsimp only
    rw [ha, if_neg Bool.false_ne_true]
    exact (hscreen _).sub_zero
  · rw [hp]
    dsimp only
    rw [ha, if_pos rfl, h1]
    dsimp only
    have hc₁ : Booked owed c₁ := by
      rcases authenticate_cases h1 with ⟨-, rfl⟩ | ⟨-, h1⟩
      · exact hscreen _
      · exact (hscreen _).keeps (onPacketAuthenticated_keeps h1)
    exact (processPacket_booked hc₁ h2).keeps (keeps_afterPacket now _ _ res)

/-! ## The application -/

/-- A request enters the book. -/
theorem Booked.enter (hc : Booked owed c) {s : StreamsState} {pending : Retransmits} {request : Request}
    (hp : pending.requests = (c.spaces .data).pending.requests + {request})
    (hstays : c.streams.StaysReset s) (hr : ∀ id errorCode, request = .reset id errorCode → s.HasReset id) :
    Booked (owed + {request}) ({ c with streams := s }.setPending pending) := by
  have hbook : ({ c with streams := s }.setPending pending).book =
      { c.book with pending := Function.update c.pendings .data (c.pendings .data + {request}) } := by
    refine (book_modifySpace c .data (fun x => { x with pending := pending }) rfl).trans ?_
    dsimp only
    rw [hp]
    rfl
  refine ⟨?_, ?_, fun id errorCode hmem => ?_⟩
  · rw [hbook]
    exact ⟨fun i hi => (Function.update_of_ne hi _ _).trans (hc.plain.pending i hi), hc.plain.queue, hc.plain.sent⟩
  · rw [hbook, ← hc.requests]
    unfold Book.requests
    dsimp only
    rw [Function.update_self]
    show c.book.pending .data + {request} + _ + _ = _
    abel
  · rcases Multiset.mem_add.mp hmem with hmem | hmem
    · exact hstays id (hc.known id errorCode hmem)
    · exact hr id errorCode (Multiset.mem_singleton.mp hmem).symm

/-- The streams change, and not what is to be sent. -/
theorem Booked.streams (hc : Booked owed c) {s : StreamsState} (h : c.streams.StaysReset s) :
    Booked owed { c with streams := s } := hc.keeps (keeps_streams c h)

/-- Nothing is accepted, and nothing is settled. -/
theorem Booked.same (hc : Booked owed c) : Booked (owed + 0 - 0) c := by
  rwa [add_zero, tsub_zero]

end Booked

/-- The request that a call makes, if it is accepted. -/
def accepted (c : Connection) : ConnectionOp → Multiset Request
  | .reset id errorCode =>
    match (c.streams.reset (c.spaces .data).pending id errorCode).1 with
    | .ok _ => {.reset id errorCode}
    | .error _ => 0
  | .stop id errorCode =>
    match c.streams.recv id with
    | some stream =>
      match (stream.stop : Checked _) with
      | .ok (.ok (_, true), _) => {.stop ⟨id, errorCode⟩}
      | _ => 0
    | none => 0
  | _ => 0

/-- The requests that a step settles: a packet that carried them was acknowledged. -/
def settled (c : Connection) : ConnectionOp → Multiset Request
  | .handleData now data => c.acknowledgedData now data
  | _ => 0

end Connection

open Connection

/-- A stream is not opened under an id for which a RESET_STREAM frame is pending, queued or in flight. -/
def ConnectionOp.keepsResets (c : Connection) : ConnectionOp → Bool
  | .openStream dir => decide (∀ request ∈ c.book.requests, request.resets (c.streams.open dir).1 = false)
  | _ => true

section Steps

variable {owed : Multiset Request} {c c' : Connection} {op : ConnectionOp}

theorem reset_booked {id : StreamId} {errorCode : ℕ} (hc : Booked owed c)
    (h : connectionStep c (.reset id errorCode) = .ok c') : Booked (owed + c.accepted (.reset id errorCode)) c' := by
  obtain ⟨u, -, h⟩ := Checked.bind_eq_ok.mp h
  cases h
  -- a call that is not accepted
  have hrejected : Booked (owed + 0) ({ c with streams := c.streams }.setPending (c.spaces .data).pending) := by
    rw [add_zero]
    exact hc.keeps (keeps_modifySpace c .data _ rfl rfl)
  unfold accepted
  unfold StreamsState.reset
  dsimp only
  cases hs : c.streams.send id with
  | none => exact hrejected
  | some stream =>
      dsimp only
      by_cases hr : stream.state = .resetSent
      · rw [if_pos hr]
        exact hrejected
      · rw [if_neg hr]
        have hreset : stream.reset.state = .resetSent := by
          unfold Send.reset
          split
          · rfl
          · rfl
          · assumption
        refine hc.enter ?_ (.update rfl fun _ _ _ => ⟨_, rfl, hreset⟩) fun i e he => ?_
        · unfold Retransmits.requests
          rw [List.map_append, ← Multiset.coe_add]
          show _ + {Request.reset id errorCode} + _ = _
          abel
        · cases he
          exact ⟨stream.reset, Function.update_self _ _ _, hreset⟩

theorem stop_booked {id : StreamId} {errorCode : ℕ} (hc : Booked owed c)
    (h : connectionStep c (.stop id errorCode) = .ok c') : Booked (owed + c.accepted (.stop id errorCode)) c' := by
  obtain ⟨u, -, h⟩ := Checked.bind_eq_ok.mp h
  obtain ⟨⟨res, s, pending⟩, hstop, h⟩ := Checked.bind_eq_ok.mp h
  have hstays : c.streams.StaysReset s := .of_eq (StreamsState.stop_sameSend hstop).send
  cases h
  -- a call that queues nothing
  have hnothing : pending = (c.spaces .data).pending →
      Booked owed ({ c with streams := s }.setPending pending) := by
    rintro rfl
    exact (hc.streams hstays).keeps (keeps_modifySpace { c with streams := s } .data _ rfl rfl)
  unfold accepted
  unfold StreamsState.stop at hstop
  dsimp only
  cases hr : c.streams.recv id with
  | none =>
      rw [hr] at hstop
      cases hstop
      dsimp only
      rw [add_zero]
      exact hnothing rfl
  | some stream =>
      rw [hr] at hstop
      obtain ⟨⟨res', stream'⟩, hs, hstop⟩ := Checked.bind_eq_ok.mp hstop
      dsimp only
      rw [hs]
      match res' with
      | .error e =>
          cases hstop
          dsimp only
          rw [add_zero]
          exact hnothing rfl
      | .ok (n, false) =>
          cases hstop
          dsimp only
          rw [add_zero]
          exact hnothing rfl
      | .ok (n, true) =>
          cases hstop
          refine hc.enter ?_ hstays fun i e he => by cases he
          unfold Retransmits.requests
          rw [if_pos rfl, List.map_append, ← Multiset.coe_add]
          show _ + (_ + {Request.stop ⟨id, errorCode⟩}) = _
          rw [add_assoc]

theorem pollTimers_keeps {now : Instant} (h : c.pollTimers now = .ok c') : Keeps c c' := by
  rcases pollTimers_fired h with rfl | ⟨timer, hf⟩
  · exact .refl _
  · refine .trans (.of_book rfl (.refl _) : Keeps c { c with timers := c.timers.stop timer }) ?_
    cases hf with
    | lossDetection h => exact keeps_onLossDetectionTimeout h
    | close => exact .of_book rfl (.refl _)
    | maxAckDelay => exact keeps_modifySpace _ .data _ rfl rfl
    | other _ _ _ => exact .refl _

/-- **A step keeps the book**: what the application asks for is entered, and what is acknowledged is struck
out. -/
theorem connectionStep_booked (hc : Booked owed c) (hacc : Accounted c.core) (hop : op.inTask = true)
    (hk : op.keepsResets c = true) (h : connectionStep c op = .ok c') :
    Booked (owed + c.accepted op - c.settled op) c' := by
  cases op with
  | pollTransmit now =>
      obtain ⟨⟨more, c₁⟩, h1, h⟩ := Checked.bind_eq_ok.mp h
      cases h
      exact (pollTransmit_booked hc h1).same
  | sendOne t =>
      cases h
      exact (hc.keeps (sendOne_keeps hacc t)).same
  | pollTimers now => exact (hc.keeps (pollTimers_keeps h)).same
  | handleData now data =>
      have hd := handleData_booked hc h
      rwa [← add_zero owed] at hd
  | handleFirstPacket now packet => cases hop
  | close now errorCode reason =>
      cases h
      refine Booked.same (hc.keeps ?_)
      unfold close
      split_ifs
      · exact .refl c
      · exact .of_book rfl (.refl _)
  | openStream dir =>
      obtain ⟨⟨id, c₁⟩, h1, h⟩ := Checked.bind_eq_ok.mp h
      cases h
      unfold openStream at h1
      split_ifs at h1
      cases h1
      refine Booked.same ⟨hc.plain, hc.requests, fun id errorCode hr => ?_⟩
      obtain ⟨stream, hs, hstate⟩ := hc.known id errorCode hr
      have hk : ∀ request ∈ c.book.requests, request.resets (c.streams.open dir).1 = false := of_decide_eq_true hk
      rw [hc.requests] at hk
      have hne : (c.streams.open dir).1 ≠ id := of_decide_eq_false (hk _ hr)
      refine ⟨stream, ?_, hstate⟩
      show (c.streams.open dir).2.send id = some stream
      rw [c.streams.open_send dir, Function.update_of_ne (Ne.symm hne), hs]
  | write id data =>
      obtain ⟨u, -, h⟩ := Checked.bind_eq_ok.mp h
      cases h
      exact (hc.streams (c.streams.write_staysReset _ id data)).same
  | finish id =>
      obtain ⟨u, -, h⟩ := Checked.bind_eq_ok.mp h
      cases h
      exact (hc.streams (c.streams.finish_staysReset id)).same
  | reset id errorCode => exact (reset_booked hc h).sub_zero
  | setPriority id priority =>
      obtain ⟨u, -, h⟩ := Checked.bind_eq_ok.mp h
      cases h
      exact (hc.streams (c.streams.setPriority_staysReset id priority)).same
  | read id lengths =>
      obtain ⟨u, -, h⟩ := Checked.bind_eq_ok.mp h
      obtain ⟨s, hs, h⟩ := Checked.bind_eq_ok.mp h
      cases h
      exact (hc.streams (.of_eq (StreamsState.readChunks_sameSend hs).send)).same
  | stop id errorCode => exact (stop_booked hc h).sub_zero
  | takeReset id =>
      obtain ⟨u, -, h⟩ := Checked.bind_eq_ok.mp h
      cases h
      exact (hc.streams (.of_eq (c.streams.takeReset_sameSend id).send)).same

end Steps

/-! ## Runs with a ledger -/

/-- A connection, and the requests that it owes. -/
structure Ledger where
  c : Connection
  owed : Multiset Request

/-- A step, with what is accepted entered in the ledger and what is settled struck out. -/
def ledgerStep (l : Ledger) (op : ConnectionOp) : Checked Ledger := do
  let c ← connectionStep l.c op
  return ⟨c, l.owed + l.c.accepted op - l.c.settled op⟩

/-- Where a request can be: in the pending queue of the data space, or in the record of a packet that is in the
queue of the path or was sent in the data space. -/
def Connection.places (c : Connection) : List (Multiset Request) :=
  (c.spaces .data).pending.requests ::
    (c.path.sendingQueue.map (·.metaInfo.requests) ++ (c.spaces .data).sentPackets.entries.map (·.2.requests))

/-- A request is in one of the places, and there once. -/
def InOnePlace (request : Request) (places : List (Multiset Request)) : Prop :=
  ∃ before place after, places = before ++ place :: after ∧ place.count request = 1 ∧
    ∀ other ∈ before ++ after, request ∉ other

theorem inOnePlace_of_count {request : Request} {places : List (Multiset Request)}
    (h : places.sum.count request = 1) : InOnePlace request places := by
  induction places with
  | nil => cases h
  | cons place places ih =>
      rw [List.sum_cons, Multiset.count_add] at h
      by_cases hin : request ∈ place
      · have hpos := Multiset.count_pos.mpr hin
        have hrest : places.sum.count request = 0 := by omega
        refine ⟨[], place, places, rfl, by omega, fun other hother hmem => ?_⟩
        have hle : other ≤ places.sum := List.single_le_sum (fun _ _ => Multiset.zero_le _) other hother
        have := Multiset.count_le_of_le request hle
        have := Multiset.count_pos.mpr hmem
        omega
      · rw [Multiset.count_eq_zero_of_notMem hin, zero_add] at h
        obtain ⟨before, p, after, rfl, hp, hothers⟩ := ih h
        refine ⟨place :: before, p, after, rfl, hp, fun other hother => ?_⟩
        rcases List.mem_cons.mp hother with rfl | hother
        · exact hin
        · exact hothers other hother

theorem places_sum (c : Connection) : c.places.sum = c.book.requests := by
  unfold places Book.requests
  rw [List.sum_cons, List.sum_append, ← add_assoc]
  show _ = (c.spaces .data).pending.requests + ((c.path.sendingQueue.map ScheduledPacket.metaInfo).map
    SentPacket.requests).sum + carried (c.spaces .data).sentPackets.entries
  rw [List.map_map]
  rfl

theorem booked_new (now : Instant) (side : Side) : Booked 0 (Connection.new now side) where
  plain := by
    constructor
    · intro id hid
      cases side <;> cases id <;> rfl
    · intro p hp
      cases side <;> cases hp
    · intro id hid p hp
      cases side <;> cases id <;> cases hp
  requests := by cases side <;> rfl
  known := fun id errorCode hr => absurd hr (Multiset.notMem_zero _)

theorem Connection.Starts.booked {c : Connection} {first : Option ℕ} (hc : Starts c first) : Booked 0 c := by
  cases hc with
  | client now => exact booked_new now .client
  | server now h =>
      obtain ⟨c₁, h1, h⟩ := Checked.bind_eq_ok.mp h
      have hp := processPacket_booked ((booked_new now .server).keeps (onPacketAuthenticated_keeps h1)) h
      rwa [zero_tsub] at hp

/-- **Control frames survive loss.** In every run of the task of a connection in which no stream is opened under
an id whose reset is still to be acknowledged: the requests that were accepted, and not yet acknowledged, are
those in the pending queue of the data space, in the records of the packets that wait to be sent, and in the
records of the packets in flight in the data space. One that was made once is in one of these places, once. -/
theorem control_frames_kept (c : Connection) (first : Option ℕ) (hc : Starts c first) (ops : List ConnectionOp)
    (hops : ∀ op ∈ ops, op.inTask = true)
    (hm : Meets ledgerStep (fun l op => op.keepsResets l.c = true) ⟨c, 0⟩ ops) (l : Ledger)
    (h : run ledgerStep ⟨c, 0⟩ ops = .ok l) :
    l.c.places.sum = l.owed ∧ ∀ request, l.owed.count request = 1 → InOnePlace request l.c.places := by
  have hl : Booked l.owed l.c ∧ Accounted l.c.core := by
    refine run_inv (I := fun l : Ledger => Booked l.owed l.c ∧ Accounted l.c.core) (fun l op l' hl hok hs => ?_)
      ⟨hc.booked, hc.timed.accounted⟩ (Meets.and (Meets.of_forall hops) hm) h
    obtain ⟨c', hc', hs⟩ := Checked.bind_eq_ok.mp hs
    cases hs
    exact ⟨connectionStep_booked hl.1 hl.2 hok.1 hok.2 hc', packetStep_accounted l.c (.step op) c' hl.2 hc'⟩
  have hsum : l.c.places.sum = l.owed := (places_sum l.c).trans hl.1.requests
  exact ⟨hsum, fun request hcount => inOnePlace_of_count (by rwa [hsum])⟩

/-- A stream is reset, and the packet with the frame is lost: the frame is pending again. -/
theorem control_frames_kept_lost : ∃ ops l, run ledgerStep ⟨Connection.new 0 .client, 0⟩ ops = .ok l ∧
    l.owed.count (.reset ⟨0⟩ 7) = 1 ∧ (l.c.spaces .data).pending.resetStream = [(⟨0⟩, 7)] ∧
    l.c.places.sum = l.owed ∧ InOnePlace (.reset ⟨0⟩ 7) l.c.places := by
  let ops : List ConnectionOp := [.pollTransmit 1, .sendOne 1, .handleData 2 (initialDatagram 0 [6, 0, 1, 0]),
    .openStream .bi, .write ⟨0⟩ [1], .reset ⟨0⟩ 7, .pollTransmit 10, .sendOne 10, .sendOne 10,
    .openStream .bi, .write ⟨4⟩ [2], .pollTransmit 5000000000, .sendOne 5000000000,
    .handleData 5000000001 (shortDatagram 0 [2, 1, 0, 0, 0])]
  obtain ⟨l, h, hv⟩ := Checked.map_eq_ok.mp (show (fun l : Ledger => (l.owed.count (.reset ⟨0⟩ 7),
      (l.c.spaces .data).pending.resetStream, decide (Meets ledgerStep (fun l op => op.keepsResets l.c = true)
        ⟨Connection.new 0 .client, 0⟩ ops))) <$> run ledgerStep ⟨Connection.new 0 .client, 0⟩ ops =
      .ok (1, [(⟨0⟩, 7)], true) by decide +kernel)
  obtain ⟨hcount, hv⟩ := Prod.mk.inj hv
  obtain ⟨hpending, hmeets⟩ := Prod.mk.inj hv
  obtain ⟨hsum, hplace⟩ := control_frames_kept _ none (.client 0) ops (by decide) (of_decide_eq_true hmeets) l h
  exact ⟨ops, l, h, hcount, hpending, hsum, hplace _ hcount⟩

/-- A client writes to a stream that it has not opened, and resets it. It then opens the stream, which replaces
its send half, and finishes it. The packet with the reset is lost and the one with the data is acknowledged:
the send half is gone, and the frame is dropped. -/
theorem reset_dropped : ∃ ops l, (∀ op ∈ ops, ConnectionOp.inTask op = true) ∧
    run ledgerStep ⟨Connection.new 0 .client, 0⟩ ops = .ok l ∧ l.c.state.isClosed = false ∧
    l.owed.count (.reset ⟨0⟩ 7) = 1 ∧ ∀ place ∈ l.c.places, .reset ⟨0⟩ 7 ∉ place := by
  let ops : List ConnectionOp := [.pollTransmit 1, .sendOne 1, .handleData 2 (initialDatagram 0 [6, 0, 1, 0]),
    .write ⟨0⟩ [1], .reset ⟨0⟩ 7, .pollTransmit 10, .sendOne 10, .sendOne 10,
    .openStream .bi, .write ⟨0⟩ [2], .finish ⟨0⟩, .pollTransmit 5000000000, .sendOne 5000000000,
    .handleData 5000000001 (shortDatagram 0 [2, 1, 0, 0, 0]), .pollTransmit 5000000002]
  obtain ⟨l, h, hv⟩ := Checked.map_eq_ok.mp (show (fun l : Ledger => (l.c.state.isClosed,
      l.owed.count (.reset ⟨0⟩ 7), decide (∀ place ∈ l.c.places, Request.reset ⟨0⟩ 7 ∉ place))) <$>
      run ledgerStep ⟨Connection.new 0 .client, 0⟩ ops = .ok (false, 1, true) by decide +kernel)
  obtain ⟨hopen, hv⟩ := Prod.mk.inj hv
  obtain ⟨hcount, hnone⟩ := Prod.mk.inj hv
  exact ⟨ops, l, by decide, h, hopen, hcount, of_decide_eq_true hnone⟩

end MzQuic
