import MzQuic.Connection.Inner
import MzQuic.Connection.Pruning

/-!
# The life of a connection, as the application is told of it

The events of a connection are kept in the order in which they were sent.

* `State.rank`, `connectionStep_rank`: the state only moves forward;
* `Lived`: a connection is reported as established at most once, and as lost at most once, and as
  neither before it is;
* `Silent`, `quietFrames`: frames of which a closed connection tells nothing;
* **`lifecycle_one_way`**: in every run in which a closed connection is given only packets of such
  frames, the application is told nothing after the connection was closed but, once, that it is lost.
-/

namespace MzQuic

open Lib

/-- How far the life of a connection has come. -/
def State.rank : State → ℕ
  | .handshake => 0
  | .established => 1
  | .closed _ | .draining => 2
  | .drained => 3

/-- `Event::ConnectionLost`. -/
def Event.isLost : Event → Bool
  | .connectionLost _ => true
  | _ => false

/-- `Event::Connected`. -/
def Event.isConnected : Event → Bool
  | .connected => true
  | _ => false

theorem State.two_le_rank {s : State} : 2 ≤ s.rank ↔ s.isClosed = true := by
  cases s <;> simp [State.rank, State.isClosed]

theorem State.rank_le_two {s : State} (h : s.isDrained = false) : s.rank ≤ 2 := by
  cases s with
  | drained => cases h
  | handshake | established | closed _ | draining => simp [State.rank]

namespace Connection

/-- How often the application was told that the connection is lost. -/
def lostCount (c : Connection) : ℕ := c.streams.events.countP Event.isLost

/-- How often the application was told that the connection is established. -/
def connectedCount (c : Connection) : ℕ := c.streams.events.countP Event.isConnected

/-- What the application was told so far: that the connection is lost at most once, and only of a closed
one; that it is established at most once, and not during the handshake. -/
structure Lived (c : Connection) : Prop where
  lost : c.lostCount ≤ 1
  unlost : c.state.isClosed = false → c.lostCount = 0
  connected : c.connectedCount ≤ 1
  unconnected : c.state = .handshake → c.connectedCount = 0

section Counts

variable {c c' : Connection}

/-- Reports of streams count as neither. -/
theorem counts_of_reports (h : c.streams.Reports c'.streams) :
    c'.lostCount = c.lostCount ∧ c'.connectedCount = c.connectedCount := by
  obtain ⟨es, e⟩ := h
  have hlost : es.countP (Event.isLost ∘ Event.stream) = 0 :=
    List.countP_eq_zero.mpr fun _ _ => Bool.false_ne_true
  have hconnected : es.countP (Event.isConnected ∘ Event.stream) = 0 :=
    List.countP_eq_zero.mpr fun _ _ => Bool.false_ne_true
  unfold lostCount connectedCount
  rw [e, List.countP_append, List.countP_append, List.countP_map, List.countP_map, hlost, hconnected]
  exact ⟨rfl, rfl⟩

/-- The counts after nothing but streams was reported. -/
theorem Lived.reports (h : c.Lived) (hs : c'.state = c.state) (hr : c.streams.Reports c'.streams) : c'.Lived := by
  obtain ⟨e1, e2⟩ := counts_of_reports hr
  exact ⟨by rw [e1]; exact h.lost, by rw [e1, hs]; exact h.unlost, by rw [e2]; exact h.connected,
    by rw [e2, hs]; exact h.unconnected⟩

theorem Lived.inner {b : Bool} (h : c.Lived) (hi : Inner b c c') : c'.Lived := h.reports hi.state hi.events.reports

theorem Lived.outer {b : Bool} (h : c.Lived) (ho : Outer b c c') : c'.Lived := h.reports ho.state ho.events.reports

/-- The end of a connection is reported. -/
theorem Lived.end (h : c.Lived) (hnone : c.lostCount = 0) (hs : c'.state.isClosed = true) {e : ConnectionError}
    (he : c'.streams.events = c.streams.events ++ [.connectionLost e]) : c'.Lived := by
  have e1 : c'.lostCount = 1 := by
    unfold lostCount at hnone ⊢
    rw [he, List.countP_append, hnone]
    rfl
  have e2 : c'.connectedCount = c.connectedCount := by
    unfold connectedCount
    rw [he, List.countP_append]
    rfl
  refine ⟨e1.le, fun ho => ?_, by rw [e2]; exact h.connected, fun hh => ?_⟩
  · rw [hs] at ho
    cases ho
  · rw [hh] at hs
    cases hs

end Counts

section Packets

variable {c c' : Connection} {now : Instant}

theorem errorState_isClosed (e : ConnectionError) : (errorState e).isClosed = true := by cases e <;> rfl

/-- A packet that was processed without an error changes the timers at most. -/
theorem afterPacket_ok (now : Instant) (wasClosed wasDrained : Bool) (c : Connection) :
    (afterPacket now wasClosed wasDrained (.ok (), c)).state = c.state ∧
      (afterPacket now wasClosed wasDrained (.ok (), c)).streams = c.streams := by
  unfold afterPacket
  dsimp only
  split_ifs <;> exact ⟨rfl, rfl⟩

/-- An error closes the connection, and is reported. -/
theorem afterPacket_error (now : Instant) (wasClosed wasDrained : Bool) (c : Connection) (e : ConnectionError) :
    (afterPacket now wasClosed wasDrained (.error e, c)).state = errorState e ∧
      (afterPacket now wasClosed wasDrained (.error e, c)).streams.events =
        c.streams.events ++ [.connectionLost e] := by
  unfold afterPacket
  dsimp only
  split_ifs <;> exact ⟨rfl, rfl⟩

/-! ## Forward -/

theorem FrameMove.rank {r : Except TransportError Bool} (h : FrameMove c r c') : c.state.rank ≤ c'.state.rank := by
  cases h with
  | acked h _ => rw [(onAckReceived_inner h).state]
  | crypto id =>
      rcases c.onCrypto_state id with ⟨hs, -⟩ | ⟨hs, hs', -⟩
      · rw [hs]
      · rw [hs, hs']
        decide
  | killed reason =>
      show c.state.rank ≤ 3
      cases c.state <;> simp [State.rank]
  | _ => exact Nat.le_refl _

theorem handleData_rank {data : Bytes} (hd : c.state ≠ .drained) (h : c.handleData now data = .ok c') :
    c.state.rank ≤ c'.state.rank := by
  rcases handleData_cases h with ⟨-, rfl⟩ | ⟨packet, -, ⟨-, rfl⟩ | ⟨-, c₁, ⟨r, c₂⟩, h1, h2, rfl⟩⟩
  · exact Nat.le_refl _
  · exact Nat.le_refl _
  · have hc₁ : c.state.rank ≤ c₁.state.rank := by
      rw [(authenticate_outer h1).state]
      exact Nat.le_refl _
    cases r with
    | ok u =>
        rw [(afterPacket_ok now _ _ c₂).1]
        exact processPacket_inv (I := fun x => c.state.rank ≤ x.state.rank) (fun _ _ _ hm hx => hx.trans hm.rank)
          h2 hc₁
    | error e =>
        rw [(afterPacket_error now _ _ c₂ e).1]
        exact (State.rank_le_two (decide_eq_false hd)).trans (State.two_le_rank.mpr (errorState_isClosed e))

theorem pollTimers_cases (h : c.pollTimers now = .ok c') :
    (c'.state = c.state ∨ c'.state = .drained) ∧ c'.streams.events = c.streams.events := by
  rcases pollTimers_fired h with rfl | ⟨timer, hf⟩
  · exact ⟨.inl rfl, rfl⟩
  · cases hf with
    | lossDetection h =>
        have hi := onLossDetectionTimeout_inner h
        exact ⟨.inl hi.state, hi.events.eq⟩
    | close => exact ⟨.inr rfl, rfl⟩
    | maxAckDelay => exact ⟨.inl rfl, rfl⟩
    | other _ _ _ => exact ⟨.inl rfl, rfl⟩

theorem close_cases (c : Connection) (now : Instant) (errorCode : ℕ) (reason : Bytes) :
    c.close now errorCode reason = c ∨ (c.state.isClosed = false ∧
      (c.close now errorCode reason).state.isClosed = true ∧
      (c.close now errorCode reason).streams = c.streams) := by
  unfold close
  split_ifs with hclosed
  · exact .inl rfl
  · exact .inr ⟨Bool.eq_false_iff.mpr hclosed, rfl, rfl⟩

/-! ## An open connection -/

/-- What is known of a connection while it is open. -/
theorem FrameMove.lived {r : Except TransportError Bool} (h : FrameMove c r c') (hr : r ≠ .ok false)
    (hc : c.Lived ∧ c.state.isClosed = false) : c'.Lived ∧ c'.state.isClosed = false := by
  obtain ⟨hc, hopen⟩ := hc
  cases h with
  | acked h _ =>
      have hi := onAckReceived_inner h
      exact ⟨hc.inner hi, by rw [hi.state, hopen]⟩
  | crypto id =>
      rcases c.onCrypto_state id with ⟨hs, he⟩ | ⟨hs, hs', he⟩
      · exact ⟨hc.reports hs (.of_eq he), by rw [hs, hopen]⟩
      · have e1 : (c.onCrypto id).lostCount = 0 := by
          rw [← hc.unlost hopen, lostCount, he, List.countP_append]
          rfl
        have e2 : (c.onCrypto id).connectedCount = 1 := by
          rw [connectedCount, he, List.countP_append]
          exact congrArg (· + 1) (hc.unconnected hs)
        refine ⟨⟨by rw [e1]; exact Nat.zero_le 1, fun _ => e1, e2.le, fun hh => ?_⟩, by rw [hs']; rfl⟩
        rw [hs'] at hh
        cases hh
  | immediate id => exact ⟨hc.reports rfl (.of_eq rfl), hopen⟩
  | streams hs _ => exact ⟨hc.reports rfl hs, hopen⟩
  | killed reason => exact absurd rfl hr
  | _ => exact ⟨hc, hopen⟩

/-- **The frames of a packet of an open connection.** -/
theorem processPacket_lived {number : Option ℕ} {packet : Packet} {r : Except ConnectionError Unit}
    (hc : c.Lived) (hopen : c.state.isClosed = false) (h : c.processPacket now number packet = .ok (r, c')) :
    c'.Lived ∧ (c'.state.isClosed = true → r = .ok ()) := by
  rcases processPacket_ends (fun _ _ _ hm hr => hm.lived hr) h ⟨hc, hopen⟩ with
    ⟨hc', hopen'⟩ | ⟨hr, c₁, reason, ⟨hc₁, hopen₁⟩, rfl⟩
  · exact ⟨hc', fun hclosed => absurd (hopen'.symm.trans hclosed) Bool.noConfusion⟩
  · exact ⟨hc₁.end (hc₁.unlost hopen₁) rfl rfl, fun _ => hr⟩

theorem handleData_lived {data : Bytes} (hc : c.Lived) (hopen : c.state.isClosed = false)
    (h : c.handleData now data = .ok c') : c'.Lived := by
  rcases handleData_cases h with ⟨-, rfl⟩ | ⟨packet, -, ⟨-, rfl⟩ | ⟨-, c₁, ⟨r, c₂⟩, h1, h2, rfl⟩⟩
  · exact hc
  · exact hc.reports rfl (.of_eq rfl)
  · have ho := authenticate_outer h1
    have hscreened : (c.screened packet.header).Lived := hc.reports rfl (.of_eq rfl)
    obtain ⟨hc₂, hok⟩ := processPacket_lived (hscreened.outer ho) (by rw [ho.state]; exact hopen) h2
    cases r with
    | ok u =>
        obtain ⟨hs, he⟩ := afterPacket_ok now c.state.isClosed c.state.isDrained c₂
        exact hc₂.reports hs (.of_eq (by rw [he]))
    | error e =>
        obtain ⟨hs, he⟩ := afterPacket_error now c.state.isClosed c.state.isDrained c₂ e
        have hopen₂ : c₂.state.isClosed = false := by
          rw [Bool.eq_false_iff]
          exact fun hclosed => by cases hok hclosed
        exact hc₂.end (hc₂.unlost hopen₂) (by rw [hs]; exact errorState_isClosed e) he

end Packets

end Connection

/-! ## A closed connection -/

/-- The stream of the frame has not been finished by the application. -/
def StreamsState.unfinished (s : StreamsState) (frame : StreamMeta) : Bool :=
  (s.send frame.id).all fun stream => stream.state = .ready || stream.state = .resetSent

/-- An ACK of a frame of such a stream is not reported. -/
theorem StreamsState.receivedAckOf_unfinished {s s' : StreamsState} {frame : StreamMeta}
    (hs : s.unfinished frame = true) (h : s.receivedAckOf frame = .ok s') :
    s'.events = s.events ∧ ∀ m, s.unfinished m = true → s'.unfinished m = true := by
  obtain ⟨rfl, -⟩ | ⟨stream, pending, hstream, hlive, -, hcase⟩ := receivedAckOf_cases h
  · exact ⟨rfl, fun _ hm => hm⟩
  have hready : stream.state = .ready := by
    unfold unfinished at hs
    rw [hstream] at hs
    simpa [hlive] using hs
  obtain ⟨hst, -⟩ | rfl := hcase
  · exact absurd hready hst
  · refine ⟨rfl, fun m hm => ?_⟩
    unfold unfinished setSend
    dsimp only
    by_cases hid : m.id = frame.id
    · rw [hid, Function.update_self]
      simp [hready]
    · rw [Function.update_of_ne hid]
      exact hm

namespace Connection

/-- Every packet in flight that the ACK frame acknowledges carried only data of streams that are not
finished. -/
def quietAck (c : Connection) (id : SpaceId) (ack : Ack) : Bool :=
  match ack.iter with
  | .ok ranges => (c.spaces id).sentPackets.entries.all fun p =>
      p.2.streamFrames.all c.streams.unfinished || !ranges.any fun r => r.1 ≤ p.1 && p.1 ≤ r.2
  | .error _ => true

/-- A closed connection reports nothing of the ACK frame, or, if it is not `lost` yet, that it is. -/
def silentAck (lost : Bool) (id : SpaceId) (c : Connection) (ack : Ack) : Bool :=
  if c.acceptsAck id ack then c.quietAck id ack else !lost

/-- The same for the frames of `process_early_payload`. -/
def silentEarly (lost : Bool) (id : SpaceId) (c : Connection) : Frame → Bool
  | .padding | .ping | .crypto .. => true
  | .ack ack => c.silentAck lost id ack
  | _ => !lost

/-- The same for the frames of `process_payload`. -/
def silentData (lost : Bool) (id : SpaceId) (c : Connection) : Frame → Bool
  | .ack ack => c.silentAck lost id ack
  | .stream _ | .resetStream _ | .stopSending _ => false
  | .close _ => !lost
  | _ => true

/-- The same for the frames of a packet, each of which meets the connection as the ones before it have
left it. -/
def silentFrames (lost : Bool) (silent : Connection → Frame → Bool) (handle : Connection → Frame → Handled) :
    ℕ → FrameParser → Connection → Bool
  | 0, _, _ => true
  | n + 1, parser, c =>
    match (parser.next : Checked _) with
    | .ok (some (.error _), _) => !lost
    | .ok (some (.ok frame), parser) => silent c frame && match (handle c frame : Handled) with
      | .ok (.ok true, c) => silentFrames lost silent handle n parser c
      | _ => true
    | _ => true

/-- The same for a payload. -/
def silentPayload (lost : Bool) (silent : Connection → Frame → Bool) (c : Connection) (payload : Bytes)
    (handle : Connection → Frame → Handled) : Bool :=
  match FrameParser.new payload with
  | .error _ => !lost
  | .ok parser => silentFrames lost silent handle (payload.length + 1) parser c

/-- The same for a packet. -/
def silentPacket (lost : Bool) (c : Connection) (now : Instant) (number : Option ℕ) (packet : Packet) : Bool :=
  match packet.header.space, number with
  | .initial, _ | .handshake, _ => c.silentPayload lost (silentEarly lost packet.header.space) packet.payload
      (handleEarlyFrame now packet.header.space)
  | .data, none => !lost
  | .data, some _ => c.silentPayload lost (silentData lost packet.header.space) packet.payload
      (handleFrame now packet.header.space packet.payload.length)

section Silent

variable {c c' : Connection} {now : Instant} {id : SpaceId} {lost : Bool}

/-- Neither the state changed nor was anything reported. -/
structure Still (c c' : Connection) : Prop where
  state : c'.state = c.state
  events : c'.streams.events = c.streams.events

theorem Still.refl (c : Connection) : Still c c := ⟨rfl, rfl⟩

theorem Still.trans {c₁ c₂ c₃ : Connection} (h : Still c₁ c₂) (h' : Still c₂ c₃) : Still c₁ c₃ :=
  ⟨h'.state.trans h.state, h'.events.trans h.events⟩

theorem Inner.still (h : Inner false c c') : Still c c' := ⟨h.state, h.events.eq⟩

theorem Outer.still (h : Outer false c c') : Still c c' := ⟨h.state, h.events.eq⟩

/-- The streams learn which of their frames a packet carried. -/
theorem ackOne_streams {l l' : AckLoop} {pn : ℕ} {packet : SentPacket}
    (hf : (l.c.spaces id).sentPackets.find? pn = some packet) (h : ackOne id l pn = .ok l') :
    run StreamsState.receivedAckOf l.c.streams packet.streamFrames = .ok l'.c.streams := by
  obtain ⟨hnone, -⟩ | ⟨p, s, removed, path, hfound, -, hs, -, -, hc⟩ := ackOne_cases h
  · rw [hf] at hnone
    cases hnone
  · rw [hf] at hfound
    cases hfound
    rw [hc]
    exact hs

/-- Packets that carried only data of unfinished streams are acknowledged without a report. -/
theorem ackLoop_silent {l l' : AckLoop} {pns : List ℕ} (h : run (ackOne id) l pns = .ok l')
    (hq : ∀ p ∈ (l.c.spaces id).sentPackets.entries, p.1 ∈ pns → ∀ m ∈ p.2.streamFrames,
      l.c.streams.unfinished m = true) : l'.c.streams.events = l.c.streams.events := by
  induction pns generalizing l with
  | nil =>
      cases h
      rfl
  | cons pn pns ih =>
      obtain ⟨l₁, h1, h2⟩ := Checked.bind_eq_ok.mp h
      rcases ackOne_ok h1 with ⟨rfl, -⟩ | ⟨packet, s, hr, -, -⟩
      · exact ih h2 fun p hp hpn => hq p hp (List.mem_cons_of_mem pn hpn)
      · have hframes := hq _ (OrdMap.find?_eq_some.mp hr.found) List.mem_cons_self
        have hrun : l₁.c.streams.events = l.c.streams.events ∧
            ∀ m, l.c.streams.unfinished m = true → l₁.c.streams.unfinished m = true := by
          refine run_inv (I := fun s : StreamsState => s.events = l.c.streams.events ∧
              ∀ m, l.c.streams.unfinished m = true → s.unfinished m = true)
            (fun s m s' hx hm hstep => ?_) ⟨rfl, fun _ hm => hm⟩ (Meets.of_forall hframes)
            (ackOne_streams hr.found h1)
          obtain ⟨he, hu⟩ := StreamsState.receivedAckOf_unfinished (hx.2 m hm) hstep
          exact ⟨he.trans hx.1, fun m hm => hu m (hx.2 m hm)⟩
        rw [ih h2 fun p hp hpn m hm => ?_]
        · exact hrun.1
        · rw [hr.sentPackets] at hp
          exact hrun.2 m (hq p (OrdMap.mem_erase.mp hp).1 (List.mem_cons_of_mem pn hpn) m hm)

theorem onAckReceived_silent {ack : Ack} {r : Except TransportError Unit} (hs : c.silentAck lost id ack = true)
    (h : c.onAckReceived now id ack = .ok (r, c')) : Still c c' ∧ (lost = true → r = .ok ()) := by
  have hstate := (onAckReceived_inner h).state
  unfold silentAck at hs
  rcases onAckReceived_cases h with ⟨ha, -, rfl⟩ | ⟨ha, rfl, ranges, l, hranges, hl, hnews⟩
  · rw [ha] at hs
    exact ⟨.refl _, fun hl => by rw [hl] at hs; cases hs⟩
  · rw [ha] at hs
    have hevents : l.c.streams.events = c.streams.events := by
      refine ackLoop_silent hl fun p hp hpn m hm => ?_
      obtain ⟨rg, hrg, hle⟩ := mem_flatMap_rangeInclusive.mp hpn
      have hp' : (p.2.streamFrames.all c.streams.unfinished ||
          !ranges.any fun r => decide (r.1 ≤ p.1) && decide (p.1 ≤ r.2)) = true := by
        have hall : c.quietAck id ack = true := hs
        unfold quietAck at hall
        rw [hranges] at hall
        exact List.all_eq_true.mp hall p hp
      have hany : (ranges.any fun r => decide (r.1 ≤ p.1) && decide (p.1 ≤ r.2)) = true :=
        List.any_eq_true.mpr ⟨rg, hrg, by simpa using hle⟩
      rw [hany, Bool.not_true, Bool.or_false] at hp'
      exact List.all_eq_true.mp hp' m hm
    rcases hnews with rfl | hnews
    · exact ⟨⟨hstate, hevents⟩, fun _ => rfl⟩
    · exact ⟨⟨hstate, (ackNews_inner hnews).events.eq.trans hevents⟩, fun _ => rfl⟩

/-- How the loop goes on after a frame of which nothing is reported. -/
def Hushed (lost : Bool) (c : Connection) (r : Except TransportError Bool) (c' : Connection) : Prop :=
  (Still c c' ∧ r ≠ .ok false ∧ (lost = true → r = .ok true)) ∨
    (lost = false ∧ r = .ok false ∧ ∃ reason, c' = c.kill reason)

theorem Hushed.of_still {c' : Connection} (h : Still c c') : Hushed lost c (.ok true) c' :=
  .inl ⟨h, nofun, fun _ => rfl⟩

theorem Hushed.of_ack {ack : Ack} {r : Except TransportError Unit} (hs : c.silentAck lost id ack = true)
    (h : c.onAckReceived now id ack = .ok (r, c')) : Hushed lost c (r.map fun _ => true) c' := by
  obtain ⟨hstill, hr⟩ := onAckReceived_silent hs h
  exact .inl ⟨hstill, map_true_ne r, fun hl => by rw [hr hl]; rfl⟩

/-- Of a closed connection a CRYPTO frame is not reported. -/
theorem onCrypto_still (hclosed : c.state.isClosed = true) (id : SpaceId) : Still c (c.onCrypto id) := by
  rcases c.onCrypto_state id with ⟨hs, he⟩ | ⟨hs, -, -⟩
  · exact ⟨hs, he⟩
  · rw [hs] at hclosed
    cases hclosed

theorem handleEarlyFrame_hushed {frame : Frame} {r : Except TransportError Bool} (hclosed : c.state.isClosed = true)
    (hs : c.silentEarly lost id frame = true) (h : handleEarlyFrame now id c frame = .ok (r, c')) :
    Hushed lost c r c' := by
  have hlost : (!lost) = true → lost = false := fun h => by simpa using h
  cases frame with
  | padding | ping =>
      cases h
      exact .of_still (.refl c)
  | ack ack =>
      obtain ⟨⟨r, c₁⟩, h1, h⟩ := Checked.bind_eq_ok.mp h
      cases h
      exact .of_ack hs h1
  | crypto offset data =>
      cases h
      exact .of_still (onCrypto_still hclosed id)
  | close reason =>
      cases h
      exact .inr ⟨hlost hs, rfl, _, rfl⟩
  | _ =>
      cases h
      exact .inl ⟨.refl c, nofun, fun hl => by rw [hlost hs] at hl; cases hl⟩

theorem handleFrame_hushed {payloadLen : ℕ} {frame : Frame} {r : Except TransportError Bool}
    (hs : c.silentData lost id frame = true) (h : handleFrame now id payloadLen c frame = .ok (r, c')) :
    Hushed lost c r c' := by
  cases frame with
  | immediateAck =>
      cases h
      exact .of_still ⟨rfl, rfl⟩
  | ack ack =>
      obtain ⟨⟨r, c₁⟩, h1, h⟩ := Checked.bind_eq_ok.mp h
      cases h
      exact .of_ack hs h1
  | stream _ | resetStream _ | stopSending _ => cases hs
  | close reason =>
      cases h
      exact .inr ⟨by simpa [silentData] using hs, rfl, _, rfl⟩
  | _ =>
      cases h
      exact .of_still (.refl c)

/-- How a packet of which nothing is reported ends. -/
def Hushes (lost : Bool) (c : Connection) (ok : Prop) (c' : Connection) : Prop :=
  (Still c c' ∧ (lost = true → ok)) ∨ (lost = false ∧ ok ∧ ∃ c₁ reason, Still c c₁ ∧ c' = c₁.kill reason)

theorem Walk.hushes {silent : Connection → Frame → Bool} {handle : Connection → Frame → Handled}
    (hh : ∀ c frame r c', c.state.isClosed = true → silent c frame = true → handle c frame = .ok (r, c') →
      Hushed lost c r c') {n : ℕ} {parser : FrameParser} {r : Except TransportError Unit}
    (hclosed : c.state.isClosed = true) (hs : silentFrames lost silent handle n parser c = true)
    (hw : Walk handle n parser c r c') : Hushes lost c (r = .ok ()) c' := by
  induction hw with
  | out => exact .inl ⟨.refl _, fun _ => rfl⟩
  | ended _ => exact .inl ⟨.refl _, fun _ => rfl⟩
  | malformed hn =>
      unfold silentFrames at hs
      rw [hn] at hs
      exact .inl ⟨.refl _, fun hl => by rw [hl] at hs; cases hs⟩
  | rejected hn h =>
      unfold silentFrames at hs
      rw [hn] at hs
      obtain ⟨hframe, -⟩ := Bool.and_eq_true_iff.mp hs
      rcases hh _ _ _ _ hclosed hframe h with ⟨hstill, -, hok⟩ | ⟨-, e, -⟩
      · exact .inl ⟨hstill, fun hl => by cases hok hl⟩
      · cases e
  | closed hn h =>
      unfold silentFrames at hs
      rw [hn] at hs
      obtain ⟨hframe, -⟩ := Bool.and_eq_true_iff.mp hs
      rcases hh _ _ _ _ hclosed hframe h with ⟨-, hne, -⟩ | ⟨hl, -, reason, rfl⟩
      · exact absurd rfl hne
      · exact .inr ⟨hl, rfl, _, reason, .refl _, rfl⟩
  | next hn h _ ih =>
      unfold silentFrames at hs
      rw [hn] at hs
      obtain ⟨hframe, hs⟩ := Bool.and_eq_true_iff.mp hs
      rw [h] at hs
      rcases hh _ _ _ _ hclosed hframe h with ⟨hstill, -, -⟩ | ⟨-, e, -⟩
      · rcases ih (by rw [hstill.state, hclosed]) hs with ⟨hstill', hr⟩ | ⟨hl, hr, c₂, reason, hstill', e⟩
        · exact .inl ⟨hstill.trans hstill', hr⟩
        · exact .inr ⟨hl, hr, c₂, reason, hstill.trans hstill', e⟩
      · cases e

theorem processFrames_hushes {silent : Connection → Frame → Bool} {handle : Connection → Frame → Handled}
    (hh : ∀ c frame r c', c.state.isClosed = true → silent c frame = true → handle c frame = .ok (r, c') →
      Hushed lost c r c') {payload : Bytes} {r : Except TransportError Unit} (hclosed : c.state.isClosed = true)
    (hs : c.silentPayload lost silent payload handle = true) (h : c.processFrames payload handle = .ok (r, c')) :
    Hushes lost c (r = .ok ()) c' := by
  unfold silentPayload at hs
  rcases processFrames_cases h with ⟨e, hp, -, rfl⟩ | ⟨parser, hp, hw⟩
  · rw [hp] at hs
    exact .inl ⟨.refl _, fun hl => by rw [hl] at hs; cases hs⟩
  · rw [hp] at hs
    exact hw.hushes hh hclosed hs

/-- **How a packet of which nothing is reported ends.** -/
theorem processPacket_hushes {number : Option ℕ} {packet : Packet} {r : Except ConnectionError Unit}
    (hclosed : c.state.isClosed = true) (hs : c.silentPacket lost now number packet = true)
    (h : c.processPacket now number packet = .ok (r, c')) : Hushes lost c (r = .ok ()) c' := by
  have hmap : ∀ {r : Except TransportError Unit} {c'}, Hushes lost c (r = .ok ()) c' →
      Hushes lost c (r.mapError ConnectionError.transportError = .ok ()) c' := by
    intro r c' hr
    cases r with
    | error e => exact hr.imp (And.imp_right fun h hl => by cases h hl) fun ⟨_, h, _⟩ => by cases h
    | ok u => exact hr.imp (And.imp_right fun _ _ => rfl) fun ⟨hl, _, hk⟩ => ⟨hl, rfl, hk⟩
  unfold silentPacket at hs
  rcases processPacket_cases h with ⟨r', hid, h1, rfl⟩ | ⟨hid, rfl, -, rfl⟩ | ⟨n, r', hid, rfl, h1, rfl⟩
  · have hs' : c.silentPayload lost (silentEarly lost packet.header.space) packet.payload
        (handleEarlyFrame now packet.header.space) = true := by
      rcases hid with hid | hid <;> rwa [hid] at hs ⊢
    exact hmap (processFrames_hushes (fun _ _ _ _ => handleEarlyFrame_hushed) hclosed hs' h1)
  · rw [hid] at hs
    exact .inl ⟨.refl _, fun hl => by rw [hl] at hs; cases hs⟩
  · rw [hid] at hs h1
    exact hmap (processFrames_hushes (fun _ _ _ _ _ => handleFrame_hushed) hclosed hs h1)

/-- Nothing was reported, or, for the first time, that the connection is lost. -/
def Silence (c c' : Connection) : Prop :=
  c'.streams.events = c.streams.events ∨
    (c.lostCount = 0 ∧ ∃ e, c'.streams.events = c.streams.events ++ [.connectionLost e])

/-- A closed connection that is given the datagram reports nothing, or that it is lost. -/
def quietData (c : Connection) (now : Instant) (data : Bytes) : Bool :=
  (packetOf data).all fun packet => !c.accepts packet.header ||
    (c.screened packet.header).silentPacket (0 < c.lostCount) now (c.arrival packet.header) packet

theorem handleData_silence {data : Bytes} (hclosed : c.state.isClosed = true) (hq : c.quietData now data = true)
    (h : c.handleData now data = .ok c') : Silence c c' := by
  rcases handleData_cases h with ⟨-, rfl⟩ | ⟨packet, hp, ⟨-, rfl⟩ | ⟨ha, c₁, ⟨r, c₂⟩, h1, h2, rfl⟩⟩
  · exact .inl rfl
  · exact .inl rfl
  · unfold quietData at hq
    rw [hp, Option.all_some, ha, Bool.not_true, Bool.false_or] at hq
    obtain rfl : c₁ = c.screened packet.header := by
      rcases authenticate_cases h1 with ⟨-, e⟩ | ⟨hopen, -⟩
      · exact e
      · rw [hclosed] at hopen
        cases hopen
    have hnone : decide (0 < c.lostCount) = false → c.lostCount = 0 := fun h =>
      Nat.eq_zero_of_not_pos (of_decide_eq_false h)
    have hclosed' : (c.screened packet.header).state.isClosed = true := hclosed
    rcases processPacket_hushes hclosed' hq h2 with ⟨hstill, hr⟩ | ⟨hl, rfl, c₃, reason, hstill, rfl⟩
    · cases r with
      | ok u =>
          left
          rw [(afterPacket_ok now _ _ c₂).2, hstill.events]
          rfl
      | error e =>
          refine .inr ⟨hnone (Bool.eq_false_iff.mpr fun hl => ?_), e, ?_⟩
          · cases hr hl
          · rw [(afterPacket_error now _ _ c₂ e).2, hstill.events]
            rfl
    · refine .inr ⟨hnone hl, reason, ?_⟩
      rw [(afterPacket_ok now _ _ (c₃.kill reason)).2]
      exact congrArg (· ++ [Event.connectionLost reason]) hstill.events

/-- What a closed connection has reported after it was silent. -/
theorem Silence.lived (h : Silence c c') (hc : c.Lived) (hclosed : c'.state.isClosed = true) : c'.Lived := by
  rcases h with he | ⟨hnone, e, he⟩
  · obtain ⟨e1, e2⟩ := counts_of_reports (.of_eq he)
    refine ⟨by rw [e1]; exact hc.lost, fun ho => ?_, by rw [e2]; exact hc.connected, fun hh => ?_⟩
    · rw [hclosed] at ho
      cases ho
    · rw [hh] at hclosed
      cases hclosed
  · exact hc.end hnone hclosed he

end Silent

end Connection

open Connection

/-! ## Runs -/

/-- If the connection is closed and the step gives it a datagram, it reports nothing of it, or for the first
time that it is lost. -/
def ConnectionOp.quiet (c : Connection) : ConnectionOp → Bool
  | .handleData now data => !c.state.isClosed || c.quietData now data
  | _ => true

section Steps

variable {c c' : Connection} {op : ConnectionOp}

/-- **The state only moves forward.** -/
theorem connectionStep_rank (hop : op.inTask = true) (hd : c.state ≠ .drained) (h : connectionStep c op = .ok c') :
    c.state.rank ≤ c'.state.rank := by
  cases op with
  | pollTransmit now =>
      obtain ⟨⟨more, c₁⟩, h1, h⟩ := Checked.bind_eq_ok.mp h
      cases h
      rw [(pollTransmit_outer h1).state]
  | sendOne t =>
      cases h
      rw [(sendOne_inner c t).state]
  | pollTimers now =>
      rcases (pollTimers_cases h).1 with hs | hs
      · rw [hs]
      · rw [hs]
        exact (State.rank_le_two (decide_eq_false hd)).trans (by decide)
  | handleData now data => exact handleData_rank hd h
  | handleFirstPacket now packet => cases hop
  | close now errorCode reason =>
      cases h
      rcases c.close_cases now errorCode reason with e | ⟨-, hclosed, -⟩
      · rw [e]
      · exact (State.rank_le_two (decide_eq_false hd)).trans (State.two_le_rank.mpr hclosed)
  | _ => rw [(connectionStep_call_inner rfl h).state]

/-- **What a closed connection reports**: nothing, or for the first time that it is lost. -/
theorem connectionStep_silence (hclosed : c.state.isClosed = true) (hop : op.inTask = true)
    (hq : op.quiet c = true) (h : connectionStep c op = .ok c') : Silence c c' := by
  cases op with
  | pollTransmit now =>
      obtain ⟨⟨more, c₁⟩, h1, h⟩ := Checked.bind_eq_ok.mp h
      cases h
      exact .inl (pollTransmit_outer h1).events.eq
  | sendOne t =>
      cases h
      exact .inl (sendOne_inner c t).events.eq
  | pollTimers now => exact .inl (pollTimers_cases h).2
  | handleData now data =>
      have hq : (!c.state.isClosed || c.quietData now data) = true := hq
      rw [hclosed, Bool.not_true, Bool.false_or] at hq
      exact handleData_silence hclosed hq h
  | handleFirstPacket now packet => cases hop
  | close now errorCode reason =>
      cases h
      rcases c.close_cases now errorCode reason with e | ⟨hopen, -⟩
      · rw [e]
        exact .inl rfl
      · exact absurd (hopen.symm.trans hclosed) Bool.noConfusion
  | _ => exact .inl (connectionStep_call_inner rfl h).events.eq

theorem connectionStep_lived (hc : c.Lived) (hop : op.inTask = true) (hd : c.state ≠ .drained)
    (hq : op.quiet c = true) (h : connectionStep c op = .ok c') : c'.Lived := by
  cases hclosed : c.state.isClosed with
  | true =>
      refine (connectionStep_silence hclosed hop hq h).lived hc ?_
      rw [← State.two_le_rank] at hclosed ⊢
      exact hclosed.trans (connectionStep_rank hop hd h)
  | false =>
      cases op with
      | pollTransmit now =>
          obtain ⟨⟨more, c₁⟩, h1, h⟩ := Checked.bind_eq_ok.mp h
          cases h
          exact hc.outer (pollTransmit_outer h1)
      | sendOne t =>
          cases h
          exact hc.inner (sendOne_inner c t)
      | pollTimers now =>
          obtain ⟨hs | hs, he⟩ := pollTimers_cases h
          · exact hc.reports hs (.of_eq he)
          · exact Silence.lived (.inl he) hc (by rw [hs]; rfl)
      | handleData now data => exact handleData_lived hc hclosed h
      | handleFirstPacket now packet => cases hop
      | close now errorCode reason =>
          cases h
          rcases c.close_cases now errorCode reason with e | ⟨-, hclosed', he⟩
          · rwa [e]
          · exact Silence.lived (.inl (by rw [he])) hc hclosed'
      | _ => exact hc.inner (connectionStep_call_inner rfl h)

end Steps

theorem lived_new (now : Instant) (side : Side) : (Connection.new now side).Lived := by
  cases side <;> exact ⟨Nat.zero_le 1, fun _ => rfl, Nat.zero_le 1, fun _ => rfl⟩

theorem Connection.Starts.lived {c : Connection} {first : Option ℕ} (hc : Starts c first) : c.Lived := by
  cases hc with
  | client now => exact lived_new now .client
  | server now h =>
      obtain ⟨c₁, h1, h⟩ := Checked.bind_eq_ok.mp h
      have ho := onPacketAuthenticated_outer h1
      exact (processPacket_lived ((lived_new now .server).outer ho) (by rw [ho.state]; rfl) h).1

/-- **The life of a connection is one-way, and quiet after the close.** In every run of its task in which a
connection that is closed is given only datagrams of which nothing is reported: the state only moves
forward, the connection is reported as established at most once and as lost at most once, and nothing else
is reported once it is closed. -/
theorem lifecycle_one_way (c : Connection) (first : Option ℕ) (hc : Starts c first)
    (ops₁ ops₂ : List ConnectionOp) (hops : ∀ op ∈ ops₁ ++ ops₂, op.inTask = true)
    (hm : Meets connectionStep (fun c op => c.state ≠ .drained ∧ op.quiet c = true) c (ops₁ ++ ops₂))
    (c₁ c₂ : Connection) (h₁ : run connectionStep c ops₁ = .ok c₁) (h₂ : run connectionStep c₁ ops₂ = .ok c₂) :
    c₁.state.rank ≤ c₂.state.rank ∧ c₂.connectedCount ≤ 1 ∧ c₂.lostCount ≤ 1 ∧
      (c₁.state.isClosed = true → ∃ later, c₂.streams.events = c₁.streams.events ++ later ∧
        ∀ e ∈ later, e.isLost = true) := by
  have hm' := Meets.and (Meets.of_forall hops) hm
  have hlived₁ : c₁.Lived := run_inv (fun _ _ _ hx hok hs => connectionStep_lived hx hok.1 hok.2.1 hok.2.2 hs)
    hc.lived hm'.left h₁
  have hm₂ := hm'.of_append h₁
  have hlived₂ : c₂.Lived := run_inv (fun _ _ _ hx hok hs => connectionStep_lived hx hok.1 hok.2.1 hok.2.2 hs)
    hlived₁ hm₂ h₂
  have hrank : c₁.state.rank ≤ c₂.state.rank :=
    run_inv (I := fun x => c₁.state.rank ≤ x.state.rank)
      (fun _ _ _ hx hok hs => hx.trans (connectionStep_rank hok.1 hok.2.1 hs)) (Nat.le_refl _) hm₂ h₂
  refine ⟨hrank, hlived₂.connected, hlived₂.lost, fun hclosed => ?_⟩
  -- once closed, every step reports the loss of the connection at most
  refine (run_inv (I := fun x => x.state.isClosed = true ∧ ∃ later, x.streams.events = c₁.streams.events ++ later ∧
      ∀ e ∈ later, e.isLost = true) (fun x op x' hx hok hs => ?_)
    ⟨hclosed, [], (List.append_nil _).symm, fun e he => by cases he⟩ hm₂ h₂).2
  obtain ⟨hx, later, he, hall⟩ := hx
  constructor
  · rw [← State.two_le_rank] at hx ⊢
    exact hx.trans (connectionStep_rank hok.1 hok.2.1 hs)
  · rcases connectionStep_silence hx hok.1 hok.2.2 hs with he' | ⟨-, e, he'⟩
    · exact ⟨later, he'.trans he, hall⟩
    · refine ⟨later ++ [.connectionLost e], by rw [he', he, List.append_assoc], fun e' he' => ?_⟩
      rcases List.mem_append.mp he' with h | h
      · exact hall e' h
      · rw [List.mem_singleton.mp h]
        rfl

/-- A client that is closed is told by the peer that it has closed too. -/
theorem lifecycle_one_way_closed : ∃ ops₁ ops₂ c₁ c₂, run connectionStep (Connection.new 0 .client) ops₁ = .ok c₁ ∧
    run connectionStep c₁ ops₂ = .ok c₂ ∧ c₁.state.isClosed = true ∧ c₂.connectedCount = 1 ∧ c₂.lostCount = 1 ∧
    ∃ later, c₂.streams.events = c₁.streams.events ++ later ∧ ∀ e ∈ later, e.isLost = true := by
  let ops₁ : List ConnectionOp := [.pollTransmit 1, .sendOne 1, .handleData 2 (initialDatagram 0 [6, 0, 1, 0]),
    .close 3 0 []]
  let ops₂ : List ConnectionOp := [.handleData 4 (shortDatagram 0 [1]), .handleData 5 (shortDatagram 1 [29, 0, 0])]
  obtain ⟨c₁, h₁, hv⟩ := Checked.map_eq_ok.mp (show (fun c : Connection => (c.state.isClosed,
      (fun c : Connection => (c.connectedCount, c.lostCount)) <$> run connectionStep c ops₂,
      decide (Meets connectionStep (fun c op => c.state ≠ .drained ∧ op.quiet c = true) (Connection.new 0 .client)
        (ops₁ ++ ops₂)))) <$> run connectionStep (Connection.new 0 .client) ops₁ = .ok (true, .ok (1, 1), true)
      by decide +kernel)
  obtain ⟨hclosed, hv⟩ := Prod.mk.inj hv
  obtain ⟨hv, hmeets⟩ := Prod.mk.inj hv
  obtain ⟨c₂, h₂, hv⟩ := Checked.map_eq_ok.mp hv
  obtain ⟨hconnected, hlost⟩ := Prod.mk.inj hv
  obtain ⟨-, -, -, hlater⟩ := lifecycle_one_way _ none (.client 0) ops₁ ops₂ (by decide) (of_decide_eq_true hmeets)
    c₁ c₂ h₁ h₂
  exact ⟨ops₁, ops₂, c₁, c₂, h₁, h₂, hclosed, hconnected, hlost, hlater hclosed⟩

/-- A client that is closed reports data of the peer, and one that has failed is lost a second time when the
peer closes. -/
theorem reports_after_close :
    (∃ ops₁ ops₂ c₁ c₂, (∀ op ∈ ops₁ ++ ops₂, ConnectionOp.inTask op = true) ∧
      Meets connectionStep (fun c _ => c.state ≠ .drained) (Connection.new 0 .client) (ops₁ ++ ops₂) ∧
      run connectionStep (Connection.new 0 .client) ops₁ = .ok c₁ ∧ run connectionStep c₁ ops₂ = .ok c₂ ∧
      c₁.state.isClosed = true ∧ c₂.streams.events = c₁.streams.events ++ [.stream (.readable ⟨1⟩)]) ∧
    ∃ ops c, (∀ op ∈ ops, ConnectionOp.inTask op = true) ∧
      Meets connectionStep (fun c _ => c.state ≠ .drained) (Connection.new 0 .client) ops ∧
      run connectionStep (Connection.new 0 .client) ops = .ok c ∧ c.lostCount = 2 := by
  let hello : List ConnectionOp := [.pollTransmit 1, .sendOne 1, .handleData 2 (initialDatagram 0 [6, 0, 1, 0])]
  constructor
  · let ops₁ := hello ++ [.close 3 0 []]
    let ops₂ : List ConnectionOp := [.handleData 4 (shortDatagram 0 [8, 1, 7])]
    obtain ⟨c₁, h₁, hv⟩ := Checked.map_eq_ok.mp (show (fun c : Connection => (c.state.isClosed,
        (fun c' : Connection => decide (c'.streams.events = c.streams.events ++ [.stream (.readable ⟨1⟩)])) <$>
          run connectionStep c ops₂)) <$> run connectionStep (Connection.new 0 .client) ops₁ =
            .ok (true, .ok true) by decide +kernel)
    obtain ⟨hclosed, hv⟩ := Prod.mk.inj hv
    obtain ⟨c₂, h₂, hv⟩ := Checked.map_eq_ok.mp hv
    exact ⟨ops₁, ops₂, c₁, c₂, by decide, by decide +kernel, h₁, h₂, hclosed, of_decide_eq_true hv⟩
  · let ops := hello ++ [.handleData 3 (shortDatagram 0 [8, 0]), .handleData 4 (shortDatagram 1 [29, 0, 0])]
    obtain ⟨c, h, hv⟩ := Checked.map_eq_ok.mp (show lostCount <$>
      run connectionStep (Connection.new 0 .client) ops = .ok 2 by decide +kernel)
    exact ⟨ops, c, by decide, by decide +kernel, h, hv⟩

end MzQuic
