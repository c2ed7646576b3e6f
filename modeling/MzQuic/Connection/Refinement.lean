import MzQuic.Connection.Acks
import MzQuic.Connection.Book
import MzQuic.Connection.Inner
import MzQuic.Lib.Simulation

/-!
# A connection runs its streams

The streams of a connection change by operations of `StreamsState` only, and by the events that the
connection puts into the channel that they share. A frame that is in flight for the streams is one that a
packet carries, in the queue of the path or among the packets that were sent.

* `Packet.Reads`: the frames that the loop over a packet comes to, and `processPacket_reads`;
* `StreamsAct`, `ConnectionOp.Does`: what a step of the connection can do to its streams;
* `Projects`, `Refines`: a run of the streams follows the connection;
* `connectionStep_refines`: one step;
* **`connection_refines_streams`**: every run of a connection is a run of its streams in which frames are
  acknowledged and declared lost only while they are in flight.
-/

namespace MzQuic

open Lib

/-! ## The frames of a packet -/

/-- The parser comes to the frame. -/
inductive FrameParser.Reads : FrameParser → Frame → Prop
  | here {p p' : FrameParser} {f : Frame} (h : p.next = .ok (some (.ok f), p')) : Reads p f
  | later {p p' : FrameParser} {f g : Frame} (h : p.next = .ok (some (.ok g), p')) (hr : Reads p' f) : Reads p f

/-- The frame is one that the loop over the frames of a payload comes to. -/
def PayloadReads (payload : Bytes) (f : Frame) : Prop :=
  ∃ p, FrameParser.new payload = .ok p ∧ p.Reads f

/-- The parser of a payload that spells frames comes to these only. -/
theorem FrameParser.Spells.mem {fs : List Frame} {b : Bytes} (h : Spells fs b) {f : Frame}
    {ty : Option FrameType} (hr : FrameParser.Reads ⟨b, ty⟩ f) : f ∈ fs := by
  -- the next item of the parser is the first frame
  have hnext : ∀ {g : Frame} {b s : Bytes} {ty ty' : Option FrameType}, s.length < b.length →
      tryNext ⟨b, ty⟩ = .ok (.ok g, ⟨s, ty'⟩) → FrameParser.next ⟨b, ty⟩ = .ok (some (.ok g), ⟨s, ty'⟩) := by
    intro g b s ty ty' hlt ht
    have hne : b.isEmpty = false :=
      List.isEmpty_eq_false_iff.mpr (List.ne_nil_of_length_pos (Nat.zero_lt_of_lt hlt))
    unfold FrameParser.next
    simp only [hne, Bool.false_eq_true, if_false, ht, Checked.ok_bind, Checked.pure_eq]
  induction fs generalizing b ty with
  | nil =>
      cases h
      cases hr with
      | here h => cases h
      | later h _ => cases h
  | cons g gs ih =>
      obtain ⟨s, hlt, hs, hg⟩ := h
      obtain ⟨ty', ht⟩ := hg ty
      have hn := hnext hlt ht
      cases hr with
      | here h =>
          rw [hn] at h
          cases h
          exact List.mem_cons_self
      | later h hr =>
          rw [hn] at h
          cases h
          exact List.mem_cons_of_mem g (ih hs hr)

theorem PayloadReads.mem {payload : Bytes} {f : Frame} (h : PayloadReads payload f) {fs : List Frame}
    (hs : FrameParser.Spells fs payload) : f ∈ fs := by
  obtain ⟨p, hp, hr⟩ := h
  unfold FrameParser.new at hp
  split_ifs at hp
  cases hp
  exact hs.mem hr

/-- The frame is one that the loop over the frames of the packet comes to. -/
def Packet.Reads (packet : Packet) (f : Frame) : Prop := PayloadReads packet.payload f

namespace Connection

section Reads

variable {c c' : Connection} {now : Instant} {I : Connection → Prop}

/-- **What the handling of the frames that are read keeps, the loop keeps.** -/
theorem Walk.reads {handle : Connection → Frame → Handled} {n : ℕ} {parser : FrameParser}
    {r : Except TransportError Unit} (hw : Walk handle n parser c r c')
    (hh : ∀ c f r c', parser.Reads f → I c → handle c f = .ok (r, c') → I c') (hI : I c) : I c' := by
  induction hw with
  | out => exact hI
  | ended _ => exact hI
  | malformed _ => exact hI
  | rejected hn h => exact hh _ _ _ _ (.here hn) hI h
  | closed hn h => exact hh _ _ _ _ (.here hn) hI h
  | next hn h _ ih =>
      exact ih (fun c f r c' hr => hh c f r c' (.later hn hr)) (hh _ _ _ _ (.here hn) hI h)

/-- **What the handling of the frames of a packet keeps, the packet keeps.** -/
theorem processPacket_reads {number : Option ℕ} {packet : Packet} {r : Except ConnectionError Unit}
    (he : ∀ c f r c', packet.header.space ≠ .data → packet.Reads f → I c →
      handleEarlyFrame now packet.header.space c f = .ok (r, c') → I c')
    (hd : ∀ c f r c', packet.header.space = .data → packet.Reads f → I c →
      handleFrame now packet.header.space packet.payload.length c f = .ok (r, c') → I c')
    (h : c.processPacket now number packet = .ok (r, c')) (hI : I c) : I c' := by
  rcases processPacket_cases h with ⟨r', hs, h1, -⟩ | ⟨-, -, -, rfl⟩ | ⟨n, r', hs, -, h1, -⟩
  · have hearly : packet.header.space ≠ .data := by rcases hs with hs | hs <;> rw [hs] <;> nofun
    rcases processFrames_cases h1 with ⟨e, -, -, rfl⟩ | ⟨parser, hp, hw⟩
    · exact hI
    · exact hw.reads (fun c f r c' hr => he c f r c' hearly ⟨parser, hp, hr⟩) hI
  · exact hI
  · rcases processFrames_cases h1 with ⟨e, -, -, rfl⟩ | ⟨parser, hp, hw⟩
    · exact hI
    · exact hw.reads (fun c f r c' hr => hd c f r c' hs ⟨parser, hp, hr⟩) hI

end Reads

end Connection

/-! ## What happens to the streams -/

/-- The streams after the connection has put an event of its own into the channel. -/
def StreamsState.told (s : StreamsState) (e : Event) : StreamsState := { s with events := s.events ++ [e] }

/-- What happens to the streams of a connection: one of their operations, or an event of the connection. -/
inductive StreamsAct
  | op (o : StreamsOp)
  | told (e : Event)

/-- One act. -/
def actStep (r : StreamsRun) : StreamsAct → Checked StreamsRun
  | .op o => streamsStep r o
  | .told e => .ok { r with state := r.state.told e }

/-- A frame is resolved only while it is in flight. -/
def StreamsAct.Legal (r : StreamsRun) : StreamsAct → Prop
  | .op o => o.Legal r
  | .told _ => True

/-- The event is one of the connection itself. -/
def Event.ofConnection : Event → Bool
  | .connected | .connectionLost _ => true
  | .stream _ => false

/-- What a packet can do to the streams of a connection that was `c` before it. -/
inductive Packet.Does (c : Connection) (p : Packet) : StreamsAct → Prop
  | received {frame : Stream} (hs : p.header.space = .data) (h : p.Reads (.stream frame)) :
      Does c p (.op (.received frame p.payload.length))
  | receivedReset {frame : ResetStream} (hs : p.header.space = .data) (h : p.Reads (.resetStream frame)) :
      Does c p (.op (.receivedReset frame))
  | receivedStopSending {frame : StopSending} (hs : p.header.space = .data) (h : p.Reads (.stopSending frame)) :
      Does c p (.op (.receivedStopSending frame))
  | acked {ack : Ack} {ranges : List (ℕ × ℕ)} {pn : ℕ} {packet : SentPacket} {m : StreamMeta}
      (h : p.Reads (.ack ack)) (hr : ack.iter = .ok ranges) (hn : pn ∈ ranges.flatMap Connection.rangeInclusive)
      (hp : (pn, packet) ∈ (c.core.sent p.header.space).entries) (hm : m ∈ packet.streamFrames) :
      Does c p (.op (.receivedAckOf m))
  | lost {id : SpaceId} {q : ℕ × SentPacket} {m : StreamMeta} (hq : q ∈ (c.core.sent id).entries)
      (hm : m ∈ q.2.streamFrames) : Does c p (.op (.retransmit m))
  | told {e : Event} (he : e.ofConnection = true) : Does c p (.told e)

/-- The operation of the streams that a call of the application is. -/
def ConnectionOp.call (c : Connection) : ConnectionOp → Option StreamsOp
  | .openStream dir => some (.open dir)
  | .write id data => some (.write c.state.isClosed id data)
  | .finish id => some (.finish id)
  | .reset id errorCode => some (.reset id errorCode)
  | .setPriority id priority => some (.setPriority id priority)
  | .read id lengths => some (.read id lengths)
  | .stop id errorCode => some (.stop id errorCode)
  | .takeReset id => some (.takeReset id)
  | _ => none

/-- The streams of the run are those of the connection, and the frames in flight are those of its
packets. -/
structure Projects (c : Connection) (r : StreamsRun) : Prop where
  state : r.state = c.streams
  flight : r.flight.Perm c.core.frames

/-- What a step can do to the streams of a run. A call of the application comes as soon as the streams are those of the
connection. -/
inductive ConnectionOp.Does (c : Connection) (r : StreamsRun) : ConnectionOp → StreamsAct → Prop
  | sent (now : Instant) (buf : BufMut) : Does c r (.pollTransmit now) (.op (.writeStreamFrames buf true))
  | lost {now : Instant} {id : SpaceId} {q : ℕ × SentPacket} {m : StreamMeta} (hq : q ∈ (c.core.sent id).entries)
      (hm : m ∈ q.2.streamFrames) : Does c r (.pollTimers now) (.op (.retransmit m))
  | packet {now : Instant} {data : Bytes} {p : Packet} {a : StreamsAct} (hp : Connection.packetOf data = some p)
      (h : p.Does c a) : Does c r (.handleData now data) a
  | first {now : Instant} {p : InitialPacket} {a : StreamsAct} (h : p.toPacket.Does c a) :
      Does c r (.handleFirstPacket now p) a
  | call {op : ConnectionOp} {sop : StreamsOp} (h : op.call c = some sop) (hr : Projects c r) : Does c r op (.op sop)

/-- The change of the connection is matched by legal acts of which `A` holds. -/
abbrev Connection.Refines (A : StreamsRun → StreamsAct → Prop) : Connection → Connection → Prop :=
  Follows actStep (fun r a => a.Legal r ∧ A r a) Projects

namespace Connection

/-! ## Frames in flight -/

section Frames

variable {k k' : Core} {id : SpaceId}

/-- The frames of the packets that a space has sent. -/
def framesOf (m : OrdMap SentPacket) : Multiset StreamMeta := ↑(m.entries.flatMap fun p => p.2.streamFrames)

theorem framesOf_perm {m m' : OrdMap SentPacket} {l : List (ℕ × SentPacket)} (h : m.entries.Perm (l ++ m'.entries)) :
    framesOf m = ↑(l.flatMap fun p => p.2.streamFrames) + framesOf m' := by
  unfold framesOf
  rw [Multiset.coe_add, ← List.flatMap_append]
  exact Multiset.coe_eq_coe.mpr (h.flatMap_right _)

/-- The frames of a core, as a sum over its places. -/
theorem coe_frames (k : Core) : (k.frames : Multiset StreamMeta) =
    ↑(k.queue.flatMap SentPacket.streamFrames) +
      (framesOf (k.sent .initial) + framesOf (k.sent .handshake) + framesOf (k.sent .data)) := by
  unfold Core.frames framesOf SpaceId.variants
  simp only [List.flatMap_cons, List.flatMap_nil, List.append_nil, ← Multiset.coe_add, add_assoc]

/-- One space changes. -/
theorem coe_frames_update {k : Core} {m : OrdMap SentPacket} (hq : k'.queue = k.queue)
    (hs : k'.sent = Function.update k.sent id m) :
    (k'.frames : Multiset StreamMeta) + framesOf (k.sent id) = ↑k.frames + framesOf m := by
  rw [coe_frames, coe_frames, hq, hs]
  cases id <;> simp <;> abel

/-- A packet leaves its space. -/
theorem Resolves.frames_perm {c c' : Connection} {pn n : ℕ} {packet : SentPacket} {s : StreamsState}
    (h : Resolves c c' id pn n packet s) : c.core.frames.Perm (packet.streamFrames ++ c'.core.frames) := by
  have hq : c'.core.queue = c.core.queue := by rw [h.core]
  have hsent : c'.core.sent = Function.update c.core.sent id ((c.core.sent id).erase pn) := by
    rw [h.core]
    rfl
  have htake : framesOf (c.core.sent id) = ↑packet.streamFrames + framesOf ((c.core.sent id).erase pn) := by
    refine (framesOf_perm (l := [(pn, packet)]) (OrdMap.erase_perm (OrdMap.find?_eq_some.mp h.found))).trans ?_
    rw [List.flatMap_singleton]
    rfl
  have hall := coe_frames_update hq hsent
  rw [htake, ← add_assoc, add_left_inj] at hall
  rw [← Multiset.coe_eq_coe, ← hall, ← Multiset.coe_add, add_comm]

/-- A packet is scheduled. -/
theorem frames_queue {k k' : Core} {p : SentPacket} (hq : k'.queue = k.queue ++ [p]) (hs : k'.sent = k.sent) :
    k'.frames.Perm (k.frames ++ p.streamFrames) := by
  rw [← Multiset.coe_eq_coe, ← Multiset.coe_add, coe_frames, coe_frames, hq, hs, List.flatMap_append,
    List.flatMap_singleton, ← Multiset.coe_add]
  abel

/-- A packet is sent. -/
theorem sendOne_frames {c : Connection} (hc : Accounted c.core) (t : Instant) :
    (c.sendOne t).core.frames.Perm c.core.frames := by
  rcases c.sendOne_ok t with ⟨-, e⟩ | ⟨p, queue, hq, hk, -⟩
  · rw [e]
  · -- the number is not in the space yet
    have hnew : p.number ∉ (c.core.sent p.spaceId).entries.map Prod.fst := by
      have hd := hc.distinct p.spaceId
      unfold Core.numbers at hd
      rw [hq, List.filter_cons_of_pos (by simp), List.map_cons] at hd
      exact fun hm => (List.nodup_append.mp hd).2.2 _ hm _ List.mem_cons_self rfl
    have hput : framesOf ((c.core.sent p.spaceId).insert p.number { p with timeSent := t }) =
        ↑p.streamFrames + framesOf (c.core.sent p.spaceId) := by
      refine (framesOf_perm (l := [(p.number, { p with timeSent := t })])
        (OrdMap.insert_perm { p with timeSent := t } hnew)).trans ?_
      rw [List.flatMap_singleton]
    have hall := coe_frames_update (k := { c.core with queue := queue })
      (show (c.sendOne t).core.queue = queue by rw [hk]) (by rw [hk])
    rw [hput, ← add_assoc, add_left_inj] at hall
    rw [← Multiset.coe_eq_coe, hall, coe_frames, coe_frames, hq, List.flatMap_cons, ← Multiset.coe_add]
    abel

end Frames

/-! ## Which packets carry frames of streams -/

/-- Only packets of the data space carry frames of streams. -/
structure Framed (k : Core) : Prop where
  queue : ∀ p ∈ k.queue, p.spaceId ≠ .data → p.streamFrames = []
  sent : ∀ id, id ≠ .data → ∀ p ∈ (k.sent id).entries, p.2.streamFrames = []

section Framed

variable {c c' : Connection} {now : Instant} {id : SpaceId}

theorem framed_new (now : Instant) (side : Side) : Framed (Connection.new now side).core where
  queue := fun p hp => by cases side <;> cases hp
  sent := fun id _ p hp => by cases side <;> cases id <;> cases hp

/-- The packets of a space become fewer. -/
theorem Framed.shrink {k k' : Core} {m : OrdMap SentPacket} (h : Framed k) (hq : k'.queue = k.queue)
    (hs : k'.sent = Function.update k.sent id m) (hm : m.entries ⊆ (k.sent id).entries) : Framed k' where
  queue := by
    rw [hq]
    exact h.queue
  sent := by
    rw [hs]
    exact (Function.forall_update_iff k.sent fun i x => i ≠ .data → ∀ p ∈ x.entries, p.2.streamFrames = []).mpr
      ⟨fun hi p hp => h.sent id hi p (hm hp), fun i _ => h.sent i⟩

theorem Resolves.framed {pn n : ℕ} {packet : SentPacket} {s : StreamsState}
    (h : Resolves c c' id pn n packet s) (hc : Framed c.core) : Framed c'.core := by
  refine hc.shrink (m := (c.spaces id).sentPackets.erase pn) (by rw [h.core]) (by rw [h.core]) fun p hp => ?_
  exact (OrdMap.mem_erase.mp hp).1

/-- A packet of another space carries none. -/
theorem composePacket_framed {close ackEliciting : Bool} (h : composePacket now close c id ackEliciting = .ok c')
    (hid : id ≠ .data) {p : SentPacket} (hp : c'.core.queue = c.core.queue ++ [p]) : p.streamFrames = [] := by
  obtain ⟨n, buf, sent, c₂, buf₂, -, h2, rfl⟩ := composePacket_cases h
  have hsent : sent.streamFrames = [] ∧ c₂.core.queue = c.core.queue := by
    rcases h2 with ⟨-, rfl, rfl, -⟩ | ⟨-, h2⟩
    · exact ⟨rfl, rfl⟩
    · obtain ⟨⟨sent₁, space, buf₁⟩, h1, h2⟩ := Checked.bind_eq_ok.mp h2
      dsimp only at h2
      rw [if_neg hid] at h2
      cases h2
      exact ⟨(populateControl_ok h1).1, rfl⟩
  rw [schedule_core, (quiet_noteAcks c₂ id sent).1, hsent.2] at hp
  have hmeta := List.append_cancel_left hp
  rw [← (List.cons.inj hmeta).1]
  exact hsent.1

theorem Move.framed (h : Move c c') (hc : Framed c.core) : Framed c'.core := by
  cases h with
  | quiet h => rwa [h.1]
  | received id n now h _ => rwa [h]
  | acked id pn h =>
      rcases ackOne_ok h with ⟨rfl, -⟩ | ⟨packet, s, hr, -, -⟩
      · exact hc
      · exact hr.framed hc
  | lost now id p hp h =>
      obtain ⟨s, hr, -, -⟩ := loseOne_ok hp h
      exact hr.framed hc
  | discarded id h =>
      obtain ⟨-, h2, -⟩ := discardSpace_ok h
      exact hc.shrink (m := ∅) (by rw [h2]) (by rw [h2]) (List.nil_subset _)
  | composed now close id ackEliciting h =>
      obtain ⟨p, -, -, hid, -, hk, -⟩ := composePacket_ok h
      have hq : c'.core.queue = c.core.queue ++ [p] := by rw [hk]
      refine ⟨fun q hq' hne => ?_, by rw [hk]; exact hc.sent⟩
      rw [hq] at hq'
      rcases List.mem_append.mp hq' with hq' | hq'
      · exact hc.queue q hq' hne
      · rw [List.mem_singleton.mp hq'] at hne ⊢
        rw [hid] at hne
        exact composePacket_framed h hne hq
  | sent t =>
      rcases c.sendOne_ok t with ⟨-, e⟩ | ⟨p, queue, hq, hk, -⟩
      · rwa [e]
      · have hqueue : ∀ q ∈ queue, q.spaceId ≠ .data → q.streamFrames = [] := fun q hq' =>
          hc.queue q (by rw [hq]; exact List.mem_cons_of_mem p hq')
        have hp := hc.queue p (by rw [hq]; exact List.mem_cons_self)
        refine ⟨by rw [hk]; exact hqueue, ?_⟩
        rw [hk]
        refine (Function.forall_update_iff c.core.sent
          fun i x => i ≠ .data → ∀ p ∈ x.entries, p.2.streamFrames = []).mpr ⟨fun hi q hq' => ?_, fun i _ => hc.sent i⟩
        rcases OrdMap.mem_insert.mp hq' with rfl | ⟨hq', -⟩
        · exact hp hi
        · exact hc.sent p.spaceId hi q hq'

end Framed

/-! ## What the streams do -/

section Refines

variable {c c' : Connection} {now : Instant} {id : SpaceId} {A : StreamsAct → Prop}
  {B : StreamsRun → StreamsAct → Prop}

/-- Neither the streams change nor what is in flight for them. -/
theorem refines_same (hs : c'.streams = c.streams) (hf : c'.core.frames.Perm c.core.frames) : Refines B c c' :=
  .of_rel fun _ hr => ⟨hr.state.trans hs.symm, hr.flight.trans hf.symm⟩

/-- The connection puts an event into the channel. -/
theorem refines_told {e : Event} (hA : A (.told e)) (hs : c'.streams = c.streams.told e)
    (hf : c'.core.frames = c.core.frames) : Refines (fun _ => A) c c' := by
  refine .act (.told e) fun r hr => ⟨⟨trivial, hA⟩, _, rfl, ?_, ?_⟩
  · rw [hs, ← hr.state]
  · rw [hf]
    exact hr.flight

/-- An operation of the streams that resolves no frame and writes none. -/
theorem refines_op {o : StreamsOp} (hB : ∀ r, Projects c r → B r (.op o)) (hl : ∀ r : StreamsRun, o.Legal r)
    (hs : ∀ r : StreamsRun, r.state = c.streams →
      ∃ r', streamsStep r o = .ok r' ∧ r'.state = c'.streams ∧ r'.flight = r.flight)
    (hf : c'.core.frames = c.core.frames) : Refines B c c' := by
  refine .act (.op o) fun r hr => ⟨⟨hl r, hB r hr⟩, ?_⟩
  obtain ⟨r', hr', hstate, hflight⟩ := hs r hr.state
  refine ⟨r', hr', hstate, ?_⟩
  rw [hflight, hf]
  exact hr.flight

/-- The frames of a packet leave the flight one by one. -/
theorem run_resolved (op : StreamMeta → StreamsOp) {step : StreamsState → StreamMeta → Checked StreamsState}
    (hstep : ∀ r m s, step r.state m = .ok s →
      ∃ r', streamsStep r (op m) = .ok r' ∧ r'.state = s ∧ r'.flight = r.flight.erase m)
    (hl : ∀ r m, m ∈ r.flight → (op m).Legal r) {frames rest : List StreamMeta} {r : StreamsRun} {s : StreamsState}
    (hA : ∀ m ∈ frames, A (.op (op m))) (hf : r.flight.Perm (frames ++ rest))
    (h : run step r.state frames = .ok s) :
    ∃ r', Meets actStep (fun r a => a.Legal r ∧ A a) r (frames.map fun m => .op (op m)) ∧
      run actStep r (frames.map fun m => .op (op m)) = .ok r' ∧ r'.state = s ∧ r'.flight.Perm rest := by
  induction frames generalizing r with
  | nil =>
      cases h
      exact ⟨r, trivial, rfl, rfl, hf⟩
  | cons m frames ih =>
      rw [run_cons] at h
      obtain ⟨s₁, h1, h⟩ := Checked.bind_eq_ok.mp h
      obtain ⟨r₁, hr₁, rfl, hflight⟩ := hstep r m s₁ h1
      have hmem : m ∈ r.flight := hf.mem_iff.mpr List.mem_cons_self
      have hf₁ : r₁.flight.Perm (frames ++ rest) := by
        rw [hflight]
        exact (List.cons_perm_iff_perm_erase.mp hf.symm).2.symm
      obtain ⟨r', hm, hrun, hs, hrest⟩ := ih (fun x hx => hA x (List.mem_cons_of_mem m hx)) hf₁ h
      refine ⟨r', .cons ⟨hl r m hmem, hA m List.mem_cons_self⟩ hr₁ hm, ?_, hs, hrest⟩
      rw [List.map_cons, run_cons, show actStep r (.op (op m)) = .ok r₁ from hr₁]
      exact hrun

/-- The packet leaves the connection, and its frames the flight. -/
theorem Resolves.refines {pn n : ℕ} {packet : SentPacket} {s : StreamsState} (h : Resolves c c' id pn n packet s)
    (op : StreamMeta → StreamsOp) {step : StreamsState → StreamMeta → Checked StreamsState}
    (hstep : ∀ r m s, step r.state m = .ok s →
      ∃ r', streamsStep r (op m) = .ok r' ∧ r'.state = s ∧ r'.flight = r.flight.erase m)
    (hl : ∀ r m, m ∈ r.flight → (op m).Legal r) (hA : ∀ m ∈ packet.streamFrames, A (.op (op m)))
    (hs : run step c.streams packet.streamFrames = .ok c'.streams) : Refines (fun _ => A) c c' := by
  intro r hr
  rw [← hr.state] at hs
  obtain ⟨r', hm, hrun, hstate, hflight⟩ := run_resolved op hstep hl hA (hr.flight.trans h.frames_perm) hs
  exact ⟨_, r', hm, hrun, hstate, hflight⟩

/-- An acknowledged number. -/
theorem ackOne_refines {l l' : AckLoop} {pn : ℕ} (h : ackOne id l pn = .ok l')
    (hA : ∀ packet, (pn, packet) ∈ (l.c.core.sent id).entries → ∀ m ∈ packet.streamFrames,
      A (.op (.receivedAckOf m))) : Refines (fun _ => A) l.c l'.c := by
  rcases ackOne_ok h with ⟨rfl, -⟩ | ⟨packet, s, hr, hs, -⟩
  · exact .refl _
  · rcases ackOne_cases h with ⟨-, rfl⟩ | ⟨packet', s', removed, path, hfound, -, hs', -, -, hc⟩
    · exact .refl _
    · obtain rfl : packet = packet' := Option.some.inj (hr.found.symm.trans hfound)
      refine hr.refines .receivedAckOf (fun r m s hm => ?_) (fun _ _ hm => hm)
        (hA packet (OrdMap.find?_eq_some.mp hfound)) (by rw [hs', hc])
      exact ⟨_, Checked.bind_eq_ok.mpr ⟨s, hm, rfl⟩, rfl, rfl⟩

/-- A packet that is lost. -/
theorem loseOne_refines {p : ℕ × SentPacket} (hp : p ∈ (c.core.sent id).entries) (h : loseOne now id c p = .ok c')
    (hA : ∀ m ∈ p.2.streamFrames, A (.op (.retransmit m))) : Refines (fun _ => A) c c' := by
  obtain ⟨s, hr, hs, -⟩ := loseOne_ok hp h
  obtain ⟨s', removed, path, n, hs', -, -, hc⟩ := loseOne_cases h
  refine hr.refines .retransmit (fun r m s hm => ?_) (fun _ _ hm => hm) hA (by rw [hs', hc])
  exact ⟨_, Checked.bind_eq_ok.mpr ⟨s, hm, rfl⟩, rfl, rfl⟩

/-- A space is discarded: its packets carry no frames. -/
theorem discardSpace_refines (hc : Framed c.core) (hid : id ≠ .data) (h : c.discardSpace id = .ok c') :
    Refines B c c' := by
  refine refines_same (discardSpace_streams h) ?_
  obtain ⟨-, hk, -⟩ := discardSpace_ok h
  have hnone : framesOf (c.core.sent id) = 0 :=
    (Multiset.coe_eq_zero _).mpr (List.flatMap_eq_nil_iff.mpr (hc.sent id hid))
  have hall := coe_frames_update (m := ∅) (show c'.core.queue = c.core.queue by rw [hk]) (by rw [hk])
  rw [hnone, add_zero, show framesOf (∅ : OrdMap SentPacket) = 0 from rfl, add_zero] at hall
  exact Multiset.coe_eq_coe.mp hall

/-- A packet is composed: the streams write its frames. -/
theorem composePacket_refines {close ackEliciting : Bool} (h : composePacket now close c id ackEliciting = .ok c')
    (hA : ∀ buf, A (.op (.writeStreamFrames buf true))) : Refines (fun _ => A) c c' := by
  obtain ⟨p, -, -, -, hw, hk, -⟩ := composePacket_ok h
  have hf : c'.core.frames.Perm (c.core.frames ++ p.streamFrames) := frames_queue (by rw [hk]) (by rw [hk])
  rcases hw with ⟨hnil, hs⟩ | ⟨buf, buf', hw⟩
  · rw [hnil, List.append_nil] at hf
    exact refines_same hs hf
  · refine .act (.op (.writeStreamFrames buf true)) fun r hr => ?_
    rw [← hr.state] at hw
    exact ⟨⟨trivial, hA buf⟩, { r with state := c'.streams, flight := r.flight ++ p.streamFrames },
      Checked.bind_eq_ok.mpr ⟨_, hw, rfl⟩, rfl, (hr.flight.append_right _).trans hf.symm⟩

end Refines

/-! ## The functions of a connection -/

/-- The connection comes from `c` by a change that a run of the streams follows; no packet was sent on the way. -/
structure Tracks (A : StreamsAct → Prop) (c x : Connection) : Prop where
  accounted : Accounted x.core
  framed : Framed x.core
  sent : ∀ i, (x.core.sent i).entries ⊆ (c.core.sent i).entries
  refines : Refines (fun _ => A) c x

/-- Every loss of a frame in flight may happen. -/
def Loses (c : Connection) (A : StreamsAct → Prop) : Prop :=
  ∀ i, ∀ q ∈ (c.core.sent i).entries, ∀ m ∈ q.2.streamFrames, A (.op (.retransmit m))

section Tracks

variable {c c' x x' : Connection} {now : Instant} {id : SpaceId} {A : StreamsAct → Prop}

theorem Tracks.refl (ha : Accounted c.core) (hf : Framed c.core) : Tracks A c c :=
  ⟨ha, hf, fun _ => List.Subset.refl _, .refl c⟩

/-- A move that sends no packet. -/
theorem Tracks.move (h : Tracks A c x) (hm : Move x x') (hs : ∀ i, (x'.core.sent i).entries ⊆ (x.core.sent i).entries)
    (hr : Refines (fun _ => A) x x') : Tracks A c x' :=
  ⟨hm.accounted h.accounted, hm.framed h.framed, fun i => List.Subset.trans (hs i) (h.sent i), h.refines.trans hr⟩

/-- Neither the core changes nor the streams. -/
theorem Tracks.same (h : Tracks A c x) (hk : x'.core = x.core) (hs : x'.streams = x.streams) : Tracks A c x' where
  accounted := hk ▸ h.accounted
  framed := hk ▸ h.framed
  sent := hk ▸ h.sent
  refines := h.refines.trans (refines_same hs (by rw [hk]))

/-- The streams change. -/
theorem Tracks.streams (h : Tracks A c x) {s : StreamsState} (hr : Refines (fun _ => A) x { x with streams := s }) :
    Tracks A c { x with streams := s } where
  accounted := h.accounted.congr rfl
  framed := ⟨h.framed.queue, h.framed.sent⟩
  sent := h.sent
  refines := h.refines.trans hr

/-- The connection puts an event into the channel. -/
theorem Tracks.told (h : Tracks A c x) (e : Event) (hA : A (.told e)) : Tracks A c (x.sendEvent e) :=
  h.streams (refines_told hA rfl rfl)

/-- A space is changed in what the core does not have. -/
theorem Tracks.space (h : Tracks A c x) (f : PacketSpace → PacketSpace)
    (h1 : (f (x.spaces id)).nextPacketNumber = (x.spaces id).nextPacketNumber)
    (h2 : (f (x.spaces id)).sentPackets = (x.spaces id).sentPackets)
    (h3 : (f (x.spaces id)).inFlight = (x.spaces id).inFlight) : Tracks A c (x.modifySpace id f) :=
  h.same (core_modifySpace x id f h1 h2 h3) rfl

theorem Tracks.timer (h : Tracks A c x) : Tracks A c x.setLossDetectionTimer := by
  refine h.same (quiet_setLossDetectionTimer x).1 ?_
  obtain ⟨timers, e⟩ := setLossDetectionTimer_eq x
  rw [e]

/-- The packets of a space that is updated are among those before. -/
theorem entries_update {m : OrdMap SentPacket} (hm : m.entries ⊆ (x.core.sent id).entries)
    (hs : x'.core.sent = Function.update x.core.sent id m) (i : SpaceId) :
    (x'.core.sent i).entries ⊆ (x.core.sent i).entries := by
  rw [hs]
  exact (Function.forall_update_iff x.core.sent fun i y => y.entries ⊆ (x.core.sent i).entries).mpr
    ⟨hm, fun _ _ => List.Subset.refl _⟩ i

theorem Resolves.entries {pn n : ℕ} {packet : SentPacket} {s : StreamsState} (h : Resolves x x' id pn n packet s)
    (i : SpaceId) : (x'.core.sent i).entries ⊆ (x.core.sent i).entries :=
  entries_update (m := (x.spaces id).sentPackets.erase pn) (fun _ hp => (OrdMap.mem_erase.mp hp).1) (by rw [h.core]) i

theorem Tracks.discarded (h : Tracks A c x) (hid : id ≠ .data) (hd : x.discardSpace id = .ok x') :
    Tracks A c x' := by
  obtain ⟨-, hk, -⟩ := discardSpace_ok hd
  exact h.move (.discarded id hd) (entries_update (m := ∅) (List.nil_subset _) (by rw [hk]))
    (discardSpace_refines h.framed hid hd)

theorem Tracks.lost (h : Tracks A c x) (hA : c.Loses A) {p : ℕ × SentPacket}
    (hp : p ∈ (x.spaces id).sentPackets.entries) (hl : loseOne now id x p = .ok x') : Tracks A c x' := by
  obtain ⟨s, hr, -, -⟩ := loseOne_ok hp hl
  exact h.move (.lost now id p hp hl) hr.entries (loseOne_refines hp hl (hA id p (h.sent id hp)))

theorem Tracks.detected (h : Tracks A c x) (hA : c.Loses A) (hd : x.detectLostPackets now id = .ok x') :
    Tracks A c x' :=
  detectLostPackets_inv (I := Tracks A c) (fun _ => h.space _ rfl rfl rfl) (fun _ _ _ hx hp hs => hx.lost hA hp hs)
    (fun _ hx => hx.timer) hd

theorem Tracks.timeout (h : Tracks A c x) (hA : c.Loses A) (ht : x.onLossDetectionTimeout now = .ok x') :
    Tracks A c x' :=
  onLossDetectionTimeout_keeps (I := Tracks A c) (fun _ _ _ hx hs => hx.detected hA hs) (fun _ hx => hx.timer) ht h

/-- The frames of the packets whose numbers are acknowledged. -/
theorem Tracks.acked {l l' : AckLoop} {pn : ℕ} (h : Tracks A c l.c)
    (hA : ∀ packet, (pn, packet) ∈ (c.core.sent id).entries → ∀ m ∈ packet.streamFrames,
      A (.op (.receivedAckOf m))) (ha : ackOne id l pn = .ok l') : Tracks A c l'.c := by
  refine h.move (.acked id pn ha) ?_ (ackOne_refines ha fun packet hp => hA packet (h.sent id hp))
  rcases ackOne_ok ha with ⟨rfl, -⟩ | ⟨packet, s, hr, -, -⟩
  · exact fun _ => List.Subset.refl _
  · exact hr.entries

theorem Tracks.ackReceived {ack : Ack} {r : Except TransportError Unit} (h : Tracks A c x) (hl : c.Loses A)
    (hA : ∀ ranges, ack.iter = .ok ranges → ∀ pn ∈ ranges.flatMap rangeInclusive, ∀ packet,
      (pn, packet) ∈ (c.core.sent id).entries → ∀ m ∈ packet.streamFrames, A (.op (.receivedAckOf m)))
    (ha : x.onAckReceived now id ack = .ok (r, x')) : Tracks A c x' := by
  rcases onAckReceived_cases ha with ⟨-, -, rfl⟩ | ⟨-, -, ranges, l, hr, hloop, hrest⟩
  · exact h
  · have hl₁ : Tracks A c l.c := run_inv (I := fun l : AckLoop => Tracks A c l.c)
      (fun l pn l' hx hpn hs => hx.acked (hA ranges hr pn hpn) hs) h (Meets.of_forall fun _ hpn => hpn) hloop
    rcases hrest with rfl | hnews
    · exact hl₁
    · exact ackNews_inv (I := Tracks A c)
        (fun rtt => (hl₁.space (noteLargest · now ack) rfl rfl rfl).same rfl rfl)
        (fun _ _ hx hs => hx.detected hl hs) (fun _ hx => hx.timer) hnews

theorem Tracks.composed {close ackEliciting : Bool} (h : Tracks A c x)
    (hA : ∀ buf, A (.op (.writeStreamFrames buf true)))
    (hc : composePacket now close x id ackEliciting = .ok x') : Tracks A c x' := by
  obtain ⟨p, -, -, -, -, hk, -⟩ := composePacket_ok hc
  refine h.move (.composed now close id ackEliciting hc) ?_ (composePacket_refines hc hA)
  rw [hk]
  exact fun _ => List.Subset.refl _

theorem Tracks.transmitted {more : Bool} (h : Tracks A c x) (hA : ∀ buf, A (.op (.writeStreamFrames buf true)))
    (hp : x.pollTransmit now = .ok (more, x')) : Tracks A c x' :=
  pollTransmit_inv (I := Tracks A c)
    (fun _ _ _ _ _ hx hs => transmitSpace_inv (I := Tracks A c) (fun _ hd => hx.discarded (by decide) hd)
      (fun _ _ hy => hy.same rfl rfl) (fun _ _ _ hy hs => hy.composed hA hs) hs hx)
    (fun _ _ hx => hx.same rfl rfl) hp h

theorem Tracks.authenticated {number : Option ℕ} (h : Tracks A c x)
    (ha : x.onPacketAuthenticated now id number = .ok x') : Tracks A c x' :=
  onPacketAuthenticated_inv (I := Tracks A c) (fun _ hd => h.discarded (by decide) hd)
    (fun _ _ hy _ => hy.space _ rfl rfl rfl) (fun _ hy => hy.same rfl rfl) (fun _ hy => hy.space _ rfl rfl rfl) ha h

/-! ## Packets -/

theorem onCrypto_streams (c : Connection) (id : SpaceId) :
    (c.onCrypto id).streams = c.streams ∨ (c.onCrypto id).streams = c.streams.told .connected := by
  unfold onCrypto
  dsimp only
  split_ifs
  · exact .inr rfl
  · exact .inl rfl
  · exact .inr rfl
  · exact .inl rfl

theorem Tracks.crypto (h : Tracks A c x) (hA : A (.told .connected)) : Tracks A c (x.onCrypto id) := by
  have hcore : (x.onCrypto id).core = x.core := (quiet_onCrypto x id).1
  rcases onCrypto_streams x id with hs | hs
  · exact h.same hcore hs
  · exact ⟨hcore ▸ h.accounted, hcore ▸ h.framed, hcore ▸ h.sent, h.refines.trans (refines_told hA hs (by rw [hcore]))⟩

theorem Tracks.killed (h : Tracks A c x) (reason : ConnectionError) (hA : A (.told (.connectionLost reason))) :
    Tracks A c (x.kill reason) :=
  (h.told (.connectionLost reason) hA).same rfl rfl

theorem Packet.Does.loses (c : Connection) (p : Packet) : c.Loses (p.Does c) :=
  fun _ _ hq _ hm => .lost hq hm

section Packet

variable {p : Packet}

/-- A frame of an Initial or Handshake packet. -/
theorem Tracks.earlyFrame {frame : Frame} {r : Except TransportError Bool} (h : Tracks (p.Does c) c x)
    (hr : p.Reads frame) (hf : handleEarlyFrame now p.header.space x frame = .ok (r, x')) :
    Tracks (p.Does c) c x' := by
  cases frame with
  | padding | ping =>
      cases hf
      exact h
  | ack ack =>
      obtain ⟨⟨r, x₁⟩, h1, hf⟩ := Checked.bind_eq_ok.mp hf
      cases hf
      exact h.ackReceived (Packet.Does.loses c p)
        (fun _ hi _ hpn _ hp _ hm => .acked hr hi hpn hp hm) h1
  | crypto offset data =>
      cases hf
      exact h.crypto (.told rfl)
  | close reason =>
      cases hf
      exact h.killed _ (.told rfl)
  | _ =>
      cases hf
      exact h

/-- A frame of a data packet. -/
theorem Tracks.frame {frame : Frame} {r : Except TransportError Bool} (h : Tracks (p.Does c) c x)
    (hs : p.header.space = .data) (hr : p.Reads frame)
    (hf : handleFrame now p.header.space p.payload.length x frame = .ok (r, x')) : Tracks (p.Does c) c x' := by
  cases frame with
  | immediateAck =>
      cases hf
      exact h.space _ rfl rfl rfl
  | ack ack =>
      obtain ⟨⟨r, x₁⟩, h1, hf⟩ := Checked.bind_eq_ok.mp hf
      cases hf
      exact h.ackReceived (Packet.Does.loses c p)
        (fun _ hi _ hpn _ hp _ hm => .acked hr hi hpn hp hm) h1
  | stream stream =>
      obtain ⟨⟨r, s⟩, h1, hf⟩ := Checked.bind_eq_ok.mp hf
      cases hf
      refine h.streams (refines_op (fun _ _ => .received hs hr) (fun _ => trivial) (fun r hr => ?_) rfl)
      rw [← hr] at h1
      exact ⟨_, Checked.bind_eq_ok.mpr ⟨_, h1, rfl⟩, rfl, rfl⟩
  | resetStream reset =>
      cases hf
      refine h.streams (refines_op (fun _ _ => .receivedReset hs hr) (fun _ => trivial) (fun r hr => ?_) rfl)
      exact ⟨_, rfl, congrArg (fun y => (y.receivedReset reset).2) hr, rfl⟩
  | stopSending stop =>
      cases hf
      refine h.streams (refines_op (fun _ _ => .receivedStopSending hs hr) (fun _ => trivial) (fun r hr => ?_) rfl)
      exact ⟨_, rfl, congrArg (fun y => (y.receivedStopSending stop).2) hr, rfl⟩
  | close reason =>
      cases hf
      exact h.killed _ (.told rfl)
  | _ =>
      cases hf
      exact h

theorem Tracks.processed {number : Option ℕ} {r : Except ConnectionError Unit} (h : Tracks (p.Does c) c x)
    (hp : x.processPacket now number p = .ok (r, x')) : Tracks (p.Does c) c x' :=
  processPacket_reads (I := Tracks (p.Does c) c) (fun _ _ _ _ _ hr hx hs => hx.earlyFrame hr hs)
    (fun _ _ _ _ hd hr hx hs => hx.frame hd hr hs) hp h

/-- What follows the frames. -/
theorem Tracks.finished (now : Instant) (wasClosed wasDrained : Bool) {res : Except ConnectionError Unit × Connection}
    (h : Tracks (p.Does c) c res.2) : Tracks (p.Does c) c (afterPacket now wasClosed wasDrained res) := by
  obtain ⟨r, x⟩ := res
  have hrest : ∀ y : Connection, Tracks (p.Does c) c y →
      Tracks (p.Does c) c (afterPacket now wasClosed wasDrained (.ok (), y)) := by
    intro y hy
    unfold afterPacket
    dsimp only
    split_ifs <;> exact hy.same rfl rfl
  cases r with
  | ok u => exact hrest x h
  | error e => exact hrest _ ((h.told (.connectionLost e) (.told rfl)).same rfl rfl)

end Packet

/-- A datagram does what its packet does. -/
theorem datagram_tracks {data : Bytes} (ha : Accounted c.core) (hf : Framed c.core)
    (hd : c.handleData now data = .ok c') : c' = c ∨ ∃ p, packetOf data = some p ∧ Tracks (p.Does c) c c' := by
  rcases handleData_cases hd with ⟨-, rfl⟩ | ⟨p, hp, hd⟩
  · exact .inl rfl
  · have h₀ : Tracks (p.Does c) c c := .refl ha hf
    refine .inr ⟨p, hp, ?_⟩
    rcases hd with ⟨-, rfl⟩ | ⟨-, c₁, ⟨r, c₂⟩, ha, hr, rfl⟩
    · exact h₀.space _ rfl rfl rfl
    · have h₁ : Tracks (p.Does c) c c₁ := by
        rcases authenticate_cases ha with ⟨-, rfl⟩ | ⟨-, ha⟩
        · exact h₀.space _ rfl rfl rfl
        · exact Tracks.authenticated (h₀.space _ rfl rfl rfl) ha
      exact Tracks.finished now _ _ (h₁.processed hr)

theorem datagram_refines {data : Bytes} (ha : Accounted c.core) (hf : Framed c.core)
    (hd : c.handleData now data = .ok c') :
    Refines (fun _ a => ∃ p, packetOf data = some p ∧ p.Does c a) c c' := by
  rcases datagram_tracks ha hf hd with rfl | ⟨p, hp, h⟩
  · exact .refl _
  · exact h.refines.mono fun r a hok => ⟨hok.1, p, hp, hok.2⟩

end Tracks

end Connection

open Connection

/-! ## Steps and runs -/

section Steps

variable {c c' : Connection} {op : ConnectionOp}

/-- The code and the other data to send do not decide what a reset does to the streams. -/
theorem StreamsState.reset_pending (s : StreamsState) (pending : Retransmits) (id : StreamId) (errorCode : ℕ) :
    (s.reset {} id errorCode).2.1 = (s.reset pending id errorCode).2.1 := by
  unfold StreamsState.reset
  split
  · rfl
  · split_ifs <;> rfl

theorem StreamsState.stop_pending {s s' : StreamsState} {pending pending' : Retransmits} {id : StreamId}
    {errorCode : ℕ} {r : Except ClosedStream Unit} (h : s.stop pending id errorCode = .ok (r, s', pending')) :
    ∃ pending'', s.stop {} id errorCode = .ok (r, s', pending'') := by
  unfold StreamsState.stop at h ⊢
  split at h
  · cases h
    exact ⟨_, rfl⟩
  · obtain ⟨⟨r₁, stream₁⟩, h1, h⟩ := Checked.bind_eq_ok.mp h
    rw [h1]
    cases r₁ with
    | error e =>
        cases h
        exact ⟨_, rfl⟩
    | ok x =>
        cases h
        exact ⟨_, rfl⟩

/-- A write neither panics nor touches what is in flight. -/
theorem streamsStep_write_returns (r : StreamsRun) (closed : Bool) (id : StreamId) (data : Bytes) :
    ∃ r', streamsStep r (.write closed id data) = .ok r' ∧ r'.flight = r.flight := by
  unfold streamsStep
  dsimp only
  split <;> exact ⟨_, rfl, rfl⟩

theorem streamsStep_finish_returns (r : StreamsRun) (id : StreamId) :
    ∃ r', streamsStep r (.finish id) = .ok r' ∧ r'.flight = r.flight := by
  unfold streamsStep
  dsimp only
  split <;> exact ⟨_, rfl, rfl⟩

/-- A call of the application is an operation of the streams. -/
theorem call_streams {sop : StreamsOp} (hop : op.call c = some sop) (h : connectionStep c op = .ok c')
    {r : StreamsRun} (hr : r.state = c.streams) :
    ∃ r', streamsStep r sop = .ok r' ∧ r'.state = c'.streams ∧ r'.flight = r.flight := by
  cases op with
  | openStream dir =>
      cases hop
      obtain ⟨⟨id, c₁⟩, h1, h⟩ := Checked.bind_eq_ok.mp h
      cases h
      unfold openStream at h1
      split_ifs at h1
      cases h1
      exact ⟨_, rfl, congrArg (fun y => (y.open dir).2) hr, rfl⟩
  | write id data =>
      cases hop
      obtain ⟨u, -, h⟩ := Checked.bind_eq_ok.mp h
      cases h
      obtain ⟨r', hr', hf⟩ := streamsStep_write_returns r c.state.isClosed id data
      exact ⟨r', hr', by rw [streamsStep_write hr', hr], hf⟩
  | finish id =>
      cases hop
      obtain ⟨u, -, h⟩ := Checked.bind_eq_ok.mp h
      cases h
      obtain ⟨r', hr', hf⟩ := streamsStep_finish_returns r id
      exact ⟨r', hr', by rw [streamsStep_finish hr', hr], hf⟩
  | reset id errorCode =>
      cases hop
      obtain ⟨u, -, h⟩ := Checked.bind_eq_ok.mp h
      cases h
      refine ⟨_, rfl, ?_, rfl⟩
      show (r.state.reset {} id errorCode).2.1 = (c.streams.reset (c.spaces .data).pending id errorCode).2.1
      rw [hr, c.streams.reset_pending]
  | setPriority id priority =>
      cases hop
      obtain ⟨u, -, h⟩ := Checked.bind_eq_ok.mp h
      cases h
      exact ⟨_, rfl, congrArg (fun y => (y.setPriority id priority).2) hr, rfl⟩
  | read id lengths =>
      cases hop
      obtain ⟨u, -, h⟩ := Checked.bind_eq_ok.mp h
      obtain ⟨s, hs, h⟩ := Checked.bind_eq_ok.mp h
      cases h
      rw [← hr] at hs
      exact ⟨_, Checked.bind_eq_ok.mpr ⟨_, hs, rfl⟩, rfl, rfl⟩
  | stop id errorCode =>
      cases hop
      obtain ⟨u, -, h⟩ := Checked.bind_eq_ok.mp h
      obtain ⟨⟨res, s, pending⟩, hs, h⟩ := Checked.bind_eq_ok.mp h
      cases h
      rw [← hr] at hs
      obtain ⟨pending', hs⟩ := StreamsState.stop_pending hs
      exact ⟨_, Checked.bind_eq_ok.mpr ⟨_, hs, rfl⟩, rfl, rfl⟩
  | takeReset id =>
      cases hop
      obtain ⟨u, -, h⟩ := Checked.bind_eq_ok.mp h
      cases h
      exact ⟨_, rfl, congrArg (fun y => (y.takeReset id).2) hr, rfl⟩
  | _ => cases hop

theorem call_refines (hop : op.isCall = true) (h : connectionStep c op = .ok c') :
    Refines (fun r a => op.Does c r a) c c' := by
  obtain ⟨sop, hsop, hl⟩ : ∃ sop, op.call c = some sop ∧ ∀ r : StreamsRun, sop.Legal r := by
    cases op <;> first | exact ⟨_, rfl, fun _ => trivial⟩ | cases hop
  obtain ⟨s, pending, -, hs⟩ := connectionStep_call hop h
  refine refines_op (fun _ hr => .call hsop hr) hl (fun r hr => call_streams hsop h hr) ?_
  rw [hs]
  unfold setPending
  rw [core_modifySpace { c with streams := s } .data (fun s => { s with pending := pending }) rfl rfl rfl]
  rfl

/-- **One step of a connection is matched by acts of its streams**, each of which the step can do. -/
theorem connectionStep_refines (ha : Accounted c.core) (hf : Framed c.core) (h : connectionStep c op = .ok c') :
    Refines (fun r a => op.Does c r a) c c' := by
  have h₀ : Tracks (fun a => ∀ r, op.Does c r a) c c := .refl ha hf
  have hfree : Refines (fun _ a => ∀ r, op.Does c r a) c c' → Refines (fun r a => op.Does c r a) c c' :=
    fun hr => hr.mono fun r a hok => ⟨hok.1, hok.2 r⟩
  cases op with
  | pollTransmit now =>
      obtain ⟨⟨more, c₁⟩, h1, h⟩ := Checked.bind_eq_ok.mp h
      cases h
      exact hfree (h₀.transmitted (fun buf _ => .sent now buf) h1).refines
  | sendOne t =>
      cases h
      exact refines_same (c.sendOne_rest t).2 (sendOne_frames ha t)
  | pollTimers now =>
      rcases pollTimers_fired h with rfl | ⟨timer, hfired⟩
      · exact .refl _
      · have h₁ : Tracks (fun a => ∀ r, ConnectionOp.Does c r (.pollTimers now) a) c
            { c with timers := c.timers.stop timer } := h₀.same rfl rfl
        cases hfired with
        | lossDetection hl => exact hfree (h₁.timeout (fun _ _ hq _ hm _ => .lost hq hm) hl).refines
        | close => exact refines_same rfl (.refl _)
        | maxAckDelay => exact hfree (h₁.space _ rfl rfl rfl).refines
        | other => exact hfree h₁.refines
  | handleData now data =>
      exact (datagram_refines ha hf h).mono fun r a hok => ⟨hok.1, hok.2.elim fun p hp => .packet hp.1 hp.2⟩
  | handleFirstPacket now packet =>
      obtain ⟨⟨r, c₁⟩, h1, h⟩ := Checked.bind_eq_ok.mp h
      cases h
      obtain ⟨c₂, h2, h3⟩ := Checked.bind_eq_ok.mp h1
      have h₁ : Tracks (packet.toPacket.Does c) c c := .refl ha hf
      exact ((h₁.authenticated h2).processed h3).refines.mono fun _ _ hok => ⟨hok.1, .first hok.2⟩
  | close now errorCode reason =>
      cases h
      refine refines_same ?_ (by rw [(quiet_close c now errorCode reason).1])
      unfold Connection.close
      split_ifs <;> rfl
  | _ => exact call_refines rfl h

/-- **Only `send_one` puts packets in flight.** -/
theorem connectionStep_sent (ha : Accounted c.core) (hf : Framed c.core) (hop : ∀ t, op ≠ .sendOne t)
    (h : connectionStep c op = .ok c') (i : SpaceId) : (c'.core.sent i).entries ⊆ (c.core.sent i).entries := by
  have h₀ : Tracks (fun _ => True) c c := .refl ha hf
  cases op with
  | pollTransmit now =>
      obtain ⟨⟨more, c₁⟩, h1, h⟩ := Checked.bind_eq_ok.mp h
      cases h
      exact (h₀.transmitted (fun _ => trivial) h1).sent i
  | sendOne t => exact absurd rfl (hop t)
  | pollTimers now =>
      rcases pollTimers_fired h with rfl | ⟨timer, hfired⟩
      · exact List.Subset.refl _
      · have h₁ : Tracks (fun _ => True) c { c with timers := c.timers.stop timer } := h₀.same rfl rfl
        cases hfired with
        | lossDetection hl => exact (h₁.timeout (fun _ _ _ _ _ => trivial) hl).sent i
        | maxAckDelay => exact (h₁.space _ rfl rfl rfl).sent i
        | close | other => exact List.Subset.refl _
  | handleData now data =>
      rcases datagram_tracks ha hf h with rfl | ⟨p, -, ht⟩
      · exact List.Subset.refl _
      · exact ht.sent i
  | handleFirstPacket now packet =>
      obtain ⟨⟨r, c₁⟩, h1, h⟩ := Checked.bind_eq_ok.mp h
      cases h
      obtain ⟨c₂, h2, h3⟩ := Checked.bind_eq_ok.mp h1
      have h₁ : Tracks (packet.toPacket.Does c) c c := .refl ha hf
      exact ((h₁.authenticated h2).processed h3).sent i
  | close now errorCode reason =>
      cases h
      rw [(quiet_close c now errorCode reason).1]
      exact List.Subset.refl _
  | _ =>
      obtain ⟨s, pending, -, rfl⟩ := connectionStep_call rfl h
      exact ((h₀.space (fun space => { space with pending := pending }) rfl rfl rfl).sent i)

/-- **Every step keeps the accounts of the packets.** -/
theorem connectionStep_framed (ha : Accounted c.core) (hf : Framed c.core) (h : connectionStep c op = .ok c') :
    Accounted c'.core ∧ Framed c'.core := by
  by_cases hop : op.creates = false
  · exact Moves.inv (I := fun c => Accounted c.core ∧ Framed c.core)
      (fun _ _ hm hI => ⟨hm.accounted hI.1, hm.framed hI.2⟩) (connectionStep_moves hop h) ⟨ha, hf⟩
  · obtain ⟨s, rfl⟩ := connectionStep_creates hop h
    exact ⟨ha.congr rfl, ⟨hf.queue, hf.sent⟩⟩

/-- **What the acts of a step keep of the streams, the step keeps.** -/
theorem connectionStep_streams {J : StreamsState → Prop} (ha : Accounted c.core) (hf : Framed c.core)
    (h : connectionStep c op = .ok c')
    (hJ : ∀ r a r', op.Does c r a → J r.state → actStep r a = .ok r' → J r'.state) (hj : J c.streams) :
    J c'.streams := by
  have hp : Projects c ⟨c.streams, fun _ => [], c.core.frames, []⟩ := ⟨rfl, .refl _⟩
  obtain ⟨r', hp', hj'⟩ := (connectionStep_refines ha hf h).transport (J := fun r => J r.state)
    (fun r a r' hr hd hs => hJ r a r' hd.2 hr hs) hp hj
  rwa [hp'.state] at hj'

/-- The act is one of the task of the connection, and no call of the application. -/
def StreamsAct.ofTask : StreamsAct → Bool
  | .op (.received ..) | .op (.receivedReset _) | .op (.receivedStopSending _) | .op (.writeStreamFrames ..)
  | .op (.receivedAckOf _) | .op (.retransmit _) | .told _ => true
  | .op _ => false

theorem ConnectionOp.Does.ofTask {r : StreamsRun} {a : StreamsAct} (h : op.Does c r a) (hop : op.call c = none) :
    a.ofTask = true := by
  have hpacket : ∀ {p : Packet}, p.Does c a → a.ofTask = true := fun hp => by cases hp <;> rfl
  cases h with
  | sent | lost => rfl
  | packet _ h => exact hpacket h
  | first h => exact hpacket h
  | call h _ => rw [hop] at h; cases h

end Steps

/-- The acts are legal, and what the steps can do to the streams, in their order. -/
inductive Explains : Connection → StreamsRun → List ConnectionOp → List StreamsAct → Prop
  | nil (c : Connection) (r : StreamsRun) : Explains c r [] []
  | cons {c c₁ : Connection} {r r₁ : StreamsRun} {op : ConnectionOp} {ops : List ConnectionOp}
      {as bs : List StreamsAct} (hs : connectionStep c op = .ok c₁)
      (ha : Meets actStep (fun r a => a.Legal r ∧ op.Does c r a) r as) (hr : run actStep r as = .ok r₁)
      (h : Explains c₁ r₁ ops bs) : Explains c r (op :: ops) (as ++ bs)

theorem projects_new (now : Instant) (side : Side) : Projects (Connection.new now side) (StreamsRun.new side) := by
  cases side <;> exact ⟨rfl, .refl _⟩

/-- A run from a connection whose packets are accounted. -/
theorem run_explained {c c' : Connection} {ops : List ConnectionOp} {r : StreamsRun} (ha : Accounted c.core)
    (hf : Framed c.core) (hp : Projects c r) (h : run connectionStep c ops = .ok c') :
    ∃ acts r', Explains c r ops acts ∧ run actStep r acts = .ok r' ∧ Projects c' r' := by
  induction ops generalizing c r with
  | nil =>
      cases h
      exact ⟨[], r, .nil _ r, rfl, hp⟩
  | cons op ops ih =>
      rw [run_cons] at h
      obtain ⟨c₁, h1, h⟩ := Checked.bind_eq_ok.mp h
      obtain ⟨as, r₁, hm, hr, hp₁⟩ := connectionStep_refines ha hf h1 r hp
      obtain ⟨ha₁, hf₁⟩ := connectionStep_framed ha hf h1
      obtain ⟨bs, r', hbs, hr', hp'⟩ := ih ha₁ hf₁ hp₁ h
      refine ⟨as ++ bs, r', .cons h1 hm hr hbs, ?_, hp'⟩
      rw [run_append, hr]
      exact hr'

/-- **A connection runs its streams.** Every run of a connection is matched by a run of its streams: each step by
operations that the step can do, and by events of the connection. A frame is acknowledged or declared lost only
while it is in flight, once for each time it was written; at the end the streams are those of the connection,
and the frames in flight are those of the packets that are scheduled or in flight. -/
theorem connection_refines_streams (now : Instant) (side : Side) (ops : List ConnectionOp) (c : Connection)
    (h : run connectionStep (Connection.new now side) ops = .ok c) :
    ∃ acts r, Explains (Connection.new now side) (StreamsRun.new side) ops acts ∧
      run actStep (StreamsRun.new side) acts = .ok r ∧ r.state = c.streams ∧ r.flight.Perm c.core.frames := by
  obtain ⟨acts, r, he, hr, hp⟩ :=
    run_explained (accounted_new now side) (framed_new now side) (projects_new now side) h
  exact ⟨acts, r, he, hr, hp.state, hp.flight⟩

/-- A stream is written, and its frame is on the way. -/
theorem connection_refines_streams_write : ∃ (c : Connection) (acts : List StreamsAct) (r : StreamsRun),
    Explains (Connection.new 0 .client) (StreamsRun.new .client)
      [.openStream .bi, .write ⟨0⟩ [1, 2, 3], .pollTransmit 1, .sendOne 1, .sendOne 1] acts ∧
    run actStep (StreamsRun.new .client) acts = .ok r ∧ r.state = c.streams ∧
    r.flight.Perm [⟨⟨0⟩, ⟨0, 3⟩, false⟩] := by
  let ops : List ConnectionOp := [.openStream .bi, .write ⟨0⟩ [1, 2, 3], .pollTransmit 1, .sendOne 1, .sendOne 1]
  obtain ⟨c, hc, hv⟩ := Checked.map_eq_ok.mp (show (fun c : Connection => c.core.frames) <$>
    run connectionStep (Connection.new 0 .client) ops = .ok [⟨⟨0⟩, ⟨0, 3⟩, false⟩] by decide +kernel)
  obtain ⟨acts, r, he, hr, hs, hf⟩ := connection_refines_streams 0 .client ops c hc
  exact ⟨c, acts, r, he, hr, hs, hv ▸ hf⟩

end MzQuic
