import MzQuic.Connection.Datagram
import MzQuic.Connection.Frames
import MzQuic.Connection.Poll

/-!
# The congestion window

`poll_transmit` compares the bytes in flight with the window once, before it goes through the spaces;
what waits in the queue is not counted.

* `composePacket_size`: a packet takes at most `INITIAL_MTU` bytes;
* `transmitSpace_committed`: what one round of a poll commits;
* **`window_bounds`**: if before every poll there is room for what waits in the queue, and for a packet
  of each space but one, then no packet is scheduled beyond the window.
-/

namespace MzQuic

open Lib

/-! ## The size of a packet -/

section Extends

variable {s s' : StreamsState} {buf buf' : BufMut}

theorem streamTurn_extends {fair : Bool} {t : StreamsState.Turn}
    (h : StreamsState.streamTurn fair s buf = .ok (t, s', buf')) : buf.Extends buf' := by
  rcases StreamsState.streamTurn_cases h with ⟨-, rfl, -⟩ | ⟨-, rfl, -⟩ |
    ⟨m, stream, enc, data, buf₁, -, -, -, he, -, hput, -⟩
  · exact .refl _
  · exact .refl _
  · obtain ⟨-, -, -, hle, rfl⟩ := StreamMeta.encode_ok he
    exact .trans ⟨_, hle, rfl⟩ (.of_appends (appends_putSlice data) hput)

theorem writeStreamFrames_extends {fair : Bool} {metas : List StreamMeta}
    (h : s.writeStreamFrames buf fair = .ok (metas, s', buf')) : buf.Extends buf' :=
  StreamsState.writeStreamFrames_inv (I := fun _ _ b => buf.Extends b)
    (fun _ _ _ _ _ _ hI _ ht => hI.trans (streamTurn_extends ht)) (.refl buf)
    (StreamsState.TurnsMeet.trivial fair _ s buf) h

end Extends

namespace Connection

section Size

variable {c c' : Connection} {now : Instant} {id : SpaceId} {buf buf' : BufMut}

theorem populateControl_extends {sent : SentFrames} {space : PacketSpace}
    (h : c.populateControl now id buf = .ok (sent, space, buf')) : buf.Extends buf' := by
  obtain ⟨⟨largestAcked, buf₁⟩, h1, h⟩ := Checked.bind_eq_ok.mp h
  obtain ⟨⟨sent₁, space₁, buf₂⟩, h2, h⟩ := Checked.bind_eq_ok.mp h
  have h12 := (populateAnyAcks_extends h1).trans (populateHello_controls h2).1.toExtends
  dsimp only at h
  split_ifs at h
  · obtain ⟨⟨b, pending, retransmits⟩, h3, h⟩ := Checked.bind_eq_ok.mp h
    cases h
    exact h12.trans (writeControlFrames_controls h3).toExtends
  · cases h
    exact h12

theorem populatePacket_extends {sent : SentFrames} (h : c.populatePacket now id buf = .ok (sent, c', buf')) :
    buf.Extends buf' := by
  obtain ⟨⟨sent₁, space, buf₁⟩, h1, h⟩ := Checked.bind_eq_ok.mp h
  dsimp only at h
  split_ifs at h
  · obtain ⟨⟨frames, s, buf₂⟩, h2, h⟩ := Checked.bind_eq_ok.mp h
    cases h
    exact (populateControl_extends h1).trans (writeStreamFrames_extends h2)
  · cases h
    exact populateControl_extends h1

/-- What the composition of a packet in the space `id` leaves alone. -/
structure Elsewhere (id : SpaceId) (c c' : Connection) : Prop where
  path : c'.path = c.path
  spaces : ∀ i, i ≠ id → c'.spaces i = c.spaces i
  streams : id ≠ .data → c'.streams = c.streams
  highestSpace : c'.highestSpace = c.highestSpace

theorem Elsewhere.trans {c₁ c₂ c₃ : Connection} (h : Elsewhere id c₁ c₂) (h' : Elsewhere id c₂ c₃) :
    Elsewhere id c₁ c₃ :=
  ⟨h'.path.trans h.path, fun i hi => (h'.spaces i hi).trans (h.spaces i hi),
    fun hi => (h'.streams hi).trans (h.streams hi), h'.highestSpace.trans h.highestSpace⟩

theorem elsewhere_modifySpace (c : Connection) (id : SpaceId) (f : PacketSpace → PacketSpace) :
    Elsewhere id c (c.modifySpace id f) :=
  ⟨rfl, fun _ hi => Function.update_of_ne hi _ _, fun _ => rfl, rfl⟩

theorem populatePacket_elsewhere {sent : SentFrames} (h : c.populatePacket now id buf = .ok (sent, c', buf')) :
    Elsewhere id c c' := by
  obtain ⟨⟨sent₁, space, buf₁⟩, -, h⟩ := Checked.bind_eq_ok.mp h
  have hm := elsewhere_modifySpace c id fun _ => space
  dsimp only at h
  split_ifs at h with hid
  · obtain ⟨⟨frames, s, buf₂⟩, -, h⟩ := Checked.bind_eq_ok.mp h
    cases h
    exact ⟨hm.path, hm.spaces, fun hne => absurd hid hne, hm.highestSpace⟩
  · cases h
    exact hm

theorem noteAcks_elsewhere (c : Connection) (id : SpaceId) (sent : SentFrames) :
    Elsewhere id c (c.noteAcks id sent) := by
  unfold noteAcks
  split_ifs
  · have hm := elsewhere_modifySpace c id fun s => { s with pendingAcks := s.pendingAcks.acksSent }
    exact ⟨hm.path, hm.spaces, hm.streams, hm.highestSpace⟩
  · exact ⟨rfl, fun _ _ => rfl, fun _ => rfl, rfl⟩

/-- **A packet takes at most `INITIAL_MTU` bytes**, and its composition changes only its own space. -/
theorem composePacket_size {close ackEliciting : Bool}
    (h : composePacket now close c id ackEliciting = .ok c') : ∃ p : ScheduledPacket,
      p.metaInfo.ackEliciting = ackEliciting ∧
      p.metaInfo.size ≤ (if ackEliciting then initialMtu else 0) ∧
      c'.path = { c.path with sendingQueue := c.path.sendingQueue ++ [p] } ∧
      (∀ i, i ≠ id → c'.spaces i = c.spaces i) ∧ (id ≠ .data → c'.streams = c.streams) ∧
      c'.highestSpace = c.highestSpace := by
  obtain ⟨n, buf, sent, c₂, buf₂, h1, h2, rfl⟩ := composePacket_cases h
  obtain ⟨number, hstart⟩ := startPacket_buf h1
  have h12 : buf.Extends buf₂ ∧ Elsewhere id (c.numbered id) c₂ := by
    rcases h2 with ⟨-, -, rfl, largest, h3⟩ | ⟨-, h2⟩
    · exact ⟨populateAnyAcks_extends h3, rfl, fun _ _ => rfl, fun _ => rfl, rfl⟩
    · exact ⟨populatePacket_extends h2, populatePacket_elsewhere h2⟩
  obtain ⟨hext, helse⟩ := h12
  have hall := ((elsewhere_modifySpace c id _).trans helse).trans (noteAcks_elsewhere c₂ id sent)
  have hfresh : (BufMut.withCapacity initialMtu).Extends buf := ⟨_, hstart⟩
  have hlen := (hfresh.trans hext).length_le
  refine ⟨⟨buf₂.written, metaInfo now id ackEliciting n sent buf₂⟩, rfl, ?_, ?_, hall.spaces, hall.streams,
    hall.highestSpace⟩
  · simp only [metaInfo, BufMut.withCapacity, List.length_nil, Nat.zero_add] at hlen ⊢
    split_ifs
    · exact hlen
    · exact le_rfl
  · unfold schedule
    rw [hall.path]

end Size

/-! ## Polls -/

/-- The bytes of the packets that wait to be sent. -/
def queued (queue : List ScheduledPacket) : ℕ := (queue.map fun p => p.metaInfo.size).sum

/-- The bytes in flight and those that wait to be sent. -/
def committed (c : Connection) : ℕ := c.path.inFlight.bytes + queued c.path.sendingQueue

/-- The spaces that have ACK-eliciting data to send. -/
def wanting (c : Connection) : List SpaceId := SpaceId.variants.filter fun id => (c.spaceCanSend id).other

/-- A poll has nothing ACK-eliciting to send, or is blocked, or has room in the window for what waits
in the queue and for a packet of each space with ACK-eliciting data but one. -/
def Headroom (c : Connection) : Prop :=
  c.wanting = [] ∨ c.path.congestion.window ≤ c.path.inFlight.bytes ∨
    c.committed + initialMtu * (c.wanting.length - 1) < c.path.congestion.window

instance (c : Connection) : Decidable c.Headroom := by
  unfold Headroom
  infer_instance

/-- In a poll of `c`, the round that begins in the state `d` schedules the packet `p`. -/
def Schedules (c : Connection) (now : Instant) (d : Connection) (p : ScheduledPacket) : Prop :=
  ∃ close pre id post b d' b', c.polls = some close ∧ SpaceId.variants = pre ++ id :: post ∧
    run (transmitSpace now close (c.path.inFlight.bytes ≥ c.path.congestion.window)) (c, false) pre =
      .ok (d, b) ∧
    transmitSpace now close (c.path.inFlight.bytes ≥ c.path.congestion.window) (d, b) id = .ok (d', b') ∧
    d'.path.sendingQueue = d.path.sendingQueue ++ [p]

section Polls

variable {c c' : Connection} {now : Instant} {id : SpaceId}

theorem queued_append (queue : List ScheduledPacket) (p : ScheduledPacket) :
    queued (queue ++ [p]) = queued queue + p.metaInfo.size := by
  simp [queued]

theorem removed_bytes {firstPacket : Option ℕ} {f f' : InFlight} {pn : ℕ} {packet : SentPacket}
    (h : removed firstPacket f pn packet = .ok f') : f'.bytes ≤ f.bytes := by
  unfold removed InFlight.remove at h
  split_ifs at h
  · cases h
    exact le_rfl
  · obtain ⟨bytes, h1, h⟩ := Checked.bind_eq_ok.mp h
    obtain ⟨n, -, h⟩ := Checked.bind_eq_ok.mp h
    cases h
    obtain ⟨-, rfl⟩ := Checked.sub_eq_ok.mp h1
    exact Nat.sub_le _ _

/-- A discarded space has less in flight, and as much to send as before. -/
theorem discardSpace_committed (h : c.discardSpace id = .ok c') :
    c'.committed ≤ c.committed ∧ c'.path.sendingQueue = c.path.sendingQueue ∧
      c'.path.congestion = c.path.congestion ∧ c'.streams = c.streams ∧
      ∀ i, (c'.spaceCanSend i).other = (c.spaceCanSend i).other := by
  have hpath := discardSpace_path h
  have hle : c'.path.inFlight.bytes ≤ c.path.inFlight.bytes :=
    run_inv (I := fun f : InFlight => f.bytes ≤ c.path.inFlight.bytes)
      (fun _ _ _ hx _ hs => (removed_bytes hs).trans hx) le_rfl (Meets.trivial _ _ _) (discardSpace_ok h).1
  have hq : c'.path.sendingQueue = c.path.sendingQueue := by rw [hpath]
  obtain ⟨timers, e⟩ := discardSpace_eq h
  refine ⟨?_, hq, by rw [hpath], discardSpace_streams h, fun i => ?_⟩
  · unfold committed
    rw [hq]
    omega
  have hother : (c'.spaces i).canSend.other = (c.spaces i).canSend.other := by
    have hf := field_modifySpace c id (fun s => { s with lossTime := none, inFlight := 0, sentPackets := ∅ })
      fun s => s.canSend.other
    rw [e]
    exact congrFun (hf.trans (Function.update_eq_self id fun i => (c.spaces i).canSend.other)) i
  unfold spaceCanSend
  dsimp only
  split_ifs
  · rw [hother, discardSpace_streams h]
  · exact hother

theorem spaceCanSend_other_congr {i : SpaceId} (hs : c'.spaces i = c.spaces i)
    (hd : i = .data → c'.streams = c.streams) :
    (c'.spaceCanSend i).other = (c.spaceCanSend i).other := by
  unfold spaceCanSend
  rw [hs]
  split_ifs with hi
  · rw [hd hi]
  · rfl

/-- **What one round commits**: at most a packet, if its space has ACK-eliciting data. -/
theorem transmitSpace_committed {close blocked : Bool} {s s' : Connection × Bool}
    (h : transmitSpace now close blocked s id = .ok s') :
    s'.1.committed ≤ s.1.committed + (if (s.1.spaceCanSend id).other then initialMtu else 0) ∧
      s'.1.path.congestion = s.1.path.congestion ∧
      (∀ i, i ≠ id → (s'.1.spaceCanSend i).other = (s.1.spaceCanSend i).other) ∧
      (s'.1.path.sendingQueue = s.1.path.sendingQueue ∨ ∃ p : ScheduledPacket,
        s'.1.path.sendingQueue = s.1.path.sendingQueue ++ [p] ∧
        p.metaInfo.ackEliciting = (s.1.spaceCanSend id).other ∧
        (p.metaInfo.ackEliciting = true → blocked = false)) := by
  obtain ⟨c₁, hc₁, h⟩ := transmitSpace_cases h
  obtain ⟨hle, hq, hw, hother⟩ : c₁.committed ≤ s.1.committed ∧
      c₁.path.sendingQueue = s.1.path.sendingQueue ∧ c₁.path.congestion = s.1.path.congestion ∧
      ∀ i, (c₁.spaceCanSend i).other = (s.1.spaceCanSend i).other := by
    rcases hc₁ with rfl | ⟨-, h1⟩
    · exact ⟨le_rfl, rfl, rfl, fun _ => rfl⟩
    · obtain ⟨hle, hq, hw, -, hother⟩ := discardSpace_committed h1
      exact ⟨hle, hq, hw, hother⟩
  rcases h with ⟨-, h⟩ | ⟨hcomp, h⟩
  · rw [h]
    exact ⟨hle.trans (Nat.le_add_right _ _), hw, fun i _ => hother i, .inl hq⟩
  · obtain ⟨p, hae, hsize, hpath, hspaces, hstreams, -⟩ := composePacket_size h
    refine ⟨?_, by rw [hpath]; exact hw, fun i hi => ?_, .inr ⟨p, ?_, hae, fun hp => ?_⟩⟩
    · have : s'.1.committed = c₁.committed + p.metaInfo.size := by
        unfold committed
        rw [hpath, queued_append]
        exact (Nat.add_assoc _ _ _).symm
      omega
    · rw [← hother i]
      exact spaceCanSend_other_congr (hspaces i hi) fun hd => hstreams fun hid => hi (hd.trans hid.symm)
    · rw [hpath, ← hq]
    · unfold composes at hcomp
      rw [← hae, hp] at hcomp
      simpa using (Bool.and_eq_true_iff.mp hcomp).2

/-- **What the first rounds commit.** -/
theorem rounds_committed {close blocked : Bool} {pre : List SpaceId} (hpre : pre.Nodup) {s s' : Connection × Bool}
    (h : run (transmitSpace now close blocked) s pre = .ok s') :
    s'.1.committed ≤ s.1.committed + initialMtu * (pre.filter fun id => (s.1.spaceCanSend id).other).length ∧
      s'.1.path.congestion = s.1.path.congestion ∧
      ∀ i, i ∉ pre → (s'.1.spaceCanSend i).other = (s.1.spaceCanSend i).other := by
  induction pre generalizing s with
  | nil =>
      cases h
      exact ⟨le_rfl, rfl, fun _ _ => rfl⟩
  | cons id pre ih =>
      obtain ⟨s₁, h1, h⟩ := Checked.bind_eq_ok.mp h
      obtain ⟨hid, hpre⟩ := List.nodup_cons.mp hpre
      obtain ⟨hc, hw, hother, -⟩ := transmitSpace_committed h1
      obtain ⟨ihc, ihw, iho⟩ := ih hpre h
      -- the later spaces have as much to send as at the start
      have hfilter : (pre.filter fun i => (s₁.1.spaceCanSend i).other) =
          pre.filter fun i => (s.1.spaceCanSend i).other :=
        List.filter_congr fun i hi => hother i fun e => hid (e ▸ hi)
      rw [hfilter] at ihc
      refine ⟨?_, ihw.trans hw, fun i hi => ?_⟩
      · rw [List.filter_cons]
        split_ifs at hc ⊢
        · rw [List.length_cons, Nat.mul_succ]
          omega
        · omega
      · rw [iho i fun hm => hi (List.mem_cons_of_mem id hm)]
        exact hother i fun e => hi (e ▸ List.mem_cons_self)

/-- **One poll.** With headroom, every ACK-eliciting packet is scheduled within the window. -/
theorem Headroom.schedules (hc : c.Headroom) {d : Connection} {p : ScheduledPacket}
    (h : Schedules c now d p) (hp : p.metaInfo.ackEliciting = true) :
    d.committed < d.path.congestion.window := by
  obtain ⟨close, pre, id, post, b, d', b', -, hvar, hrun, hround, hq⟩ := h
  have hnodup : (pre ++ id :: post).Nodup := by rw [← hvar]; decide
  obtain ⟨hpre, -, hdisj⟩ := List.nodup_append.mp hnodup
  have hid : id ∉ pre := fun hm => hdisj id hm id List.mem_cons_self rfl
  obtain ⟨hcommit, hwin, hother⟩ := rounds_committed hpre hrun
  dsimp only at hcommit hwin hother
  obtain ⟨he, hblock⟩ : (d.spaceCanSend id).other = true ∧ _ = false := by
    obtain ⟨-, -, -, hnone | ⟨p', hp', he, hb⟩⟩ := transmitSpace_committed hround
    · rw [hq] at hnone
      exact absurd (congrArg List.length hnone) (by simp)
    · rw [hq] at hp'
      cases List.append_cancel_left hp'
      exact ⟨he.symm.trans hp, hb hp⟩
  rw [hother id hid] at he
  -- the space of the packet is one of those with something to send, and not among the first ones
  have hlen : (pre.filter fun i => (c.spaceCanSend i).other).length + 1 ≤ c.wanting.length := by
    unfold wanting
    rw [hvar, List.filter_append, List.filter_cons, if_pos he, List.length_append, List.length_cons]
    omega
  rcases hc with hnil | hfull | hroom
  · rw [hnil] at hlen
    cases hlen
  · exact absurd hfull (by simpa using hblock)
  · rw [hwin]
    have : initialMtu * (pre.filter fun i => (c.spaceCanSend i).other).length ≤
        initialMtu * (c.wanting.length - 1) := Nat.mul_le_mul_left _ (by omega)
    omega

end Polls

end Connection

open Connection

/-- **The congestion window bounds what is committed.** In every run of a connection in which each poll
has headroom, whenever a poll schedules an ACK-eliciting packet, the bytes in flight and those that
wait in the queue were below the window just before. -/
theorem window_bounds (start : Instant) (side : Side) (ops : List ConnectionOp)
    (hops : Meets connectionStep (fun c op => ∀ now, op = .pollTransmit now → c.Headroom)
      (Connection.new start side) ops)
    (pre post : List ConnectionOp) (now : Instant) (hpoll : ops = pre ++ .pollTransmit now :: post)
    (c : Connection) (hc : run connectionStep (Connection.new start side) pre = .ok c)
    (d : Connection) (p : ScheduledPacket) (hp : Schedules c now d p)
    (hae : p.metaInfo.ackEliciting = true) : d.committed < d.path.congestion.window := by
  rw [hpoll] at hops
  exact ((hops.of_append hc).1 now rfl).schedules hp hae

/-- A poll whose last round schedules an ACK-eliciting packet. -/
theorem schedules_data {c : Connection} {now : Instant} {s s' : Connection × Bool} (hp : c.polls = some false)
    (hrun : run (transmitSpace now false (c.path.inFlight.bytes ≥ c.path.congestion.window)) (c, false)
      [.initial, .handshake] = .ok s)
    (h : transmitSpace now false (c.path.inFlight.bytes ≥ c.path.congestion.window) s .data = .ok s')
    (hother : (s.1.spaceCanSend .data).other = true)
    (hlen : s'.1.path.sendingQueue.length ≠ s.1.path.sendingQueue.length) :
    ∃ p, Schedules c now s.1 p ∧ p.metaInfo.ackEliciting = true := by
  obtain ⟨-, -, -, hq | ⟨p, hq, hae, -⟩⟩ := transmitSpace_committed h
  · exact absurd (congrArg List.length hq) hlen
  · exact ⟨p, ⟨false, [.initial, .handshake], .data, [], s.2, s'.1, s'.2, hp, rfl, hrun, h, hq⟩,
      hae.trans hother⟩

/-- A poll that finds a packet waiting in the queue. -/
theorem window_bounds_second : ∃ ops c d p, run connectionStep (Connection.new 0 .client) ops = .ok c ∧
    Schedules c 2 d p ∧ p.metaInfo.ackEliciting = true ∧ 0 < queued d.path.sendingQueue ∧
    d.committed < d.path.congestion.window := by
  let pre : List ConnectionOp := [.pollTransmit 1, .openStream .bi, .write ⟨0⟩ [1, 2, 3]]
  obtain ⟨c, hc, hv⟩ := Checked.map_eq_ok.mp (show (fun c : Connection => (c.polls,
      (fun s : Connection × Bool => ((s.1.spaceCanSend .data).other, decide (0 < queued s.1.path.sendingQueue),
        (fun s' : Connection × Bool => s'.1.path.sendingQueue.length == s.1.path.sendingQueue.length) <$>
          transmitSpace 2 false (c.path.inFlight.bytes ≥ c.path.congestion.window) s .data)) <$>
        run (transmitSpace 2 false (c.path.inFlight.bytes ≥ c.path.congestion.window)) (c, false)
          [.initial, .handshake])) <$> run connectionStep (Connection.new 0 .client) pre =
      .ok (some false, .ok (true, true, .ok false)) by decide +kernel)
  obtain ⟨hp, hv⟩ := Prod.mk.inj hv
  obtain ⟨s, hs, hv⟩ := Checked.map_eq_ok.mp hv
  obtain ⟨hother, hv⟩ := Prod.mk.inj hv
  obtain ⟨hpos, hv⟩ := Prod.mk.inj hv
  obtain ⟨s', hs', hlen⟩ := Checked.map_eq_ok.mp hv
  obtain ⟨p, hsched, hae⟩ := schedules_data hp hs hs' hother (by simpa using hlen)
  have hroom : Meets connectionStep (fun c _ => c.Headroom) (Connection.new 0 .client)
      (pre ++ [.pollTransmit 2]) := by decide +kernel
  exact ⟨pre, c, s.1, p, hc, hsched, hae, of_decide_eq_true hpos,
    window_bounds 0 .client _ (hroom.mono fun _ _ h _ _ => h) pre [] 2 rfl c hc s.1 p hsched hae⟩

/-- Twelve streams with 1430 bytes each: every poll schedules a packet, and nothing is in flight before
the first of them is sent. -/
theorem window_exceeded : ∃ ops c d p, run connectionStep (Connection.new 0 .client) ops = .ok c ∧
    Schedules c 1 d p ∧ p.metaInfo.ackEliciting = true ∧ ¬ d.committed < d.path.congestion.window := by
  let ops : List ConnectionOp := (List.range 12).flatMap
    (fun i => [.openStream .bi, .write ⟨4 * i⟩ (List.replicate 1430 7)]) ++ List.replicate 11 (.pollTransmit 1)
  obtain ⟨c, hc, hv⟩ := Checked.map_eq_ok.mp (show (fun c : Connection => (c.polls,
      (fun s : Connection × Bool => ((s.1.spaceCanSend .data).other,
        decide (s.1.committed < s.1.path.congestion.window),
        (fun s' : Connection × Bool => s'.1.path.sendingQueue.length == s.1.path.sendingQueue.length) <$>
          transmitSpace 1 false (c.path.inFlight.bytes ≥ c.path.congestion.window) s .data)) <$>
        run (transmitSpace 1 false (c.path.inFlight.bytes ≥ c.path.congestion.window)) (c, false)
          [.initial, .handshake])) <$> run connectionStep (Connection.new 0 .client) ops =
      .ok (some false, .ok (true, false, .ok false)) by decide +kernel)
  obtain ⟨hp, hv⟩ := Prod.mk.inj hv
  obtain ⟨s, hs, hv⟩ := Checked.map_eq_ok.mp hv
  obtain ⟨hother, hv⟩ := Prod.mk.inj hv
  obtain ⟨hover, hv⟩ := Prod.mk.inj hv
  obtain ⟨s', hs', hlen⟩ := Checked.map_eq_ok.mp hv
  obtain ⟨p, hsched, hae⟩ := schedules_data hp hs hs' hother (by simpa using hlen)
  exact ⟨ops, c, s.1, p, hc, hsched, hae, of_decide_eq_false hover⟩

end MzQuic
