import MzQuic.Connection.Accounting
import MzQuic.Connection.Poll

/-!
# Where the requests for control frames are kept

A RESET_STREAM or STOP_SENDING frame that the application has asked for waits in the pending queue of its
space, is then noted with the packet that carries it, in the queue of the path or among the packets that
were sent, and goes back to the pending queue if the packet is lost.

* `StaysReset`: a stream that was reset stays so, whatever the connection does with it;
* `Book`, `Book.requests`: the places, and all requests in them;
* `Book.Move.requests`, **`Book.moves_kept`**: the moves of the book keep them;
* `Keeps`: what the connection does to its book are such moves: **`composePacket_keeps`**,
  **`loseOne_keeps`**, **`sendOne_keeps`**.
-/

namespace MzQuic

open Lib
open Relation (ReflTransGen)

/-! ## Streams that were reset -/

namespace StreamsState

variable {s s' : StreamsState}

/-- The send half is there, and was reset. -/
def HasReset (s : StreamsState) (id : StreamId) : Prop := ∃ stream, s.send id = some stream ∧ stream.state = .resetSent

/-- Streams that were reset still are. -/
def StaysReset (s s' : StreamsState) : Prop := ∀ id, s.HasReset id → s'.HasReset id

theorem StaysReset.refl (s : StreamsState) : StaysReset s s := fun _ h => h

theorem StaysReset.trans {s₁ s₂ s₃ : StreamsState} (h : StaysReset s₁ s₂) (h' : StaysReset s₂ s₃) :
    StaysReset s₁ s₃ := fun id hid => h' id (h id hid)

theorem StaysReset.of_eq (h : s'.send = s.send) : StaysReset s s' := by
  intro id hid
  unfold HasReset
  rwa [h]

/-- One send half changes; it was not reset, or still is. -/
theorem StaysReset.update {id : StreamId} {x : Option Send} (h : s'.send = Function.update s.send id x)
    (hx : ∀ stream, s.send id = some stream → stream.state = .resetSent → ∃ y, x = some y ∧ y.state = .resetSent) :
    StaysReset s s' := by
  rintro i ⟨stream, hs, hr⟩
  unfold HasReset
  rw [h]
  by_cases hi : i = id
  · subst hi
    rw [Function.update_self]
    exact hx stream hs hr
  · rw [Function.update_of_ne hi]
    exact ⟨stream, hs, hr⟩

/-- A loop whose rounds leave such streams as they are. -/
theorem StaysReset.of_run {A : Type} {step : StreamsState → A → Checked StreamsState}
    (hstep : ∀ s a s', step s a = .ok s' → StaysReset s s') {as : List A} (h : run step s as = .ok s') :
    StaysReset s s' :=
  run_inv (I := StaysReset s) (fun x a x' hx _ hs => hx.trans (hstep x a x' hs)) (.refl s)
    (Meets.trivial step s as) h

theorem receivedAckOf_staysReset {m : StreamMeta} (h : s.receivedAckOf m = .ok s') : StaysReset s s' := by
  rcases receivedAckOf_send h with ⟨rfl, -⟩ | ⟨stream, pending, hs, hne, -, ⟨-, h⟩ | h⟩
  · exact .refl s'
  all_goals
    refine .update h fun x hx hr => absurd hr ?_
    rw [hs] at hx
    cases hx
    exact hne

theorem retransmit_staysReset {m : StreamMeta} (h : s.retransmit m = .ok s') : StaysReset s s' := by
  rcases retransmit_send h with ⟨rfl, -⟩ | ⟨stream, pending, hs, hne, -, h⟩
  · exact .refl s'
  · refine .update h fun x hx hr => absurd hr ?_
    rw [hs] at hx
    cases hx
    exact hne

theorem receivedStopSending_staysReset (s : StreamsState) (frame : StopSending) :
    StaysReset s (s.receivedStopSending frame).2 := by
  rcases s.receivedStopSending_send frame with h | ⟨stream, reason, hs, h⟩
  · exact .of_eq h
  · refine .update h fun x hx hr => ?_
    rw [hs] at hx
    cases hx
    exact ⟨_, rfl, hr⟩

theorem writeStreamFrames_staysReset {buf buf' : BufMut} {fair : Bool} {metas : List StreamMeta}
    (h : s.writeStreamFrames buf fair = .ok (metas, s', buf')) : StaysReset s s' := by
  refine writeStreamFrames_inv (I := fun _ t _ => StaysReset s t) (fun ms t b turn t' b' hI _ ht => hI.trans ?_)
    (.refl s) (TurnsMeet.trivial ..) h
  obtain ⟨-, hs⟩ | ⟨m, stream, enc, hp, -⟩ := streamTurn_polls ht
  · exact .of_eq hs
  · refine .update hp.send fun x hx hr => absurd hr ?_
    rw [hp.entry] at hx
    cases hx
    exact hp.live

theorem write_staysReset (s : StreamsState) (closed : Bool) (id : StreamId) (data : Bytes) :
    StaysReset s (s.write closed id data).2 := by
  rcases write_send (s := s) (Prod.eta (s.write closed id data)).symm with ⟨-, h | h⟩ | ⟨-, hready, h⟩
  · exact .of_eq h
  · refine .update h fun stream hs hr => ⟨stream, ?_, hr⟩
    rw [hs]
    rfl
  · refine .update h fun stream hs hr => ?_
    rw [hs, Option.getD_some, hr] at hready
    cases hready

theorem finish_staysReset (s : StreamsState) (id : StreamId) : StaysReset s (s.finish id).2 := by
  rcases finish_send (s := s) (Prod.eta (s.finish id)).symm with ⟨-, h⟩ | ⟨stream, -, hs, hready, -, h⟩
  · rw [h]
    exact .refl s
  · refine .update h fun x hx hr => ?_
    rw [hs] at hx
    cases hx
    rw [hr] at hready
    cases hready

theorem setPriority_staysReset (s : StreamsState) (id : StreamId) (priority : ℤ) :
    StaysReset s (s.setPriority id priority).2 := by
  rcases s.setPriority_send id priority with h | ⟨stream, hs, h⟩
  · exact .of_eq h
  · refine .update h fun x hx hr => ?_
    rw [hs] at hx
    cases hx
    exact ⟨_, rfl, hr⟩

end StreamsState

/-! ## The book -/

/-- A control frame that the application has asked for. -/
inductive Request
  | reset (id : StreamId) (errorCode : ℕ)
  | stop (frame : StopSending)
  deriving DecidableEq

/-- Whether the request is to reset that stream. -/
def Request.resets (i : StreamId) : Request → Bool
  | .reset id _ => decide (i = id)
  | .stop _ => false

/-- The requests in a record. -/
def Retransmits.requests (r : Retransmits) : Multiset Request :=
  ↑(r.resetStream.map fun p => Request.reset p.1 p.2) + ↑(r.stopSending.map Request.stop)

/-- The requests in a record that may not be there. -/
def ThinRetransmits.requests (r : ThinRetransmits) : Multiset Request := (Option.map Retransmits.requests r).getD 0

/-- The requests that a packet carries. -/
def SentPacket.requests (p : SentPacket) : Multiset Request := ThinRetransmits.requests p.retransmits

/-- The requests that wait in each space, the packets in the queue of the path, and those that were sent. -/
structure Book where
  pending : SpaceId → Multiset Request
  queue : List SentPacket
  sent : SpaceId → OrdMap SentPacket

/-- The requests that some packets carry. -/
def carried (packets : List (ℕ × SentPacket)) : Multiset Request := (packets.map fun p => p.2.requests).sum

theorem carried_perm {l l' : List (ℕ × SentPacket)} (h : l.Perm l') : carried l = carried l' := (h.map _).sum_eq

theorem carried_cons (p : ℕ × SentPacket) (l : List (ℕ × SentPacket)) :
    carried (p :: l) = p.2.requests + carried l := List.sum_cons

theorem carried_eq_zero {l : List (ℕ × SentPacket)} (h : ∀ p ∈ l, p.2.requests = 0) : carried l = 0 :=
  List.sum_eq_zero fun x hx => by
    obtain ⟨p, hp, rfl⟩ := List.mem_map.mp hx
    exact h p hp

theorem carried_erase {m : OrdMap SentPacket} {pn : ℕ} {packet : SentPacket} (h : (pn, packet) ∈ m.entries) :
    carried (m.erase pn).entries + packet.requests = carried m.entries := by
  rw [carried_perm (OrdMap.erase_perm h), carried_cons, add_comm]

namespace Book

/-- All requests of the data space. -/
def requests (b : Book) : Multiset Request :=
  b.pending .data + (b.queue.map SentPacket.requests).sum + carried (b.sent .data).entries

/-- The other spaces have nothing to do with streams. -/
structure Plain (b : Book) : Prop where
  pending : ∀ id, id ≠ .data → b.pending id = 0
  queue : ∀ p ∈ b.queue, p.spaceId ≠ .data → p.requests = 0
  sent : ∀ id, id ≠ .data → ∀ p ∈ (b.sent id).entries, p.2.requests = 0

/-- A packet leaves the ones that were sent. -/
def take (b : Book) (id : SpaceId) (pn : ℕ) : Book :=
  { b with sent := Function.update b.sent id ((b.sent id).erase pn) }

/-- The moves of the book. -/
inductive Move (b : Book) : Book → Prop
  | discarded (id : SpaceId) (h : id ≠ .data) : Move b { b with sent := Function.update b.sent id ∅ }
  | lost (id : SpaceId) {pn : ℕ} {packet : SentPacket} (h : (pn, packet) ∈ (b.sent id).entries) :
      Move b { b.take id pn with pending := Function.update b.pending id (b.pending id + packet.requests) }
  | composed (packet : SentPacket) {rest : Multiset Request} (h : rest + packet.requests = b.pending packet.spaceId) :
      Move b { b with pending := Function.update b.pending packet.spaceId rest, queue := b.queue ++ [packet] }
  | sent {packet : SentPacket} {queue : List SentPacket} (t : Instant) (hq : b.queue = packet :: queue)
      (hnew : packet.number ∉ (b.sent packet.spaceId).entries.map Prod.fst) :
      Move b { b with
        queue := queue
        sent := Function.update b.sent packet.spaceId
          ((b.sent packet.spaceId).insert packet.number { packet with timeSent := t }) }

section Moves

variable {b b' : Book}

theorem Plain.take (hb : b.Plain) (id : SpaceId) (pn : ℕ) : (b.take id pn).Plain where
  pending := hb.pending
  queue := hb.queue
  sent := (Function.forall_update_iff b.sent fun i (m : OrdMap SentPacket) =>
      i ≠ .data → ∀ p ∈ m.entries, p.2.requests = 0).mpr
    ⟨fun hid p hp => hb.sent id hid p (OrdMap.mem_erase.mp hp).1, fun i _ => hb.sent i⟩

/-- **What an acknowledged packet carried is no longer in the book.** -/
theorem take_requests (hb : b.Plain) {id : SpaceId} {pn : ℕ} {packet : SentPacket}
    (h : (pn, packet) ∈ (b.sent id).entries) : (b.take id pn).requests + packet.requests = b.requests := by
  by_cases hid : id = .data
  · subst hid
    unfold take requests
    dsimp only
    rw [Function.update_self, add_assoc, carried_erase h]
  · rw [hb.sent id hid _ h, add_zero]
    unfold take requests
    dsimp only
    rw [Function.update_of_ne (Ne.symm hid)]

/-- What is taken from the pending queue of another space is nothing. -/
theorem Plain.composed (hb : b.Plain) {id : SpaceId} (hid : id ≠ .data) {x y : Multiset Request}
    (h : x + y = b.pending id) : x = 0 ∧ y = 0 := by
  rw [hb.pending id hid] at h
  exact add_eq_zero.mp h

theorem Move.plain (h : Move b b') (hb : b.Plain) : b'.Plain := by
  have hsent : ∀ {id : SpaceId} {m : OrdMap SentPacket}, (id ≠ .data → ∀ p ∈ m.entries, p.2.requests = 0) →
      ∀ i, i ≠ .data → ∀ p ∈ (Function.update b.sent id m i).entries, p.2.requests = 0 := fun hm =>
    (Function.forall_update_iff b.sent fun i (m : OrdMap SentPacket) =>
      i ≠ .data → ∀ p ∈ m.entries, p.2.requests = 0).mpr ⟨hm, fun i _ => hb.sent i⟩
  have hpending : ∀ {id : SpaceId} {x : Multiset Request}, (id ≠ .data → x = 0) →
      ∀ i, i ≠ .data → Function.update b.pending id x i = 0 := fun hx =>
    (Function.forall_update_iff b.pending fun i (x : Multiset Request) => i ≠ .data → x = 0).mpr
      ⟨hx, fun i _ => hb.pending i⟩
  cases h with
  | discarded id h => exact ⟨hb.pending, hb.queue, hsent fun _ p hp => by cases hp⟩
  | lost id h =>
      refine ⟨hpending fun hid => ?_, hb.queue, (hb.take id _).sent⟩
      rw [hb.pending id hid, hb.sent id hid _ h, add_zero]
  | composed packet h =>
      refine ⟨hpending fun hid => (hb.composed hid h).1, fun p hp hid => ?_, hb.sent⟩
      rcases List.mem_append.mp hp with hp | hp
      · exact hb.queue p hp hid
      · rw [List.mem_singleton.mp hp] at hid ⊢
        exact (hb.composed hid h).2
  | sent t hq hnew =>
      rename_i packet queue
      have hqueue := hb.queue
      rw [hq] at hqueue
      refine ⟨hb.pending, fun p hp => hqueue p (List.mem_cons_of_mem _ hp), hsent fun hid p hp => ?_⟩
      rcases OrdMap.mem_insert.mp hp with rfl | ⟨hp, -⟩
      · exact hqueue packet List.mem_cons_self hid
      · exact hb.sent _ hid p hp

/-- **Every move keeps the requests.** -/
theorem Move.requests (h : Move b b') (hb : b.Plain) : b'.requests = b.requests := by
  cases h with
  | discarded id h =>
      unfold Book.requests
      dsimp only
      rw [Function.update_of_ne (Ne.symm h)]
  | lost id h =>
      rename_i pn packet
      rw [← take_requests hb h]
      unfold Book.requests
      dsimp only [Book.take]
      by_cases hid : id = .data
      · subst hid
        rw [Function.update_self, Function.update_self]
        abel
      · rw [Function.update_of_ne (Ne.symm hid), Function.update_of_ne (Ne.symm hid), hb.sent id hid _ h, add_zero]
  | composed packet h =>
      unfold Book.requests
      dsimp only
      rw [List.map_append, List.sum_append, List.map_singleton, List.sum_singleton]
      by_cases hid : packet.spaceId = .data
      · rw [hid] at h ⊢
        rw [Function.update_self, ← h]
        abel
      · rw [Function.update_of_ne (Ne.symm hid), (hb.composed hid h).2, add_zero]
  | sent t hq hnew =>
      rename_i packet queue
      unfold Book.requests
      dsimp only
      rw [hq, List.map_cons, List.sum_cons]
      by_cases hid : packet.spaceId = .data
      · rw [hid] at hnew ⊢
        rw [Function.update_self, carried_perm (OrdMap.insert_perm _ hnew), carried_cons]
        show _ + _ + (packet.requests + _) = _
        abel
      · rw [Function.update_of_ne (Ne.symm hid), hb.queue packet (by rw [hq]; exact List.mem_cons_self) hid, zero_add]

/-- **Every sequence of moves keeps the requests.** -/
theorem moves_kept (h : ReflTransGen Move b b') (hb : b.Plain) : b'.Plain ∧ b'.requests = b.requests := by
  induction h with
  | refl => exact ⟨hb, rfl⟩
  | tail _ hm ih => exact ⟨hm.plain ih.1, (hm.requests ih.1).trans ih.2⟩

end Moves

end Book

/-! ## The book of a connection -/

namespace Connection

/-- The requests that wait in each space. -/
def pendings (c : Connection) (id : SpaceId) : Multiset Request := (c.spaces id).pending.requests

/-- The book of a connection. -/
def book (c : Connection) : Book := ⟨c.pendings, c.core.queue, c.core.sent⟩

/-- The book changes by moves, and the streams that were reset still are. -/
structure Keeps (c c' : Connection) : Prop where
  book : ReflTransGen Book.Move c.book c'.book
  resets : c.streams.StaysReset c'.streams

section Keeps

variable {c c' : Connection} {now : Instant} {id : SpaceId}

theorem Keeps.refl (c : Connection) : Keeps c c := ⟨.refl, .refl _⟩

theorem Keeps.trans {c₁ c₂ c₃ : Connection} (h : Keeps c₁ c₂) (h' : Keeps c₂ c₃) : Keeps c₁ c₃ :=
  ⟨h.book.trans h'.book, h.resets.trans h'.resets⟩

theorem Keeps.of_book (h : c'.book = c.book) (hr : c.streams.StaysReset c'.streams) : Keeps c c' :=
  ⟨by rw [h], hr⟩

/-- Only the streams change. -/
theorem keeps_streams (c : Connection) {s : StreamsState} (h : c.streams.StaysReset s) :
    Keeps c { c with streams := s } := ⟨.refl, h⟩

theorem pendings_modifySpace (c : Connection) (id : SpaceId) (f : PacketSpace → PacketSpace) :
    (c.modifySpace id f).pendings = Function.update c.pendings id (f (c.spaces id)).pending.requests :=
  field_modifySpace c id f fun s => s.pending.requests

theorem book_modifySpace (c : Connection) (id : SpaceId) (f : PacketSpace → PacketSpace)
    (h : (f (c.spaces id)).sentPackets = (c.spaces id).sentPackets) : (c.modifySpace id f).book =
      { c.book with pending := Function.update c.pendings id (f (c.spaces id)).pending.requests } := by
  have hsent : (c.modifySpace id f).core.sent = c.core.sent := by
    refine (field_modifySpace c id f PacketSpace.sentPackets).trans ?_
    rw [h]
    exact Function.update_eq_self id c.core.sent
  unfold book
  rw [pendings_modifySpace, hsent]
  rfl

/-- One space changes in something else. -/
theorem keeps_modifySpace (c : Connection) (id : SpaceId) (f : PacketSpace → PacketSpace)
    (h1 : (f (c.spaces id)).pending.requests = (c.spaces id).pending.requests)
    (h2 : (f (c.spaces id)).sentPackets = (c.spaces id).sentPackets) : Keeps c (c.modifySpace id f) := by
  refine .of_book ?_ (.refl _)
  rw [book_modifySpace c id f h2, h1]
  exact congrArg (fun x => { c.book with pending := x }) (Function.update_eq_self id c.pendings)

theorem keeps_setLossDetectionTimer (c : Connection) : Keeps c c.setLossDetectionTimer := by
  obtain ⟨timers, e⟩ := c.setLossDetectionTimer_eq
  rw [e]
  exact .of_book rfl (.refl _)

theorem discardSpace_keeps (h : c.discardSpace id = .ok c') : Keeps c c' := by
  obtain ⟨-, hcore, -⟩ := discardSpace_ok h
  obtain ⟨u, hid, h⟩ := Checked.bind_eq_ok.mp h
  obtain ⟨path, -, h⟩ := Checked.bind_eq_ok.mp h
  cases h
  have hne : id ≠ .data := Checked.assert_eq_ok.mp hid
  set c₁ : Connection := { c.modifySpace id (fun s => { s with lossTime := none, inFlight := 0, sentPackets := ∅ })
    with path := path }
  obtain ⟨timers, e⟩ := c₁.setLossDetectionTimer_eq
  have hpend : c₁.setLossDetectionTimer.pendings = c.pendings := by
    rw [e]
    exact (pendings_modifySpace c id fun s => { s with lossTime := none, inFlight := 0, sentPackets := ∅ }).trans
      (Function.update_eq_self id c.pendings)
  constructor
  · have hbook : c₁.setLossDetectionTimer.book = { c.book with sent := Function.update c.book.sent id ∅ } := by
      unfold book
      rw [hpend, hcore]
    rw [hbook]
    exact .single (.discarded id hne)
  · rw [e]
    exact .refl _

theorem requeue_requests (s : PacketSpace) (packet : SentPacket) :
    (s.requeue packet).pending.requests = s.pending.requests + packet.requests := by
  unfold PacketSpace.requeue SentPacket.requests ThinRetransmits.requests
  cases packet.retransmits with
  | none => exact (add_zero _).symm
  | some r =>
      show Retransmits.requests _ = _ + r.requests
      unfold Retransmits.requests Retransmits.bitorAssign
      dsimp only
      rw [List.map_append, List.map_append, ← Multiset.coe_add, ← Multiset.coe_add]
      abel

/-- **The requests of a lost packet wait again.** -/
theorem loseOne_keeps {p : ℕ × SentPacket} (hp : p ∈ (c.spaces id).sentPackets.entries)
    (h : loseOne now id c p = .ok c') : Keeps c c' := by
  obtain ⟨s, hr, -, -⟩ := loseOne_ok hp h
  obtain ⟨s', removed, path, n, hs, -, -, rfl⟩ := loseOne_cases h
  refine ⟨?_, .of_run (fun _ _ _ => StreamsState.retransmit_staysReset) hs⟩
  have hpend : (c.modifySpace id fun _ => { (c.spaces id).requeue p.2 with
      sentPackets := (c.spaces id).sentPackets.erase p.1
      inFlight := n }).pendings = Function.update c.pendings id (c.pendings id + p.2.requests) := by
    rw [pendings_modifySpace]
    dsimp only
    rw [requeue_requests]
    rfl
  have hbook : Book.Move c.book { c.book.take id p.1 with
      pending := Function.update c.pendings id (c.pendings id + p.2.requests) } := .lost id hp
  unfold book at hbook ⊢
  rw [← hpend] at hbook
  rw [hr.core]
  exact .single hbook

theorem detectLostPackets_keeps (h : c.detectLostPackets now id = .ok c') : Keeps c c' :=
  detectLostPackets_inv (I := Keeps c) (fun _ => keeps_modifySpace c id _ rfl rfl)
    (fun _ _ _ hx hp hs => hx.trans (loseOne_keeps hp hs)) (fun x hx => hx.trans (keeps_setLossDetectionTimer x)) h

theorem keeps_onLossDetectionTimeout (h : c.onLossDetectionTimeout now = .ok c') : Keeps c c' :=
  onLossDetectionTimeout_keeps (I := Keeps c) (fun _ _ _ hx hs => hx.trans (detectLostPackets_keeps hs))
    (fun x hx => hx.trans (keeps_setLossDetectionTimer x)) h (.refl c)

theorem ackNews_keeps {ack : Ack} {l : AckLoop} (h : ackNews now id ack l = .ok c') : Keeps l.c c' := by
  refine ackNews_inv (I := Keeps l.c) (fun rtt => ?_) (fun _ _ hx hs => hx.trans (detectLostPackets_keeps hs))
    (fun x hx => hx.trans (keeps_setLossDetectionTimer x)) h
  exact (keeps_modifySpace l.c id (noteLargest · now ack) rfl rfl).trans (.of_book rfl (.refl _))

theorem onPacketAuthenticated_keeps {number : Option ℕ} (h : c.onPacketAuthenticated now id number = .ok c') :
    Keeps c c' :=
  onPacketAuthenticated_inv (I := Keeps c) (fun _ hd => discardSpace_keeps hd)
    (fun x _ hx _ => hx.trans (keeps_modifySpace x id _ rfl rfl)) (fun _ hx => hx.trans (.of_book rfl (.refl _)))
    (fun x hx => hx.trans (keeps_modifySpace x id _ rfl rfl)) h (.refl c)

theorem sent_pending (s : PacketSpace) (packet : SentPacket) : (s.sent packet).2.pending = s.pending := by
  unfold PacketSpace.sent
  dsimp only
  split_ifs <;> rfl

theorem sendOne_rest (c : Connection) (t : Instant) :
    (c.sendOne t).pendings = c.pendings ∧ (c.sendOne t).streams = c.streams := by
  unfold sendOne NetworkPath.sendOne
  cases c.path.sendingQueue with
  | nil => exact ⟨rfl, rfl⟩
  | cons scheduled queue =>
      have hsent : ∀ (packet : SentPacket) (path : NetworkPath), pendings { c with
          path := path
          spaces := Function.update c.spaces scheduled.metaInfo.spaceId
            ((c.spaces scheduled.metaInfo.spaceId).sent packet).2 } = c.pendings := by
        intro packet path
        refine (pendings_modifySpace c scheduled.metaInfo.spaceId fun s => (s.sent packet).2).trans ?_
        rw [sent_pending]
        exact Function.update_eq_self scheduled.metaInfo.spaceId c.pendings
      dsimp only [NetworkPath.record]
      by_cases hack : scheduled.metaInfo.ackEliciting = true
      · rw [if_pos hack]
        obtain ⟨timers, e⟩ := setLossDetectionTimer_eq _
        rw [e]
        exact ⟨hsent _ c.path, rfl⟩
      · rw [if_neg hack]
        exact ⟨hsent _ c.path, rfl⟩

/-- **A packet that is sent takes its requests along.** Its number is new. -/
theorem sendOne_keeps (hacc : Accounted c.core) (t : Instant) : Keeps c (c.sendOne t) := by
  obtain ⟨hpend, hstreams⟩ := sendOne_rest c t
  rcases sendOne_ok c t with ⟨-, e⟩ | ⟨p, queue, hq, hcore, -⟩
  · rw [e]
    exact .refl c
  · refine ⟨?_, .of_eq (by rw [hstreams])⟩
    have hnew : p.number ∉ (c.core.sent p.spaceId).entries.map Prod.fst := by
      intro hmem
      have hd := hacc.distinct p.spaceId
      unfold Core.numbers at hd
      refine (List.nodup_append.mp hd).2.2 _ hmem _ ?_ rfl
      rw [hq]
      simp
    have hbook : Book.Move c.book { c.book with
        queue := queue
        sent := Function.update c.core.sent p.spaceId
          ((c.core.sent p.spaceId).insert p.number { p with timeSent := t }) } := .sent t hq hnew
    unfold book at hbook ⊢
    rw [hpend, hcore]
    exact .single hbook

end Keeps

/-! ## Packets that take requests -/

section Compose

theorem getOrCreate_requests (r : ThinRetransmits) :
    (ThinRetransmits.getOrCreate r).requests = ThinRetransmits.requests r := by
  cases r <;> rfl

/-- The resets that a queue asks for. -/
def resetRequests (queue : List (StreamId × ℕ)) : Multiset Request := ↑(queue.map fun p => Request.reset p.1 p.2)

/-- The resets that are not written stay, if the streams are there. -/
theorem resetLoop_requests {s : StreamsState} {queue rest : List (StreamId × ℕ)} {sent sent' : ThinRetransmits}
    {buf buf' : BufMut} (hs : ∀ x ∈ queue, s.send x.1 ≠ none)
    (h : s.resetLoop queue sent buf = .ok (rest, sent', buf')) :
    resetRequests rest + ThinRetransmits.requests sent' = resetRequests queue + ThinRetransmits.requests sent := by
  induction queue generalizing sent buf with
  | nil =>
      cases h
      rfl
  | cons x queue ih =>
      obtain ⟨id, errorCode⟩ := x
      unfold StreamsState.resetLoop at h
      split_ifs at h
      · split at h
        · rename_i hnone
          exact absurd hnone (hs _ List.mem_cons_self)
        · obtain ⟨buf₁, -, h⟩ := Checked.bind_eq_ok.mp h
          rw [ih (fun y hy => hs y (List.mem_cons_of_mem _ hy)) h, ← getOrCreate_requests sent]
          unfold resetRequests ThinRetransmits.requests
          simp only [Option.map_some, Option.getD_some, Retransmits.requests, List.map_append, List.map_cons,
            List.map_nil, ← Multiset.coe_add, ← Multiset.cons_coe, Multiset.coe_nil, ← Multiset.singleton_add]
          abel
      · cases h
        rfl

/-- The stops that a queue asks for. -/
def stopRequests (queue : List StopSending) : Multiset Request := ↑(queue.map Request.stop)

theorem stopLoop_requests {queue rest : List StopSending} {sent sent' : ThinRetransmits} {buf buf' : BufMut}
    (h : StreamsState.stopLoop queue sent buf = .ok (rest, sent', buf')) :
    stopRequests rest + ThinRetransmits.requests sent' = stopRequests queue + ThinRetransmits.requests sent := by
  induction queue generalizing sent buf with
  | nil =>
      cases h
      rfl
  | cons x queue ih =>
      unfold StreamsState.stopLoop at h
      split_ifs at h
      · obtain ⟨buf₁, -, h⟩ := Checked.bind_eq_ok.mp h
        rw [ih h, ← getOrCreate_requests sent]
        unfold stopRequests ThinRetransmits.requests
        simp only [Option.map_some, Option.getD_some, Retransmits.requests, List.map_append, List.map_cons,
          List.map_nil, ← Multiset.coe_add, ← Multiset.cons_coe, Multiset.coe_nil, ← Multiset.singleton_add]
        abel
      · cases h
        rfl

theorem resetRequests_reverse (queue : List (StreamId × ℕ)) : resetRequests queue.reverse = resetRequests queue := by
  unfold resetRequests
  rw [List.map_reverse, Multiset.coe_reverse]

theorem stopRequests_reverse (queue : List StopSending) : stopRequests queue.reverse = stopRequests queue := by
  unfold stopRequests
  rw [List.map_reverse, Multiset.coe_reverse]

/-- **Every request that leaves the pending queue is noted with the packet**, if the streams to reset are
there. -/
theorem writeControlFrames_requests {s : StreamsState} {pending pending' : Retransmits}
    {sent sent' : ThinRetransmits} {buf buf' : BufMut} (hs : ∀ x ∈ pending.resetStream, s.send x.1 ≠ none)
    (h : s.writeControlFrames buf pending sent = .ok (buf', pending', sent')) :
    pending'.requests + ThinRetransmits.requests sent' = pending.requests + ThinRetransmits.requests sent := by
  obtain ⟨⟨resets, sent₁, buf₁⟩, h1, h⟩ := Checked.bind_eq_ok.mp h
  obtain ⟨⟨stops, sent₂, buf₂⟩, h2, h⟩ := Checked.bind_eq_ok.mp h
  cases h
  have e1 := resetLoop_requests (fun x hx => hs x (List.mem_reverse.mp hx)) h1
  have e2 := stopLoop_requests h2
  rw [resetRequests_reverse] at e1
  rw [stopRequests_reverse] at e2
  show resetRequests resets.reverse + stopRequests stops.reverse + _ = resetRequests _ + stopRequests _ + _
  rw [resetRequests_reverse, stopRequests_reverse, add_assoc, e2, add_left_comm, e1]
  abel

variable {c c' : Connection} {now : Instant} {id : SpaceId}

/-- A hello is no request. -/
theorem populateHello_requests {sent sent' : SentFrames} {space space' : PacketSpace} {buf buf' : BufMut}
    (h : populateHello id sent space buf = .ok (sent', space', buf')) :
    ThinRetransmits.requests sent'.retransmits = ThinRetransmits.requests sent.retransmits ∧
      space'.pending.resetStream = space.pending.resetStream ∧ space'.pending.requests = space.pending.requests := by
  obtain ⟨⟨sent₁, space₁, buf₁⟩, h1, h⟩ := Checked.bind_eq_ok.mp h
  have hk : ThinRetransmits.requests sent₁.retransmits = ThinRetransmits.requests sent.retransmits ∧
      space₁.pending.resetStream = space.pending.resetStream ∧
      space₁.pending.requests = space.pending.requests := by
    split_ifs at h1
    · obtain ⟨b1, -, h1⟩ := Checked.bind_eq_ok.mp h1
      obtain ⟨b2, -, h1⟩ := Checked.bind_eq_ok.mp h1
      obtain ⟨b3, -, h1⟩ := Checked.bind_eq_ok.mp h1
      obtain ⟨b4, -, h1⟩ := Checked.bind_eq_ok.mp h1
      cases h1
      exact ⟨getOrCreate_requests sent.retransmits, rfl, rfl⟩
    · cases h1
      exact ⟨rfl, rfl, rfl⟩
  dsimp only at h
  split_ifs at h
  · obtain ⟨b, -, h⟩ := Checked.bind_eq_ok.mp h
    cases h
    exact hk
  · cases h
    exact hk

/-- The resets that wait are of streams that are there. -/
def ResetsKnown (c : Connection) : Prop := ∀ x ∈ (c.spaces .data).pending.resetStream, c.streams.send x.1 ≠ none

theorem populateControl_requests {sent : SentFrames} {space : PacketSpace} {buf buf' : BufMut}
    (hs : id = .data → c.ResetsKnown)
    (h : c.populateControl now id buf = .ok (sent, space, buf')) :
    space.pending.requests + ThinRetransmits.requests sent.retransmits = (c.spaces id).pending.requests := by
  obtain ⟨⟨largestAcked, buf₁⟩, -, h⟩ := Checked.bind_eq_ok.mp h
  obtain ⟨⟨sent₁, space₁, buf₂⟩, h1, h⟩ := Checked.bind_eq_ok.mp h
  obtain ⟨hsent, hresets, hpending⟩ := populateHello_requests h1
  have hnone : ThinRetransmits.requests sent₁.retransmits = 0 := hsent
  dsimp only at h
  split_ifs at h with hid
  · obtain ⟨⟨b, pending, retransmits⟩, h2, h⟩ := Checked.bind_eq_ok.mp h
    cases h
    have e := writeControlFrames_requests (fun x hx => hs hid x (by rwa [hresets, hid] at hx)) h2
    rw [hnone, add_zero, hpending] at e
    exact e
  · cases h
    rw [hnone, add_zero, hpending]

/-- What a packet is filled with, and what is left. -/
theorem populatePacket_requests {sent : SentFrames} {buf buf' : BufMut}
    (hs : id = .data → c.ResetsKnown)
    (h : c.populatePacket now id buf = .ok (sent, c', buf')) :
    ∃ rest, rest + ThinRetransmits.requests sent.retransmits = c.pendings id ∧
      c'.pendings = Function.update c.pendings id rest ∧ c.streams.StaysReset c'.streams := by
  obtain ⟨⟨sent₁, space, buf₁⟩, h1, h⟩ := Checked.bind_eq_ok.mp h
  have hreq := populateControl_requests hs h1
  dsimp only at h
  split_ifs at h
  · obtain ⟨⟨frames, s, buf₄⟩, hw, h⟩ := Checked.bind_eq_ok.mp h
    cases h
    exact ⟨_, hreq, pendings_modifySpace c id fun _ => space, StreamsState.writeStreamFrames_staysReset hw⟩
  · cases h
    exact ⟨_, hreq, pendings_modifySpace c id fun _ => space, .refl _⟩

theorem noteAcks_pendings (c : Connection) (id : SpaceId) (sent : SentFrames) :
    (c.noteAcks id sent).pendings = c.pendings := by
  unfold noteAcks
  split_ifs
  · exact (pendings_modifySpace c id fun s => { s with pendingAcks := s.pendingAcks.acksSent }).trans
      (Function.update_eq_self id c.pendings)
  · rfl

/-- **A packet that is composed takes requests from the pending queue.** -/
theorem composePacket_keeps {close ackEliciting : Bool}
    (hs : id = .data → c.ResetsKnown)
    (h : composePacket now close c id ackEliciting = .ok c') : Keeps c c' := by
  obtain ⟨p, -, -, -, -, hcore, -⟩ := composePacket_ok h
  obtain ⟨n, buf, sent, c₂, buf₂, -, h2, rfl⟩ := composePacket_cases h
  have hstart : (c.numbered id).pendings = c.pendings :=
    (pendings_modifySpace c id _).trans (Function.update_eq_self id c.pendings)
  have hfill : ∃ rest, rest + ThinRetransmits.requests sent.retransmits = c.pendings id ∧
      c₂.pendings = Function.update c.pendings id rest ∧ c.streams.StaysReset c₂.streams := by
    rcases h2 with ⟨-, rfl, rfl, -⟩ | ⟨-, h2⟩
    · exact ⟨c.pendings id, add_zero _, hstart.trans (Function.update_eq_self id c.pendings).symm, .refl _⟩
    · rw [← hstart]
      refine populatePacket_requests (fun hid x hx => hs hid x ?_) h2
      have hsame : (fun i => ((c.numbered id).spaces i).pending) = fun i => (c.spaces i).pending :=
        (field_modifySpace c id _ PacketSpace.pending).trans (Function.update_eq_self id _)
      rwa [congrFun hsame .data] at hx
  obtain ⟨rest, hrest, hpend, hstays⟩ := hfill
  set packet := metaInfo now id ackEliciting n sent buf₂
  have hp : p = packet := by
    have hqueue : c.core.queue ++ [p] = (c₂.noteAcks id sent).core.queue ++ [packet] := by
      rw [schedule_core] at hcore
      exact (congrArg Core.queue hcore).symm
    exact List.singleton_inj.mp (List.append_inj' hqueue rfl).2
  have hpend' : ((c₂.noteAcks id sent).schedule ⟨buf₂.written, packet⟩).pendings = Function.update c.pendings id rest :=
    (noteAcks_pendings c₂ id sent).trans hpend
  constructor
  · have hbook : Book.Move c.book { c.book with
        pending := Function.update c.pendings packet.spaceId rest
        queue := c.core.queue ++ [packet] } := .composed packet hrest
    unfold book at hbook ⊢
    rw [hpend', hcore, hp]
    exact .single hbook
  · refine hstays.trans (.of_eq ?_)
    show (c₂.noteAcks id sent).streams.send = _
    rw [noteAcks_streams]

theorem transmitSpace_keeps {close blocked : Bool} {s s' : Connection × Bool} (hs : s.1.ResetsKnown)
    (h : transmitSpace now close blocked s id = .ok s') : Keeps s.1 s'.1 := by
  obtain ⟨c₁, hc₁, h⟩ := transmitSpace_cases h
  have hd : Keeps s.1 c₁ ∧ (id = .data → c₁.ResetsKnown) := by
    rcases hc₁ with rfl | ⟨hid, hd⟩
    · exact ⟨.refl s.1, fun _ => hs⟩
    · exact ⟨discardSpace_keeps hd, fun hdata => by rw [hid] at hdata; cases hdata⟩
  refine hd.1.trans ?_
  rcases h with ⟨-, h⟩ | ⟨-, h⟩
  · rw [h]
    exact .of_book rfl (.refl _)
  · exact composePacket_keeps hd.2 h

end Compose

end Connection

end MzQuic
