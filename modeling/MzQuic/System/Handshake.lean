import MzQuic.Connection.Hello
import MzQuic.Connection.Untouched
import MzQuic.System.Packets

/-!
# The handshake

* `Party.Hailed`: the party has put a packet with its hello on the wire;
* `Party.Reserved`: a server has done so only if it was told that it is connected; `partyStep_reserved`;
* **`connected_in_order`**: a client is told that it is connected only after its server was told;
* `Party.Skips`, **`handshake_space_unused`**: no packet of the Handshake space is ever sent.
-/

namespace MzQuic

open Lib Connection

/-- A packet that greets the peer was put on the wire. -/
def Party.Hailed (p : Party) : Prop := ∃ w ∈ p.past.wire, ∃ packet, packetOf w.packet = some packet ∧ packet.Greets

/-- As long as the application is not told that it is connected, no packet greets the peer. -/
structure Party.Reserved (p : Party) : Prop where
  shy : p.conn.Shy
  queue : p.conn.connectedCount = 0 → ∀ w ∈ p.conn.path.sendingQueue, Plain w
  wire : p.conn.connectedCount = 0 → ∀ w ∈ p.past.wire, Plain w

section Parties

variable {p p' q : Party} {op : ConnectionOp}

theorem Party.Reserved.told (h : p.Reserved) (hh : p.Hailed) : p.conn.connectedCount ≠ 0 := fun hn => by
  obtain ⟨w, hw, packet, hp, hg⟩ := hh
  exact h.wire hn w hw packet hp hg

/-- **Every step of a party** keeps it reserved. -/
theorem partyStep_reserved (hj : p.conn.Joined) (hp : p.Reserved) (h : partyStep p op = .ok p') : p'.Reserved := by
  obtain ⟨hc, hn⟩ := partyStep_eq_ok.mp h
  have hback : p'.conn.connectedCount = 0 → p.conn.connectedCount = 0 := by
    rcases (connectionStep_joined hj hc).2 with e | ⟨hle, -⟩ <;> omega
  refine ⟨connectionStep_shy hj hp.shy hc, fun h0 => ?_, fun h0 => ?_⟩
  · have hold := hp.queue (hback h0)
    rcases History.note_wire hn with ⟨-, hno⟩ | ⟨⟨now, rfl⟩, -⟩ | ⟨⟨t, rfl⟩, -⟩
    · rw [(connectionStep_waiting hno hc).queue]
      exact hold
    · obtain ⟨⟨more, c₁⟩, h1, hc⟩ := Checked.bind_eq_ok.mp hc
      cases hc
      obtain ⟨new, hnew, hplain⟩ := (pollTransmit_plain (hp.shy (hback h0)) h1).2
      rw [hnew]
      exact fun w hw => (List.mem_append.mp hw).elim (hold w) (hplain w)
    · rw [show p'.conn.path.sendingQueue = p.conn.path.sendingQueue.tail by
        rw [← (sendOne_takes p.conn t).1, ← Except.ok.inj hc]]
      exact fun w hw => hold w (List.mem_of_mem_tail hw)
  · have hold := hp.wire (hback h0)
    rcases History.note_wire hn with ⟨he, -⟩ | ⟨-, he⟩ | ⟨-, he⟩
    · rw [he]
      exact hold
    · rw [he]
      exact hold
    · rw [he]
      exact fun w hw => (List.mem_append.mp hw).elim (hold w) fun hw =>
        hp.queue (hback h0) w (List.mem_of_mem_head? (Option.mem_toList.mp hw))

theorem Party.reserved_new (now : Instant) : (Party.new now .server).Reserved :=
  ⟨shy_new now, fun _ => nofun, fun _ => nofun⟩

/-- What was put on the wire stays there. -/
theorem Party.Hailed.step (hh : p.Hailed) (h : partyStep p op = .ok p') : p'.Hailed := by
  obtain ⟨w, hw, hgreets⟩ := hh
  refine ⟨w, ?_, hgreets⟩
  rcases History.note_wire (partyStep_eq_ok.mp h).2 with ⟨he, -⟩ | ⟨-, he⟩ | ⟨-, he⟩
  · rwa [he]
  · rwa [he]
  · rw [he]
    exact List.mem_append_left _ hw

end Parties

/-- **The handshake is made in order.** In every run of a client and a server, on a network that loses, duplicates,
delays and reorders datagrams, with any calls of their applications: each application is told at most once that it is
connected, and only after the other end has put a packet with a hello on the wire; and a client is told only after its
server was told. -/
theorem connected_in_order (start : Side → Instant) (ops : List (Side × ConnectionOp)) (f : Side → Party)
    (hm : Meets network.step (network.Legal fun _ _ _ => True) (network.start start) ops)
    (h : run network.step (network.start start) ops = .ok f) :
    (∀ side, (f side).conn.connectedCount ≤ 1) ∧
    (∀ side, (f side).conn.connectedCount ≠ 0 → (f side.peer).Hailed) ∧
    ((f .client).conn.connectedCount ≠ 0 → (f .server).conn.connectedCount ≠ 0) := by
  have hrun := Exchange.run_inv (e := network)
    (L := fun i p => p.conn.Joined ∧ (i = .server → p.Reserved))
    (V := fun _ p q => p.conn.connectedCount ≠ 0 → q.Hailed)
    (fun i p q op p' hp _ hs =>
      ⟨(connectionStep_joined hp.1 (partyStep_eq_ok.mp hs).1).1, fun hi => partyStep_reserved hp.1 (hp.2 hi) hs⟩)
    (fun i p q op p' hp _ hpq hqp hsends _ hs => by
      refine ⟨fun hn => ?_, fun hn => (hqp hn).step hs⟩
      rcases (connectionStep_joined hp.1 (partyStep_eq_ok.mp hs).1).2 with e | ⟨-, packet, hb, hg⟩
      · exact hpq (by rwa [← e])
      · obtain ⟨w, hw, hpacket⟩ := Party.Sends.brings hsends hb
        exact ⟨w, hw, packet, hpacket, hg⟩)
    (fun i => ⟨joined_new (start i) i, fun hi => by subst hi; exact Party.reserved_new _⟩)
    (fun i hn => absurd ((joined_new (start i) i).handshake (by cases i <;> rfl)) hn) hm h
  refine ⟨fun side => (hrun side).1.1.once, fun side => (hrun side).2, fun hn => ?_⟩
  exact ((hrun .server).1.2 rfl).told ((hrun .client).2 hn)

/-- A client and a server are connected. -/
theorem connected_in_order_both : ∃ f : Side → Party, (f .client).conn.connectedCount = 1 ∧
    (f .server).conn.connectedCount ≠ 0 ∧ (f .client).Hailed ∧ (f .server).Hailed := by
  let hello : InitialPacket := ⟨⟨fakeCid, fakeCid, [], .u8 0, 1⟩, [6, 0, 1, 0]⟩
  let ops : List (Side × ConnectionOp) :=
    [(.client, .pollTransmit 1), (.client, .sendOne 1), (.server, .handleFirstPacket 2 hello),
      (.server, .pollTransmit 3), (.server, .sendOne 3),
      (.client, .handleData 4 (txBytes .initial (.u8 0) ++ [2, 0, 0, 0, 0, 6, 0, 1, 0]))]
  obtain ⟨f, hf, hv⟩ := Checked.map_eq_ok.mp (show (fun f : Side → Party => (f .client).conn.connectedCount) <$>
    run network.step (network.start fun _ => 0) ops = .ok 1 by decide +kernel)
  have hm : Meets network.step (network.Legal fun _ _ _ => True) (network.start fun _ => 0) ops := by decide +kernel
  obtain ⟨-, hhailed, horder⟩ := connected_in_order (fun _ => 0) ops f hm hf
  have hclient : (f .client).conn.connectedCount ≠ 0 := by rw [hv]; decide
  exact ⟨f, hv, horder hclient, hhailed .server (horder hclient), hhailed .client hclient⟩

/-! ## The Handshake space -/

/-- The party has left the Handshake space as it was made at the time `t`, and put no packet of it on the wire. -/
structure Party.Skips (t : Instant) (p : Party) : Prop where
  untouched : p.conn.Untouched t
  wire : ∀ w ∈ p.past.wire, w.Early

/-- **A step keeps a party from the Handshake space**, if the peer has sent no packet of it. -/
theorem partyStep_skips {t : Instant} {p p' q : Party} {op : ConnectionOp} (hp : p.Skips t)
    (hq : ∀ w ∈ q.past.wire, w.Early) (hs : q.Sends op) (h : partyStep p op = .ok p') : p'.Skips t := by
  obtain ⟨hc, hn⟩ := partyStep_eq_ok.mp h
  refine ⟨connectionStep_untouched hp.untouched (fun packet hb => ?_) hc, ?_⟩
  · obtain ⟨w, hw, hpacket⟩ := hs.brings hb
    exact (hq w hw).2 packet hpacket
  · rcases History.note_wire hn with ⟨he, -⟩ | ⟨-, he⟩ | ⟨-, he⟩
    · rw [he]
      exact hp.wire
    · rw [he]
      exact hp.wire
    · rw [he]
      exact fun w hw => (List.mem_append.mp hw).elim (hp.wire w) fun hw =>
        hp.untouched.queue w (List.mem_of_mem_head? (Option.mem_toList.mp hw))

/-- **The Handshake space is never used.** In every run of a client and a server, on such a network and with any calls
of their applications, neither end puts a packet of the Handshake space on the wire, nor one that is read as such a
packet, and the space stays as it was made: the whole handshake is made in the Initial space. -/
theorem handshake_space_unused (start : Side → Instant) (ops : List (Side × ConnectionOp)) (f : Side → Party)
    (hm : Meets network.step (network.Legal fun _ _ _ => True) (network.start start) ops)
    (h : run network.step (network.start start) ops = .ok f) (side : Side) :
    (f side).conn.spaces .handshake = PacketSpace.new (start side) ∧ (f side).conn.highestSpace = .initial ∧
    ∀ w ∈ (f side).past.wire, w.metaInfo.spaceId ≠ .handshake ∧
      ∀ packet, packetOf w.packet = some packet → packet.header.space ≠ .handshake := by
  have hskips := run_inv (I := fun f : Side → Party => ∀ i, (f i).Skips (start i))
    (fun f a f' hI hok hs => by
      obtain ⟨p, hp, rfl⟩ := Exchange.step_eq_ok hs
      exact (Function.forall_update_iff f fun i p => p.Skips (start i)).mpr
        ⟨partyStep_skips (hI a.1) (hI _).wire hok.1 hp, fun i _ => hI i⟩)
    (fun i => ⟨untouched_new (start i) i, fun _ hw => absurd hw List.not_mem_nil⟩) hm h side
  exact ⟨hskips.untouched.space, hskips.untouched.highest, hskips.wire⟩

/-- A client and a server are connected without it. -/
theorem handshake_space_unused_both : ∃ f : Side → Party, (f .server).past.wire.length = 1 ∧
    (f .server).conn.spaces .handshake = PacketSpace.new 0 ∧
    ∀ w ∈ (f .server).past.wire, w.metaInfo.spaceId ≠ .handshake := by
  let hello : InitialPacket := ⟨⟨fakeCid, fakeCid, [], .u8 0, 1⟩, [6, 0, 1, 0]⟩
  let ops : List (Side × ConnectionOp) :=
    [(.client, .pollTransmit 1), (.client, .sendOne 1), (.server, .handleFirstPacket 2 hello),
      (.server, .pollTransmit 3), (.server, .sendOne 3),
      (.client, .handleData 4 (txBytes .initial (.u8 0) ++ [2, 0, 0, 0, 0, 6, 0, 1, 0]))]
  obtain ⟨f, hf, hv⟩ := Checked.map_eq_ok.mp (show (fun f : Side → Party => (f .server).past.wire.length) <$>
    run network.step (network.start fun _ => 0) ops = .ok 1 by decide +kernel)
  obtain ⟨hspace, -, hwire⟩ := handshake_space_unused (fun _ => 0) ops f (by decide +kernel) hf .server
  exact ⟨f, hv, hspace, fun w hw => (hwire w hw).1⟩

end MzQuic
