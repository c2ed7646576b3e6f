import MzQuic.Connection.Control
import MzQuic.Connection.Ledger
import MzQuic.Connection.Truthful
import MzQuic.Lib.Exchange

/-!
# A client and a server

Two connections, and a network between them that may lose, duplicate, delay and reorder datagrams, but does
not change them.

* `Heard`, `Chunks.hear`: what an application learns of a stream that it reads;
* `History`, `Party`, `partyStep`: a connection with what its application has done and heard, the packets that it has
  put on the wire and those that it has accepted;
* `network`: a datagram of the peer arrives at any time, any number of times or never;
* `ConnectionOp.Proper`: the application makes no send half a second time, and a poll cuts no range that it sends.
-/

namespace MzQuic

open Lib

/-! ## What is heard of a stream -/

/-- What the owner of a receive half has heard of its stream. -/
inductive Heard
  | chunk (c : Chunk)
  /-- `next` has returned `Ok(None)`. -/
  | finished
  /-- `next` or `received_reset` has returned the code of a reset. -/
  | reset (errorCode : ℕ)
  /-- The half was stopped by its owner. -/
  | stopped
  deriving DecidableEq

/-- What a call of `next` tells. -/
def Heard.ofNext : Except ReadError (Option Chunk) → List Heard
  | .ok (some c) => [.chunk c]
  | .ok none => [.finished]
  | .error (.reset errorCode) => [.reset errorCode]
  | .error .blocked => []

/-- Call `next` with each of the lengths, and keep what it tells. -/
def Chunks.hear : List ℕ → Chunks → Checked (List Heard × Chunks)
  | [], c => .ok ([], c)
  | m :: ms, c => do
    let (res, c) ← c.next m
    let (heard, c) ← Chunks.hear ms c
    return (Heard.ofNext res ++ heard, c)

theorem Chunks.hear_cons {m : ℕ} {ms : List ℕ} {c c' : Chunks} {heard : List Heard}
    (h : c.hear (m :: ms) = .ok (heard, c')) : ∃ res c₁ rest, c.next m = .ok (res, c₁) ∧
      c₁.hear ms = .ok (rest, c') ∧ heard = Heard.ofNext res ++ rest := by
  obtain ⟨⟨res, c₁⟩, h1, h⟩ := Checked.bind_eq_ok.mp h
  obtain ⟨⟨rest, c₂⟩, h2, h⟩ := Checked.bind_eq_ok.mp h
  cases h
  exact ⟨res, c₁, rest, h1, h2, rfl⟩

theorem Chunks.nexts_eq_hear (ms : List ℕ) (c : Chunks) : c.nexts ms = c.hear ms >>= fun p => .ok p.2 := by
  induction ms generalizing c with
  | nil => rfl
  | cons m ms ih =>
      unfold nexts hear
      cases c.next m with
      | error p => rfl
      | ok p =>
          obtain ⟨res, c₁⟩ := p
          rw [Checked.ok_bind, Checked.ok_bind]
          dsimp only
          rw [ih]
          cases c₁.hear ms with
          | error q => rfl
          | ok q => rfl

/-- What a call of `read`, with the calls of `next` that follow it, tells. -/
def StreamsState.hears (s : StreamsState) (id : StreamId) (lengths : List ℕ) : Checked (List Heard) := do
  match ← s.read id true with
  | (.error _, _) => return []
  | (.ok c, _) =>
    let (heard, _) ← c.hear lengths
    return heard

/-! ## A connection with its history -/

/-- What has happened to one stream at one end. -/
structure StreamPast where
  /-- Whether the stream was opened here, or written to. -/
  began : Bool := false
  /-- The bytes of the successful writes. -/
  wrote : Bytes := []
  finished : Bool := false
  /-- The codes of the resets that were accepted. -/
  resets : List ℕ := []
  /-- The codes with which the receive half was stopped. -/
  stops : List ℕ := []
  heard : List Heard := []

/-- What has happened at one end. -/
structure History where
  streams : StreamId → StreamPast := fun _ => {}
  /-- The packets that were put on the wire. -/
  wire : List ScheduledPacket := []
  /-- The packets that were accepted, with their numbers. -/
  arrived : List (ℕ × Packet) := []

/-- One end of a connection. -/
structure Party where
  conn : Connection
  past : History

/-- A fresh connection. -/
def Party.new (now : Instant) (side : Side) : Party := ⟨Connection.new now side, {}⟩

/-- The packet of a datagram, with its number, if it is accepted while the connection is open. -/
def Connection.arrivals (c : Connection) (data : Bytes) : List (ℕ × Packet) :=
  match packetOf data with
  | some packet =>
    if c.accepts packet.header ∧ c.state.isClosed = false then
      (c.arrival packet.header).toList.map fun n => (n, packet)
    else []
  | none => []

namespace History

/-- Something happens to one stream. -/
def modify (h : History) (id : StreamId) (f : StreamPast → StreamPast) : History :=
  { h with streams := Function.update h.streams id (f (h.streams id)) }

@[simp] theorem modify_self (h : History) (id : StreamId) (f : StreamPast → StreamPast) :
    (h.modify id f).streams id = f (h.streams id) := Function.update_self ..

@[simp] theorem modify_of_ne (h : History) {id i : StreamId} (hi : i ≠ id) (f : StreamPast → StreamPast) :
    (h.modify id f).streams i = h.streams i := Function.update_of_ne hi ..

/-- What a step of a connection that was `c` before it adds to the history. -/
def note (h : History) (c : Connection) : ConnectionOp → Checked History
  | .sendOne _ => .ok { h with wire := h.wire ++ c.path.sendingQueue.head?.toList }
  | .handleData _ data => .ok { h with arrived := h.arrived ++ c.arrivals data }
  | .handleFirstPacket _ packet =>
    .ok { h with arrived := h.arrived ++ [(packet.header.number.expand 0, packet.toPacket)] }
  | .openStream dir => .ok (h.modify (c.streams.open dir).1 fun s => { s with began := true })
  | .write id data =>
    if c.state.isClosed then .ok h
    else match (c.streams.write false id data).1 with
      | .ok () => .ok (h.modify id fun s => { s with began := true, wrote := s.wrote ++ data })
      | .error _ => .ok (h.modify id fun s => { s with began := true })
  | .finish id =>
    match (c.streams.finish id).1 with
    | .ok () => .ok (h.modify id fun s => { s with finished := true })
    | .error _ => .ok h
  | .reset id errorCode =>
    match (c.streams.reset {} id errorCode).1 with
    | .ok () => .ok (h.modify id fun s => { s with resets := s.resets ++ [errorCode] })
    | .error _ => .ok h
  | .read id lengths => do
    let heard ← c.streams.hears id lengths
    return h.modify id fun s => { s with heard := s.heard ++ heard }
  | .stop id errorCode => do
    match ← c.streams.stop {} id errorCode with
    | (.ok (), _) => return h.modify id fun s => { s with
        stops := s.stops ++ [errorCode]
        heard := s.heard ++ [.stopped] }
    | (.error _, _) => return h
  | .takeReset id =>
    match (c.streams.takeReset id).1 with
    | .ok (some errorCode) => .ok (h.modify id fun s => { s with heard := s.heard ++ [.reset errorCode] })
    | _ => .ok h
  | _ => .ok h

end History

/-- One step of a party. -/
def partyStep (p : Party) (op : ConnectionOp) : Checked Party := do
  let c ← connectionStep p.conn op
  let past ← p.past.note p.conn op
  return ⟨c, past⟩

theorem partyStep_eq_ok {p p' : Party} {op : ConnectionOp} : partyStep p op = .ok p' ↔
    connectionStep p.conn op = .ok p'.conn ∧ p.past.note p.conn op = .ok p'.past := by
  constructor
  · intro h
    obtain ⟨c, h1, h⟩ := Checked.bind_eq_ok.mp h
    obtain ⟨past, h2, h⟩ := Checked.bind_eq_ok.mp h
    cases h
    exact ⟨h1, h2⟩
  · rintro ⟨h1, h2⟩
    unfold partyStep
    rw [h1, Checked.ok_bind, h2]
    rfl

/-! ## The network -/

/-- The other side. -/
def Side.peer : Side → Side
  | .client => .server
  | .server => .client

/-- What arrives was put on the wire by the peer. -/
def Party.Sends (q : Party) : ConnectionOp → Prop
  | .handleData _ data => ∃ w ∈ q.past.wire, w.packet = data
  | .handleFirstPacket _ packet => ∃ w ∈ q.past.wire, Connection.packetOf w.packet = some packet.toPacket
  | _ => True

instance (q : Party) : ∀ op : ConnectionOp, Decidable (q.Sends op)
  | .handleData _ data => inferInstanceAs (Decidable (∃ w ∈ q.past.wire, w.packet = data))
  | .handleFirstPacket _ packet =>
    inferInstanceAs (Decidable (∃ w ∈ q.past.wire, Connection.packetOf w.packet = some packet.toPacket))
  | .openStream _ | .write .. | .finish _ | .reset .. | .setPriority .. | .read .. | .stop .. | .takeReset _
  | .pollTransmit _ | .sendOne _ | .pollTimers _ | .close .. => .isTrue trivial

/-- A client and a server, with a network between them. -/
def network : Exchange Side Party ConnectionOp where
  partner := Side.peer
  partner_partner := by rintro (_ | _) <;> rfl
  partner_ne := by rintro (_ | _) <;> nofun
  act := partyStep
  allows := Party.Sends

instance (q : Party) (op : ConnectionOp) : Decidable (network.allows q op) := inferInstanceAs (Decidable (q.Sends op))

/-- Both ends are fresh. -/
def network.start (start : Side → Instant) (side : Side) : Party := Party.new (start side) side

/-- A poll, unless it is to close the connection, cuts no range that it sends. -/
def Connection.SendsWhole (c : Connection) (now : Instant) : Prop :=
  c.polls = some false → c.composes false (c.path.inFlight.bytes ≥ c.path.congestion.window) .data = true →
    c.StreamsWhole now

instance (c : Connection) (now : Instant) : Decidable (c.SendsWhole now) := by
  unfold Connection.SendsWhole
  infer_instance

/-- The application makes no send half a second time, and a poll cuts no range that it sends. -/
def ConnectionOp.Proper (p : Party) : ConnectionOp → Prop
  | .openStream dir => (p.past.streams (p.conn.streams.open dir).1).began = false
  | .write id _ => p.conn.state.isClosed = false → p.conn.streams.send id = none →
    (p.past.streams id).began = false
  | .pollTransmit now => p.conn.SendsWhole now
  | _ => True

instance (p : Party) : ∀ op : ConnectionOp, Decidable (op.Proper p)
  | .openStream dir => inferInstanceAs (Decidable ((p.past.streams (p.conn.streams.open dir).1).began = false))
  | .write id _ =>
    if h : p.conn.streams.send id = none then
      decidable_of_iff (p.conn.state.isClosed = false → (p.past.streams id).began = false)
        ⟨fun hp hc _ => hp hc, fun hp hc => hp hc h⟩
    else .isTrue fun _ hs => absurd hs h
  | .pollTransmit now => inferInstanceAs (Decidable (p.conn.SendsWhole now))
  | .finish _ | .reset .. | .setPriority .. | .read .. | .stop .. | .takeReset _ | .sendOne _ | .pollTimers _
  | .handleData .. | .handleFirstPacket .. | .close .. => .isTrue trivial

end MzQuic
