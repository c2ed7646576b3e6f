import MzQuic.Connection.Common
import MzQuic.Lib.OrdMap
import MzQuic.Lib.Run
import MzQuic.Proto.Packet

/-!
# The endpoint (`core/src/endpoint.rs`)

An endpoint keeps its connection tasks in a slab and maps each remote address to a slot of it.

* `Endpoint` with `connect`, `dispatchDatagram`, `acceptConnection`, `removeConnection` and the close
  check of `run`. Which vacant slot the slab hands out is part of the operation;
* `Endpoint.Consistent`: each route leads to an occupied slot for the same address;
* **`routes_consistent`**: this holds along every run in which no task has ended when the close check
  is made;
* `routes_stale`: the close check frees the slot of an ended task and keeps its route.
-/

namespace MzQuic

open Lib

section Endpoint

variable {Addr : Type} [DecidableEq Addr]

/-- `ConnectionTask`, with the datagrams that were handed to it. -/
structure ConnectionTask (Addr : Type) where
  handle : ℕ
  remote : Addr
  isAlive : Bool
  inbox : List (ℕ × Bytes)

/-- A task that has just been spawned. -/
def ConnectionTask.new (handle : ℕ) (remote : Addr) : ConnectionTask Addr := ⟨handle, remote, true, []⟩

/-- `data_tx.send(…).ok()`: the receiver of an ended task is gone. -/
def ConnectionTask.send (t : ConnectionTask Addr) (now : ℕ) (data : Bytes) : ConnectionTask Addr :=
  if t.isAlive then { t with inbox := t.inbox ++ [(now, data)] } else t

/-- `Endpoint`. -/
structure Endpoint (Addr : Type) where
  connections : OrdMap (ConnectionTask Addr)
  routes : Addr → Option ℕ

namespace Endpoint

/-- `Endpoint::new`. -/
def new : Endpoint Addr := ⟨∅, fun _ => none⟩

/-- Put a new task into the vacant slot `key` and route its address to it. -/
def insertTask (e : Endpoint Addr) (addr : Addr) (key : ℕ) : Endpoint Addr :=
  let conn := ConnectionTask.new key addr
  { connections := e.connections.insert key conn
    routes := Function.update e.routes addr (some conn.handle) }

/-- `Endpoint::start_connection`. -/
def startConnection (e : Endpoint Addr) (addr : Addr) (key : ℕ) : Endpoint Addr := e.insertTask addr key

/-- `Endpoint::connect`. -/
def connect (e : Endpoint Addr) (addr : Addr) (key : ℕ) : Endpoint Addr :=
  if (e.routes addr).isSome then e else e.startConnection addr key

/-- `Endpoint::accept_connection`. The fresh connection decides with `handleFirstPacket` whether it
takes the packet. -/
def acceptConnection (handleFirstPacket : ℕ → InitialHeader → Bytes →
      Checked (Except ConnectionError Unit)) (e : Endpoint Addr) (addr : Addr) (firstPacket : Bytes)
    (now key : ℕ) : Checked (Endpoint Addr) := do
  match ← Header.decode 0 supportedVersions firstPacket with
  | (.ok (.initial header), payload) =>
    match ← handleFirstPacket now header payload with
    | .error _ => return e
    | .ok () => return e.insertTask addr key
  | _ => return e

/-- `Endpoint::remove_connection`. -/
def removeConnection (e : Endpoint Addr) (ch : ℕ) : Endpoint Addr :=
  match e.connections.find? ch with
  | none => e
  | some conn =>
    { connections := e.connections.erase ch
      routes := Function.update e.routes conn.remote none }

/-- `Endpoint::dispatch_datagram`. -/
def dispatchDatagram (handleFirstPacket : ℕ → InitialHeader → Bytes →
      Checked (Except ConnectionError Unit)) (e : Endpoint Addr) (data : Bytes) (addr : Addr)
    (now key : ℕ) : Checked (Endpoint Addr) :=
  match e.routes addr with
  | some ch =>
    match e.connections.find? ch with
    | none => .error .unwrap
    | some conn => .ok { e with connections := e.connections.insert ch (conn.send now data) }
  | none => e.acceptConnection handleFirstPacket addr data now key

/-- The close check of `run`: the slots of the ended tasks are freed, and then their connections are
removed. -/
def checkClose (e : Endpoint Addr) : Endpoint Addr :=
  let removed := (e.connections.entries.filter fun p => !p.2.isAlive).map Prod.fst
  let e := { e with connections := e.connections.retain fun _ conn => conn.isAlive }
  removed.foldl removeConnection e

/-- A task ends. -/
def taskEnds (e : Endpoint Addr) (key : ℕ) : Endpoint Addr :=
  match e.connections.find? key with
  | none => e
  | some conn => { e with connections := e.connections.insert key { conn with isAlive := false } }

end Endpoint

/-! ## Runs -/

/-- What happens to an endpoint. `key` is the slot that the slab hands out if one is needed. -/
inductive EndpointOp (Addr : Type)
  | connect (addr : Addr) (key : ℕ)
  | dispatchDatagram (data : Bytes) (addr : Addr) (now key : ℕ)
  | taskEnds (key : ℕ)
  | checkClose

variable (handleFirstPacket : ℕ → InitialHeader → Bytes → Checked (Except ConnectionError Unit))

/-- One step. -/
def endpointStep (e : Endpoint Addr) : EndpointOp Addr → Checked (Endpoint Addr)
  | .connect addr key => .ok (e.connect addr key)
  | .dispatchDatagram data addr now key => e.dispatchDatagram handleFirstPacket data addr now key
  | .taskEnds key => .ok (e.taskEnds key)
  | .checkClose => .ok e.checkClose

/-- The slab hands out vacant slots. -/
def EndpointOp.Legal (e : Endpoint Addr) : EndpointOp Addr → Prop
  | .connect _ key | .dispatchDatagram _ _ _ key => e.connections.find? key = none
  | _ => True

/-- No task has ended when the close check is made. -/
def EndpointOp.AllAlive (e : Endpoint Addr) : EndpointOp Addr → Prop
  | .checkClose => ∀ p ∈ e.connections.entries, p.2.isAlive = true
  | _ => True

/-! ## Consistency -/

namespace Endpoint

/-- Each route leads to an occupied slot for the same address. -/
def Consistent (e : Endpoint Addr) : Prop :=
  ∀ addr h, e.routes addr = some h → ∃ conn, e.connections.find? h = some conn ∧ conn.remote = addr

variable {e : Endpoint Addr}

omit [DecidableEq Addr] in
theorem Consistent.new : (Endpoint.new : Endpoint Addr).Consistent := fun _ _ h => by cases h

theorem Consistent.insertTask (hc : e.Consistent) (addr : Addr) {key : ℕ}
    (hk : e.connections.find? key = none) : (e.insertTask addr key).Consistent := by
  intro a h hr
  dsimp only [Endpoint.insertTask] at hr ⊢
  by_cases ha : a = addr
  · subst ha
    rw [Function.update_self] at hr
    cases hr
    exact ⟨_, by rw [OrdMap.find?_insert]; exact if_pos rfl, rfl⟩
  · rw [Function.update_of_ne ha] at hr
    obtain ⟨conn, hf, hrem⟩ := hc a h hr
    refine ⟨conn, ?_, hrem⟩
    rw [OrdMap.find?_insert, if_neg (fun hh => by rw [hh, hk] at hf; cases hf), hf]

omit [DecidableEq Addr] in
/-- A task may change in anything but its address. -/
theorem Consistent.replace (hc : e.Consistent) {key : ℕ} {conn conn' : ConnectionTask Addr}
    (hf : e.connections.find? key = some conn) (hr : conn'.remote = conn.remote) :
    ({ e with connections := e.connections.insert key conn' } : Endpoint Addr).Consistent := by
  intro a h hroute
  obtain ⟨c, hc', hrem⟩ := hc a h hroute
  dsimp only
  rw [OrdMap.find?_insert]
  split_ifs with hk
  · rw [hk, hf] at hc'
    cases hc'
    exact ⟨conn', rfl, hr.trans hrem⟩
  · exact ⟨c, hc', hrem⟩

omit [DecidableEq Addr] in
theorem send_remote (conn : ConnectionTask Addr) (now : ℕ) (data : Bytes) :
    (conn.send now data).remote = conn.remote := by
  unfold ConnectionTask.send
  split_ifs <;> rfl

/-- The close check leaves the endpoint as it is if all tasks are alive. -/
theorem checkClose_of_alive (h : ∀ p ∈ e.connections.entries, p.2.isAlive = true) :
    e.checkClose = e := by
  have h1 : (e.connections.entries.filter fun p => !p.2.isAlive) = [] := by
    rw [List.filter_eq_nil_iff]
    intro p hp
    simp [h p hp]
  have h2 : (e.connections.retain fun _ conn => conn.isAlive) = e.connections :=
    OrdMap.ext (List.filter_eq_self.mpr h)
  unfold checkClose
  dsimp only
  rw [h1, h2]
  rfl

end Endpoint

/-- **One step keeps the routes consistent.** -/
theorem endpointStep_consistent (e : Endpoint Addr) (op : EndpointOp Addr) (e' : Endpoint Addr)
    (hc : e.Consistent) (hl : op.Legal e ∧ op.AllAlive e)
    (h : endpointStep handleFirstPacket e op = .ok e') : e'.Consistent := by
  obtain ⟨hl, ha⟩ := hl
  cases op with
  | connect addr key =>
      cases h
      unfold Endpoint.connect
      split_ifs
      · exact hc
      · exact hc.insertTask addr hl
  | dispatchDatagram data addr now key =>
      change e.dispatchDatagram handleFirstPacket data addr now key = .ok e' at h
      unfold Endpoint.dispatchDatagram at h
      cases hr : e.routes addr with
      | some ch =>
          rw [hr] at h
          obtain ⟨conn, hf, -⟩ := hc addr ch hr
          simp only [hf] at h
          cases h
          exact hc.replace hf (Endpoint.send_remote conn now data)
      | none =>
          rw [hr] at h
          obtain ⟨⟨res, payload⟩, -, h⟩ := Checked.bind_eq_ok.mp h
          split at h
          · obtain ⟨res', -, h⟩ := Checked.bind_eq_ok.mp h
            rcases res' with err | u
            · cases h
              exact hc
            · cases h
              exact hc.insertTask addr hl
          · cases h
            exact hc
  | taskEnds key =>
      cases h
      unfold Endpoint.taskEnds
      cases hf : e.connections.find? key with
      | none => exact hc
      | some conn => exact hc.replace hf rfl
  | checkClose =>
      cases h
      rw [Endpoint.checkClose_of_alive ha]
      exact hc

/-- **Routes stay consistent** along every run in which no task has ended when the close check is
made: each route leads to a connection for its address, and a datagram from a routed address is
handed to that connection. -/
theorem routes_consistent (ops : List (EndpointOp Addr)) {e : Endpoint Addr}
    (hl : Meets (endpointStep handleFirstPacket) (fun e op => op.Legal e) Endpoint.new ops)
    (ha : Meets (endpointStep handleFirstPacket) (fun e op => op.AllAlive e) Endpoint.new ops)
    (h : run (endpointStep handleFirstPacket) Endpoint.new ops = .ok e) :
    e.Consistent ∧ ∀ addr ch, e.routes addr = some ch → ∃ conn, e.connections.find? ch = some conn ∧
      conn.remote = addr ∧ ∀ data now key,
        e.dispatchDatagram handleFirstPacket data addr now key =
          .ok { e with connections := e.connections.insert ch (conn.send now data) } := by
  have hc : e.Consistent :=
    run_inv (endpointStep_consistent handleFirstPacket) Endpoint.Consistent.new (hl.and ha) h
  refine ⟨hc, fun addr ch hr => ?_⟩
  obtain ⟨conn, hf, hrem⟩ := hc addr ch hr
  refine ⟨conn, hf, hrem, fun data now key => ?_⟩
  unfold Endpoint.dispatchDatagram
  simp only [hr, hf]

end Endpoint

/-- One connection, which ends after a datagram was handed to it. -/
theorem routes_consistent_one : ∃ (ops : List (EndpointOp ℕ)) (e : Endpoint ℕ),
    run (endpointStep fun _ _ _ => .ok (.ok ())) Endpoint.new ops = .ok e ∧ e.routes 7 = some 0 ∧
    e.Consistent ∧ ∀ addr ch, e.routes addr = some ch → ∃ conn, e.connections.find? ch = some conn ∧
      conn.remote = addr ∧ ∀ data now key,
        e.dispatchDatagram (fun _ _ _ => .ok (.ok ())) data addr now key =
          .ok { e with connections := e.connections.insert ch (conn.send now data) } := by
  let ops : List (EndpointOp ℕ) := [.connect 7 0, .checkClose, .dispatchDatagram [1] 7 5 1, .taskEnds 0]
  refine ⟨ops, _, rfl, rfl, routes_consistent _ ops ?_ ?_ rfl⟩
  · exact .cons rfl rfl (.cons trivial rfl (.cons rfl rfl (.cons trivial rfl trivial)))
  · refine .cons trivial rfl (.cons (fun p hp => ?_) rfl (.cons trivial rfl (.cons trivial rfl trivial)))
    obtain rfl : p = (0, ConnectionTask.new 0 7) := List.mem_singleton.mp hp
    rfl

/-- A connection ends and the close check frees its slot: the route stays, and the next datagram from
its address makes `dispatch_datagram` unwrap a missing slot. If the slot is reused first, that
datagram is handed to the connection of another address. -/
theorem routes_stale : ∃ (ops : List (EndpointOp ℕ)) (e : Endpoint ℕ),
    Meets (endpointStep fun _ _ _ => .ok (.ok ())) (fun e op => op.Legal e) Endpoint.new ops ∧
    run (endpointStep fun _ _ _ => .ok (.ok ())) Endpoint.new ops = .ok e ∧ ¬ e.Consistent ∧
    e.dispatchDatagram (fun _ _ _ => .ok (.ok ())) [1] 7 5 1 = .error .unwrap ∧
    ∃ e' conn, endpointStep (fun _ _ _ => .ok (.ok ())) e (.connect 8 0) = .ok e' ∧
      e'.routes 7 = some 0 ∧ e'.connections.find? 0 = some conn ∧ conn.remote = 8 := by
  refine ⟨[.connect 7 0, .taskEnds 0, .checkClose], _,
    .cons rfl rfl (.cons trivial rfl (.cons trivial rfl trivial)), rfl, fun hc => ?_, rfl, _, _, rfl, rfl,
    rfl, rfl⟩
  obtain ⟨conn, hf, -⟩ := hc 7 0 rfl
  cases hf

end MzQuic
