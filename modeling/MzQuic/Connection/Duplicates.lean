import MzQuic.Connection.Dedup
import MzQuic.Connection.Inner

/-!
# Packets are processed once

* `LogRun`, `logStep`: a connection with the packets it has processed;
* **`packets_processed_once`**: no packet is processed twice if and only if no copy of the first packet
  of a server gets past the window, which has never seen the number of that packet.
-/

namespace MzQuic

open Lib

namespace Connection

/-! ## The window of a connection -/

section Window

variable {c c' : Connection} {now : Instant}

/-- The window of each space. -/
def dedups (c : Connection) (id : SpaceId) : Dedup := (c.spaces id).dedup

theorem Outer.dedups {b : Bool} (h : Outer b c c') : c'.dedups = c.dedups := funext h.dedup

/-- A change of a space that leaves its window alone. -/
theorem dedups_modifySpace (c : Connection) (id : SpaceId) (f : PacketSpace → PacketSpace)
    (h : (f (c.spaces id)).dedup = (c.spaces id).dedup) : (c.modifySpace id f).dedups = c.dedups :=
  (outer_modifySpace (b := false) c id f h).dedups

theorem FrameMove.dedups {r : Except TransportError Bool} (h : FrameMove c r c') : c'.dedups = c.dedups := by
  cases h with
  | acked h => exact (onAckReceived_inner h).outer.dedups
  | crypto id => exact funext fun i => ((c.onCrypto_kept id).2.2 i).dedup
  | immediate id => exact dedups_modifySpace c id _ rfl
  | _ => rfl

/-- The frames of a packet leave the windows alone. -/
theorem processPacket_dedups {number : Option ℕ} {packet : Packet} {r : Except ConnectionError Unit}
    (h : c.processPacket now number packet = .ok (r, c')) : c'.dedups = c.dedups :=
  processPacket_inv (I := fun x => x.dedups = c.dedups) (fun _ _ _ hm hx => hm.dedups.trans hx) h rfl

theorem afterPacket_dedups (now : Instant) (wasClosed wasDrained : Bool)
    (res : Except ConnectionError Unit × Connection) :
    (afterPacket now wasClosed wasDrained res).dedups = res.2.dedups := by
  obtain ⟨r, c⟩ := res
  unfold afterPacket
  dsimp only
  cases r <;> dsimp only <;> split_ifs <;> rfl

theorem screened_dedups (c : Connection) (header : Header) : (c.screened header).dedups =
    Function.update c.dedups header.space (c.screen header).2 :=
  field_modifySpace c header.space _ PacketSpace.dedup

theorem pollTimers_dedups (h : c.pollTimers now = .ok c') : c'.dedups = c.dedups := by
  rcases pollTimers_fired h with rfl | ⟨timer, hf⟩
  · rfl
  · cases hf with
    | lossDetection h => exact (onLossDetectionTimeout_inner h).outer.dedups
    | close => rfl
    | maxAckDelay => exact dedups_modifySpace _ .data _ rfl
    | other _ _ _ => rfl

end Window

/-- The packet that a step processes. -/
def processed (c : Connection) : ConnectionOp → Option (SpaceId × ℕ)
  | .handleData _ data => (packetOf data).bind fun packet =>
    if c.accepts packet.header then (c.arrival packet.header).map (packet.header.space, ·) else none
  | .handleFirstPacket _ packet => some (.initial, packet.header.number.expand 0)
  | _ => none

/-- **What a step does to the windows.** Only `handle_data` moves one, that of the packet's space. -/
theorem connectionStep_dedups {c c' : Connection} {op : ConnectionOp} (hop : op.inTask = true)
    (h : connectionStep c op = .ok c') : (c.processed op = none ∧ c'.dedups = c.dedups) ∨
      ∃ now data packet, op = .handleData now data ∧ packetOf data = some packet ∧
        c'.dedups = Function.update c.dedups packet.header.space (c.screen packet.header).2 := by
  cases op with
  | pollTransmit now =>
      obtain ⟨⟨more, c₁⟩, h1, h⟩ := Checked.bind_eq_ok.mp h
      cases h
      exact .inl ⟨rfl, (pollTransmit_outer h1).dedups⟩
  | sendOne t =>
      cases h
      exact .inl ⟨rfl, (sendOne_inner c t).outer.dedups⟩
  | pollTimers now => exact .inl ⟨rfl, pollTimers_dedups h⟩
  | handleData now data =>
      rcases handleData_cases h with ⟨hd, rfl⟩ | ⟨packet, hd, h⟩
      · refine .inl ⟨?_, rfl⟩
        dsimp only [processed]
        rw [hd]
        rfl
      · refine .inr ⟨now, data, packet, rfl, hd, ?_⟩
        rw [← screened_dedups]
        rcases h with ⟨-, rfl⟩ | ⟨-, c₁, res, h1, h2, rfl⟩
        · rfl
        · rw [afterPacket_dedups, processPacket_dedups h2, (authenticate_outer h1).dedups]
  | handleFirstPacket now packet => cases hop
  | close now errorCode reason =>
      cases h
      refine .inl ⟨rfl, ?_⟩
      unfold close
      split_ifs <;> rfl
  | _ => exact .inl ⟨rfl, (connectionStep_call_inner rfl h).outer.dedups⟩

/-- **A step processes only packets whose number was not seen, and then has seen it.** -/
theorem connectionStep_seen {c c' : Connection} {op : ConnectionOp} (hop : op.inTask = true)
    (h : connectionStep c op = .ok c') : (∀ id n, (c.dedups id).Seen n → (c'.dedups id).Seen n) ∧
      ∀ p, c.processed op = some p → ¬ (c.dedups p.1).Seen p.2 ∧ (c'.dedups p.1).Seen p.2 := by
  rcases connectionStep_dedups hop h with ⟨hp, hd⟩ | ⟨now, data, ⟨header, payload⟩, rfl, hdec, hd⟩
  · rw [hd, hp]
    exact ⟨fun _ _ h => h, fun p hp => by cases hp⟩
  · -- the window that has moved rejects what it rejected before
    have hseen : ∀ id n, (c.dedups id).Seen n → (c'.dedups id).Seen n := by
      intro id n hn
      rw [hd]
      by_cases hid : id = header.space
      · subst hid
        rw [Function.update_self]
        unfold screen
        split
        · exact hn.insert _
        · exact hn
      · rwa [Function.update_of_ne hid]
    refine ⟨hseen, fun p hp => ?_⟩
    dsimp only [processed] at hp
    rw [hdec] at hp
    dsimp only [Option.bind_some] at hp
    split_ifs at hp with hacc
    obtain ⟨n, hn, rfl⟩ := Option.map_eq_some_iff.mp hp
    have hscreen : c.screen header = (c.dedups header.space).insert n := by
      unfold screen
      rw [hn]
      rfl
    have hnew : (c.screen header).1 = false := by
      unfold accepts at hacc
      simpa using (Bool.and_eq_true_iff.mp hacc).1
    rw [hd, hscreen, Function.update_self]
    rw [hscreen] at hnew
    refine ⟨fun hs => ?_, Dedup.seen_insert _ n⟩
    rw [(Dedup.insert_fst _ n).mpr hs] at hnew
    cases hnew

end Connection

open Connection

/-! ## Runs -/

/-- A connection with the packets it has processed. -/
structure LogRun where
  c : Connection
  log : List (SpaceId × ℕ)

/-- One step. -/
def logStep (r : LogRun) (op : ConnectionOp) : Checked LogRun := do
  let c ← connectionStep r.c op
  return ⟨c, r.log ++ (r.c.processed op).toList⟩

/-- The beginning of a run. -/
def LogRun.start (c : Connection) (first : Option ℕ) : LogRun := ⟨c, first.toList.map (.initial, ·)⟩

/-- The step processes an Initial packet with the number of the first packet. -/
def Replays (first : Option ℕ) (r : LogRun) (op : ConnectionOp) : Bool :=
  first.any fun n => r.c.processed op = some (.initial, n)

theorem logStep_log {r r' : LogRun} {op : ConnectionOp} (h : logStep r op = .ok r') :
    r'.log = r.log ++ (r.c.processed op).toList := by
  obtain ⟨c, -, h⟩ := Checked.bind_eq_ok.mp h
  cases h
  rfl

theorem run_log {r r' : LogRun} {ops : List ConnectionOp} (h : run logStep r ops = .ok r') :
    r.log <+: r'.log :=
  run_inv (I := fun x => r.log <+: x.log)
    (fun x op x' hx _ hs => hx.trans (by rw [logStep_log hs]; exact List.prefix_append _ _))
    (List.prefix_refl _) (Meets.trivial _ _ _) h

/-- What is known of the packets processed so far: the window rejects each, unless it is the first. -/
structure Logged (first : Option ℕ) (r : LogRun) : Prop where
  nodup : r.log.Nodup
  seen : ∀ p ∈ r.log, (r.c.dedups p.1).Seen p.2 ∨ ∃ n, first = some n ∧ p = (.initial, n)

theorem logged_start (c : Connection) (first : Option ℕ) : Logged first (LogRun.start c first) := by
  cases first with
  | none => exact ⟨List.nodup_nil, fun p hp => by cases hp⟩
  | some n =>
      refine ⟨List.nodup_singleton _, fun p hp => .inr ⟨n, rfl, ?_⟩⟩
      exact List.mem_singleton.mp hp

theorem logStep_logged {first : Option ℕ} {r r' : LogRun} {op : ConnectionOp} (hr : Logged first r)
    (hop : op.inTask = true) (hnew : Replays first r op = false) (h : logStep r op = .ok r') :
    Logged first r' := by
  obtain ⟨c, hstep, h⟩ := Checked.bind_eq_ok.mp h
  cases h
  obtain ⟨hkeep, hproc⟩ := connectionStep_seen hop hstep
  have hold : ∀ p ∈ r.log, (c.dedups p.1).Seen p.2 ∨ ∃ n, first = some n ∧ p = (.initial, n) :=
    fun p hp => (hr.seen p hp).imp_left (hkeep p.1 p.2)
  cases hp : r.c.processed op with
  | none =>
      simp only [Option.toList_none, List.append_nil]
      exact ⟨hr.nodup, hold⟩
  | some p =>
      obtain ⟨hunseen, hseen⟩ := hproc p hp
      have hfresh : p ∉ r.log := by
        intro hm
        rcases hr.seen p hm with hs | ⟨n, rfl, rfl⟩
        · exact hunseen hs
        · simp [Replays, hp] at hnew
      simp only [Option.toList_some]
      refine ⟨?_, fun q hq => ?_⟩
      · rw [← List.concat_eq_append]
        exact hr.nodup.concat hfresh
      · rcases List.mem_append.mp hq with hq | hq
        · exact hold q hq
        · rw [List.mem_singleton.mp hq]
          exact .inl hseen

/-- A replay puts the first packet into the log again. -/
theorem not_replays_of_nodup {first : Option ℕ} {r r' : LogRun} {op : ConnectionOp}
    (hfirst : ∀ n ∈ first, (.initial, n) ∈ r.log) (h : logStep r op = .ok r') (hnd : r'.log.Nodup) :
    Replays first r op = false := by
  rw [logStep_log h] at hnd
  cases hp : r.c.processed op with
  | none =>
      unfold Replays
      rw [hp]
      cases first <;> rfl
  | some p =>
      rw [hp, Option.toList_some, ← List.concat_eq_append, List.nodup_concat] at hnd
      rw [Bool.eq_false_iff]
      intro hrep
      unfold Replays at hrep
      rw [hp, Option.any_eq_true] at hrep
      obtain ⟨n, hn, he⟩ := hrep
      cases of_decide_eq_true he
      exact hnd.1 (hfirst n hn)

theorem meets_of_nodup {first : Option ℕ} {r r' : LogRun} {ops : List ConnectionOp}
    (hfirst : ∀ n ∈ first, (.initial, n) ∈ r.log) (h : run logStep r ops = .ok r') (hnd : r'.log.Nodup) :
    Meets logStep (fun r op => Replays first r op = false) r ops := by
  induction ops generalizing r with
  | nil => trivial
  | cons op ops ih =>
      obtain ⟨r₁, h1, h⟩ := Checked.bind_eq_ok.mp h
      refine .cons (not_replays_of_nodup hfirst h1 (hnd.sublist (run_log h).sublist)) h1 (ih (fun n hn => ?_) h)
      rw [logStep_log h1]
      exact List.mem_append_left _ (hfirst n hn)

/-- **Each packet is processed at most once.** In every run of a connection, no number of a space is
processed twice if and only if no step processes an Initial packet with the number of the packet
that `handle_first_packet` took, which it does not enter into the window. -/
theorem packets_processed_once (c : Connection) (first : Option ℕ) (hc : Starts c first)
    (ops : List ConnectionOp) (hops : ∀ op ∈ ops, op.inTask = true) (r : LogRun)
    (h : run logStep (.start c first) ops = .ok r) : r.log.Nodup ↔
      Meets logStep (fun r op => Replays first r op = false) (.start c first) ops := by
  constructor
  · refine meets_of_nodup (fun n hn => ?_) h
    cases hn
    exact List.mem_singleton_self _
  · intro hm
    exact (run_inv (I := Logged first) (fun r op r' hr hok hs => logStep_logged hr hok.1 hok.2 hs)
      (logged_start c first) (Meets.and (Meets.of_forall hops) hm) h).nodup

/-- The first packet of the client in the example runs. -/
def firstHello : InitialPacket := ⟨⟨fakeCid, fakeCid, [], .u8 0, 1⟩, [6, 0, 1, 0]⟩

/-- A server that has taken the first packet receives the next one twice. -/
theorem packets_processed_once_two : ∃ c ops r, Starts c (some 0) ∧
    run logStep (.start c (some 0)) ops = .ok r ∧ r.log = [(.initial, 0), (.initial, 1)] ∧ r.log.Nodup := by
  let ops : List ConnectionOp := [.handleData 2 (initialDatagram 1 [1]), .handleData 3 (initialDatagram 1 [1])]
  obtain ⟨⟨res, c⟩, hc, hv⟩ := Checked.map_eq_ok.mp (show (fun p : Except ConnectionError Unit × Connection =>
      (p.1, LogRun.log <$> run logStep (.start p.2 (some 0)) ops,
        decide (Meets logStep (fun r op => Replays (some 0) r op = false) (.start p.2 (some 0)) ops))) <$>
      (Connection.new 0 .server).handleFirstPacket 1 firstHello =
        .ok (.ok (), .ok [(.initial, 0), (.initial, 1)], true) by decide +kernel)
  obtain ⟨hres, hv⟩ := Prod.mk.inj hv
  obtain ⟨hlog, hmeets⟩ := Prod.mk.inj hv
  dsimp only at hres hlog hmeets
  subst hres
  obtain ⟨r, hr, hlog⟩ := Checked.map_eq_ok.mp hlog
  have hs : Starts c (some 0) := .server 0 hc
  exact ⟨c, ops, r, hs, hr, hlog, (packets_processed_once c (some 0) hs ops (by decide) r hr).mpr
    (of_decide_eq_true hmeets)⟩

/-- A server takes the first packet again when it comes a second time. -/
theorem first_packet_replayed : ∃ header payload c ops r,
    Header.decode 0 supportedVersions (initialDatagram 0 [6, 0, 1, 0]) = .ok (.ok (.initial header), payload) ∧
    (Connection.new 0 .server).handleFirstPacket 1 ⟨header, payload⟩ = .ok (.ok (), c) ∧
    ops = [.handleData 2 (initialDatagram 0 [6, 0, 1, 0])] ∧
    run logStep (.start c (some (header.number.expand 0))) ops = .ok r ∧ ¬ r.log.Nodup := by
  let ops : List ConnectionOp := [.handleData 2 (initialDatagram 0 [6, 0, 1, 0])]
  obtain ⟨⟨res, c⟩, hc, hv⟩ := Checked.map_eq_ok.mp (show (fun p : Except ConnectionError Unit × Connection =>
      (p.1, LogRun.log <$> run logStep (.start p.2 (some 0)) ops)) <$>
      (Connection.new 0 .server).handleFirstPacket 1 firstHello =
        .ok (.ok (), .ok [(.initial, 0), (.initial, 0)]) by decide +kernel)
  obtain ⟨hres, hlog⟩ := Prod.mk.inj hv
  dsimp only at hres hlog
  subst hres
  obtain ⟨r, hr, hlog⟩ := Checked.map_eq_ok.mp hlog
  refine ⟨firstHello.header, firstHello.payload, c, ops, r, by decide +kernel, hc, rfl, hr, ?_⟩
  rw [hlog]
  decide

end MzQuic
