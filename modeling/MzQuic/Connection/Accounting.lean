import MzQuic.Connection.Moves

/-!
# Packets in flight are accounted exactly

* `Accounted`: packet numbers are used once, the counter of each space is the sum of the sizes of its
  packets in flight, and the counters of the path are the sums over the spaces. The first packet sent
  has number 0, so that no packet counts as sent before the path was established;
* `Accounted.resolve`, `discard`, `compose`, `send`, and `Move.accounted`: the moves keep it;
* `Accounted.remove_total`: no counter goes below zero;
* **`in_flight_exact`**: in every reachable state the counters are the sums over the packets in
  flight, and no subtraction from them underflows.
-/

namespace MzQuic

open Lib

namespace Connection

/-! ## Sums -/

/-- The sum over the spaces. -/
def total (f : SpaceId → ℕ) : ℕ := (SpaceId.variants.map f).sum

theorem total_update (f : SpaceId → ℕ) (id : SpaceId) (x : ℕ) :
    total (Function.update f id x) + f id = total f + x := by
  cases id <;> simp [total, SpaceId.variants, Function.update] <;> omega

theorem le_total (f : SpaceId → ℕ) (id : SpaceId) : f id ≤ total f :=
  List.single_le_sum (fun _ _ => Nat.zero_le _) _ (List.mem_map.mpr ⟨id, by cases id <;> decide, rfl⟩)

/-- The sum of a quantity over packets. -/
def sumOf (g : SentPacket → ℕ) (l : List (ℕ × SentPacket)) : ℕ := (l.map fun p => g p.2).sum

theorem sumOf_perm {g : SentPacket → ℕ} {l l' : List (ℕ × SentPacket)} (h : l.Perm l') :
    sumOf g l = sumOf g l' := (h.map _).sum_eq

theorem sumOf_cons (g : SentPacket → ℕ) (pn : ℕ) (packet : SentPacket) (l : List (ℕ × SentPacket)) :
    sumOf g ((pn, packet) :: l) = g packet + sumOf g l := List.sum_cons

/-- What the counter of ACK-eliciting packets counts. -/
def eliciting (p : SentPacket) : ℕ := p.ackEliciting.toNat

theorem remove_ok {f f' : InFlight} {packet : SentPacket} : f.remove packet = .ok f' ↔
    f'.bytes + packet.size = f.bytes ∧ f'.ackEliciting + eliciting packet = f.ackEliciting := by
  unfold InFlight.remove eliciting
  constructor
  · intro h
    obtain ⟨a, h1, h⟩ := Checked.bind_eq_ok.mp h
    obtain ⟨b, h2, h⟩ := Checked.bind_eq_ok.mp h
    obtain ⟨l1, rfl⟩ := Checked.sub_eq_ok.mp h1
    obtain ⟨l2, rfl⟩ := Checked.sub_eq_ok.mp h2
    cases h
    dsimp only
    omega
  · rintro ⟨h1, h2⟩
    obtain ⟨bytes, ackEliciting⟩ := f'
    dsimp only at h1 h2
    rw [Checked.sub_of_le (by omega), Checked.ok_bind, Checked.sub_of_le (by omega), Checked.ok_bind,
      Checked.pure_eq]
    congr 2 <;> omega

/-! ## The invariant -/

/-- The numbers of the packets of a space that are in flight or scheduled. -/
def Core.numbers (k : Core) (id : SpaceId) : List ℕ :=
  (k.sent id).entries.map Prod.fst ++ (k.queue.filter (·.spaceId = id)).map SentPacket.number

/-- Packets in flight are accounted exactly. -/
structure Accounted (k : Core) : Prop where
  numbered : ∀ id, ∀ p ∈ (k.sent id).entries, p.2.number = p.1
  distinct : ∀ id, (k.numbers id).Nodup
  below : ∀ id, ∀ n ∈ k.numbers id, n < k.next id
  space : ∀ id, k.spaceInFlight id = sumOf SentPacket.size (k.sent id).entries
  bytes : k.inFlight.bytes = total k.spaceInFlight
  ackEliciting : k.inFlight.ackEliciting = total fun id => sumOf eliciting (k.sent id).entries
  first : ∀ n, k.firstPacket = some n → n = 0
  unsent : k.firstPacket = none → (∀ id, (k.sent id).entries = []) ∧
    (∀ p ∈ k.queue.head?, p.number = 0) ∧ (k.queue = [] → ∀ id, k.next id = 0)

section Accounted

variable {k : Core} {id : SpaceId} {pn n : ℕ} {packet : SentPacket}

/-- Every packet in flight is removed from the counters of the path. -/
theorem Accounted.removed_eq (h : Accounted k) (hp : (pn, packet) ∈ (k.sent id).entries) (f : InFlight) :
    removed k.firstPacket f n packet = f.remove packet := by
  unfold removed
  cases hf : k.firstPacket with
  | none =>
      have := (h.unsent hf).1 id
      rw [this] at hp
      cases hp
  | some m =>
      have := h.first m hf
      subst this
      simp

theorem Accounted.sum_le (h : Accounted k) (hp : (pn, packet) ∈ (k.sent id).entries) :
    packet.size ≤ k.spaceInFlight id ∧ packet.size ≤ k.inFlight.bytes ∧
      eliciting packet ≤ k.inFlight.ackEliciting := by
  have hperm := OrdMap.erase_perm hp
  have h1 : packet.size ≤ k.spaceInFlight id := by
    rw [h.space id, sumOf_perm hperm, sumOf_cons]
    omega
  refine ⟨h1, ?_, ?_⟩
  · rw [h.bytes]
    exact h1.trans (le_total _ id)
  · rw [h.ackEliciting]
    refine le_trans ?_ (le_total _ id)
    rw [sumOf_perm hperm, sumOf_cons]
    omega

/-- **No counter goes below zero** when a packet is acknowledged or lost. -/
theorem Accounted.remove_total (h : Accounted k) (hp : (pn, packet) ∈ (k.sent id).entries) :
    ∃ f, removed k.firstPacket k.inFlight n packet = .ok f := by
  obtain ⟨-, h1, h2⟩ := h.sum_le hp
  rw [h.removed_eq hp]
  exact ⟨⟨k.inFlight.bytes - packet.size, k.inFlight.ackEliciting - eliciting packet⟩,
    remove_ok.mpr ⟨by dsimp only; omega, by dsimp only; omega⟩⟩

theorem sum_update (g : SentPacket → ℕ) (f : SpaceId → OrdMap SentPacket) (m : OrdMap SentPacket) :
    (fun i => sumOf g (Function.update f id m i).entries) =
      Function.update (fun i => sumOf g (f i).entries) id (sumOf g m.entries) := by
  funext i
  by_cases hi : i = id
  · subst hi
    simp only [Function.update_self]
  · simp only [Function.update_of_ne hi]

/-- Packets leave a space, and the counters with them. -/
theorem Accounted.shrink (h : Accounted k) {m : OrdMap SentPacket} {f : InFlight} {x : ℕ}
    (hm : m.entries.Sublist (k.sent id).entries) (hne : (k.sent id).entries ≠ [])
    (hx : x = sumOf SentPacket.size m.entries)
    (hb : f.bytes + sumOf SentPacket.size (k.sent id).entries =
      k.inFlight.bytes + sumOf SentPacket.size m.entries)
    (ha : f.ackEliciting + sumOf eliciting (k.sent id).entries =
      k.inFlight.ackEliciting + sumOf eliciting m.entries) (b : StreamId → Option SendBuffer) :
    Accounted { k with
      inFlight := f
      sent := Function.update k.sent id m
      spaceInFlight := Function.update k.spaceInFlight id x
      buffers := b } := by
  have hsub : ∀ i, (Function.update k.sent id m i).entries.Sublist (k.sent i).entries := by
    intro i
    by_cases hi : i = id
    · subst hi
      rwa [Function.update_self]
    · rw [Function.update_of_ne hi]
  set k' : Core := { k with
    inFlight := f
    sent := Function.update k.sent id m
    spaceInFlight := Function.update k.spaceInFlight id x
    buffers := b }
  have hn : ∀ i, (k'.numbers i).Sublist (k.numbers i) := fun i =>
    ((hsub i).map Prod.fst).append (List.Sublist.refl _)
  refine ⟨fun i p hp => h.numbered i p ((hsub i).subset hp), fun i => (h.distinct i).sublist (hn i),
    fun i n hi => h.below i n ((hn i).subset hi), fun i => ?_, ?_, ?_, h.first,
    fun hf => absurd ((h.unsent hf).1 id) hne⟩
  · show Function.update k.spaceInFlight id x i = sumOf _ (Function.update k.sent id m i).entries
    by_cases hi : i = id
    · subst hi
      rw [Function.update_self, Function.update_self, hx]
    · rw [Function.update_of_ne hi, Function.update_of_ne hi, h.space i]
  · show f.bytes = total (Function.update k.spaceInFlight id x)
    have := total_update k.spaceInFlight id x
    have h1 := h.space id
    have h2 := h.bytes
    omega
  · show f.ackEliciting = total fun i => sumOf eliciting (Function.update k.sent id m i).entries
    have := total_update (fun i => sumOf eliciting (k.sent i).entries) id (sumOf eliciting m.entries)
    have h2 := h.ackEliciting
    rw [sum_update]
    omega

/-- A packet is acknowledged or lost. -/
theorem Accounted.resolve (h : Accounted k) (hp : (pn, packet) ∈ (k.sent id).entries) {f : InFlight}
    (hf : removed k.firstPacket k.inFlight n packet = .ok f) (b : StreamId → Option SendBuffer) :
    Accounted { k with
      inFlight := f
      sent := Function.update k.sent id ((k.sent id).erase pn)
      spaceInFlight := Function.update k.spaceInFlight id (k.spaceInFlight id - packet.size)
      buffers := b } := by
  rw [h.removed_eq hp] at hf
  obtain ⟨h1, h2⟩ := remove_ok.mp hf
  have hperm := OrdMap.erase_perm hp
  have e1 := (sumOf_perm (g := SentPacket.size) hperm).trans (sumOf_cons _ _ _ _)
  have e2 := (sumOf_perm (g := eliciting) hperm).trans (sumOf_cons _ _ _ _)
  have hs := h.space id
  refine h.shrink List.filter_sublist (List.ne_nil_of_mem hp) ?_ ?_ ?_ b <;> omega

/-- A space is discarded. -/
theorem Accounted.discard (h : Accounted k) {f : InFlight}
    (hf : run (fun f p => removed k.firstPacket f p.1 p.2) k.inFlight (k.sent id).entries = .ok f) :
    Accounted { k with
      inFlight := f
      sent := Function.update k.sent id ∅
      spaceInFlight := Function.update k.spaceInFlight id 0 } := by
  -- the loop takes the sums off the counters
  have hloop : ∀ (l : List (ℕ × SentPacket)) (f f' : InFlight), (∀ p ∈ l, p ∈ (k.sent id).entries) →
      run (fun f p => removed k.firstPacket f p.1 p.2) f l = .ok f' →
      f'.bytes + sumOf SentPacket.size l = f.bytes ∧
        f'.ackEliciting + sumOf eliciting l = f.ackEliciting := by
    intro l
    induction l with
    | nil =>
        intro f f' _ h
        cases h
        exact ⟨rfl, rfl⟩
    | cons p l ih =>
        intro f f' hl hr
        obtain ⟨pn, packet⟩ := p
        obtain ⟨f₁, h1, hr⟩ := Checked.bind_eq_ok.mp hr
        have h1 : removed k.firstPacket f pn packet = .ok f₁ := h1
        rw [h.removed_eq (hl _ List.mem_cons_self)] at h1
        obtain ⟨a1, a2⟩ := remove_ok.mp h1
        obtain ⟨b1, b2⟩ := ih f₁ f' (fun q hq => hl q (List.mem_cons_of_mem _ hq)) hr
        rw [sumOf_cons, sumOf_cons]
        omega
  obtain ⟨h1, h2⟩ := hloop _ _ _ (fun _ hp => hp) hf
  by_cases hne : (k.sent id).entries = []
  · -- nothing was in flight in that space
    have hempty : k.sent id = ∅ := OrdMap.ext hne
    have hzero : k.spaceInFlight id = 0 := by rw [h.space id, hne]; rfl
    have hfk : f = k.inFlight := by
      rw [hne] at hf
      exact (Except.ok.inj hf).symm
    have e1 : Function.update k.sent id ∅ = k.sent := by rw [← hempty, Function.update_eq_self]
    have e2 : Function.update k.spaceInFlight id 0 = k.spaceInFlight := by
      rw [← hzero, Function.update_eq_self]
    rw [e1, e2, hfk]
    exact h
  · exact h.shrink (List.nil_sublist _) hne rfl h1 h2 k.buffers

/-- A packet is scheduled. -/
theorem Accounted.compose (h : Accounted k) {p : SentPacket} (hn : p.number = k.next id)
    (hid : p.spaceId = id) (b : StreamId → Option SendBuffer) :
    Accounted { k with
      queue := k.queue ++ [p]
      next := Function.update k.next id (k.next id + 1)
      buffers := b } := by
  set k' : Core := { k with
    queue := k.queue ++ [p]
    next := Function.update k.next id (k.next id + 1)
    buffers := b }
  have hnums : ∀ i, k'.numbers i = if i = id then k.numbers i ++ [p.number] else k.numbers i := by
    intro i
    show _ ++ ((k.queue ++ [p]).filter (·.spaceId = i)).map SentPacket.number = _
    rw [List.filter_append, List.map_append, ← List.append_assoc]
    by_cases hi : i = id
    · rw [if_pos hi, List.filter_cons_of_pos (by simp [hid, hi])]
      rfl
    · rw [if_neg hi, List.filter_cons_of_neg (by simpa [hid] using fun e => hi e.symm)]
      rw [List.filter_nil, List.map_nil, List.append_nil]
      rfl
  have hnext : ∀ i, k'.next i = if i = id then k.next i + 1 else k.next i := by
    intro i
    show Function.update k.next id (k.next id + 1) i = _
    by_cases hi : i = id
    · subst hi
      rw [Function.update_self, if_pos rfl]
    · rw [Function.update_of_ne hi, if_neg hi]
  refine ⟨h.numbered, fun i => ?_, fun i n hi => ?_, h.space, h.bytes, h.ackEliciting, h.first,
    fun hf => ?_⟩
  · rw [hnums]
    split_ifs with hi
    · refine List.nodup_append.mpr ⟨h.distinct i, List.nodup_singleton _, fun x hx y hy => ?_⟩
      rw [List.mem_singleton.mp hy, hn, ← hi]
      exact (h.below i x hx).ne
    · exact h.distinct i
  · rw [hnext]
    rw [hnums] at hi
    split_ifs at hi ⊢ with he
    · rcases List.mem_append.mp hi with hi | hi
      · exact (h.below i n hi).trans (Nat.lt_succ_self _)
      · rw [List.mem_singleton.mp hi, hn, ← he]
        exact Nat.lt_succ_self _
    · exact h.below i n hi
  · obtain ⟨h1, h2, h3⟩ := h.unsent hf
    refine ⟨h1, fun q hq => ?_, fun he => absurd he (by simp [k'])⟩
    have hq' : q ∈ (k.queue ++ [p]).head? := hq
    cases hqueue : k.queue with
    | nil =>
        rw [hqueue] at hq'
        cases hq'
        rw [hn, h3 hqueue]
    | cons x xs =>
        rw [hqueue] at hq' h2
        exact h2 q hq'

/-- A packet is sent. -/
theorem Accounted.send (h : Accounted k) {p : SentPacket} {queue : List SentPacket}
    (hq : k.queue = p :: queue) (t : Instant) :
    Accounted { k with
      queue := queue
      inFlight := k.inFlight.insert p
      firstPacket := if k.firstPacket.isNone then some p.number else k.firstPacket
      sent := Function.update k.sent p.spaceId
        ((k.sent p.spaceId).insert p.number { p with timeSent := t })
      spaceInFlight := Function.update k.spaceInFlight p.spaceId
        (k.spaceInFlight p.spaceId + p.size) } := by
  set q : SentPacket := { p with timeSent := t }
  set m := (k.sent p.spaceId).insert p.number q
  set k' : Core := { k with
    queue := queue
    inFlight := k.inFlight.insert p
    firstPacket := if k.firstPacket.isNone then some p.number else k.firstPacket
    sent := Function.update k.sent p.spaceId m
    spaceInFlight := Function.update k.spaceInFlight p.spaceId (k.spaceInFlight p.spaceId + p.size) }
  have hhead : k.numbers p.spaceId = (k.sent p.spaceId).entries.map Prod.fst ++
      p.number :: (queue.filter (·.spaceId = p.spaceId)).map SentPacket.number := by
    unfold Core.numbers
    rw [hq, List.filter_cons_of_pos (by simp), List.map_cons]
  -- the number is new
  have hnew : p.number ∉ (k.sent p.spaceId).entries.map Prod.fst := by
    intro hmem
    have hd := h.distinct p.spaceId
    rw [hhead] at hd
    exact (List.nodup_append.mp hd).2.2 _ hmem _ List.mem_cons_self rfl
  have hperm : m.entries.Perm ((p.number, q) :: (k.sent p.spaceId).entries) := OrdMap.insert_perm q hnew
  have hnums : ∀ i, (k'.numbers i).Perm (k.numbers i) := by
    intro i
    by_cases hi : i = p.spaceId
    · subst hi
      rw [hhead]
      have e : k'.numbers p.spaceId = m.entries.map Prod.fst ++
          (queue.filter (·.spaceId = p.spaceId)).map SentPacket.number := by
        show (Function.update k.sent p.spaceId m p.spaceId).entries.map Prod.fst ++ _ = _
        rw [Function.update_self]
      rw [e]
      exact ((hperm.map Prod.fst).append_right _).trans List.perm_middle.symm
    · have e : k'.numbers i = k.numbers i := by
        show (Function.update k.sent p.spaceId m i).entries.map Prod.fst ++ _ = _
        unfold Core.numbers
        rw [Function.update_of_ne hi, hq, List.filter_cons_of_neg (by simpa using fun e => hi e.symm)]
      rw [e]
  refine ⟨fun i x hx => ?_, fun i => (hnums i).nodup_iff.mpr (h.distinct i),
    fun i n hn => h.below i n ((hnums i).subset hn), fun i => ?_, ?_, ?_, fun n hn => ?_, fun hn => ?_⟩
  · have hx : x ∈ (Function.update k.sent p.spaceId m i).entries := hx
    by_cases hi : i = p.spaceId
    · subst hi
      rw [Function.update_self] at hx
      rcases OrdMap.mem_insert.mp hx with rfl | ⟨hx, -⟩
      · rfl
      · exact h.numbered _ x hx
    · rw [Function.update_of_ne hi] at hx
      exact h.numbered i x hx
  · show Function.update k.spaceInFlight p.spaceId (k.spaceInFlight p.spaceId + p.size) i =
      sumOf _ (Function.update k.sent p.spaceId m i).entries
    by_cases hi : i = p.spaceId
    · subst hi
      rw [Function.update_self, Function.update_self, sumOf_perm hperm, sumOf_cons, h.space, add_comm]
    · rw [Function.update_of_ne hi, Function.update_of_ne hi, h.space i]
  · show k.inFlight.bytes + p.size = total (Function.update k.spaceInFlight p.spaceId _)
    have := total_update k.spaceInFlight p.spaceId (k.spaceInFlight p.spaceId + p.size)
    have h2 := h.bytes
    omega
  · show k.inFlight.ackEliciting + eliciting p =
      total fun i => sumOf eliciting (Function.update k.sent p.spaceId m i).entries
    have := total_update (fun i => sumOf eliciting (k.sent i).entries) p.spaceId
      (sumOf eliciting m.entries)
    have h2 := h.ackEliciting
    have h3 : sumOf eliciting m.entries = eliciting p + sumOf eliciting (k.sent p.spaceId).entries := by
      rw [sumOf_perm hperm, sumOf_cons]
      rfl
    rw [sum_update]
    omega
  · have hn : (if k.firstPacket.isNone then some p.number else k.firstPacket) = some n := hn
    split_ifs at hn with hf
    · cases hn
      exact (h.unsent (Option.isNone_iff_eq_none.mp hf)).2.1 p (by rw [hq]; rfl)
    · exact h.first n hn
  · have hn : (if k.firstPacket.isNone then some p.number else k.firstPacket) = none := hn
    split_ifs at hn with hf
    exact absurd (Option.isNone_iff_eq_none.mpr hn) hf

end Accounted

/-- The send buffers are not accounted. -/
theorem Accounted.congr {k k' : Core} (h : Accounted k) (hk : k' = { k with buffers := k'.buffers }) :
    Accounted k' := by
  rw [hk]
  exact ⟨h.numbered, h.distinct, h.below, h.space, h.bytes, h.ackEliciting, h.first, h.unsent⟩

theorem Move.accounted {c c' : Connection} (h : Move c c') (hc : Accounted c.core) :
    Accounted c'.core := by
  cases h with
  | quiet h => rwa [h.1]
  | received id n now h _ => rwa [h]
  | acked id pn h =>
      rcases ackOne_ok h with ⟨rfl, -⟩ | ⟨packet, s, hr, -, -⟩
      · exact hc
      · rw [hr.core]
        exact hc.resolve (OrdMap.find?_eq_some.mp hr.found) hr.path (buffers s)
  | lost now id p hp h =>
      obtain ⟨s, hr, -, -⟩ := loseOne_ok hp h
      rw [hr.core]
      exact hc.resolve (OrdMap.find?_eq_some.mp hr.found) hr.path (buffers s)
  | discarded id h =>
      obtain ⟨h1, h2, -⟩ := discardSpace_ok h
      rw [h2]
      exact hc.discard h1
  | composed now close id ackEliciting h =>
      obtain ⟨p, hn, -, hid, -, hk, -⟩ := composePacket_ok h
      rw [hk]
      exact hc.compose hn hid _
  | sent t =>
      rcases c.sendOne_ok t with ⟨-, e⟩ | ⟨p, queue, hq, hk, -⟩
      · rwa [e]
      · rw [hk]
        exact hc.send hq t

theorem accounted_new (now : Instant) (side : Side) : Accounted (Connection.new now side).core := by
  have hk : (Connection.new now side).core = (Connection.new now .server).core := by
    cases side with
    | client =>
        unfold core
        congr 1 <;> funext id <;> cases id <;> rfl
    | server => rfl
  rw [hk]
  refine ⟨fun id p hp => ?_, fun id => List.nodup_nil, fun id n hn => ?_, fun id => rfl, rfl, rfl,
    fun n hn => ?_, fun _ => ⟨fun id => rfl, fun p hp => ?_, fun _ id => rfl⟩⟩
  · cases hp
  · cases hn
  · cases hn
  · cases hp

/-! ## The counters of every reachable state -/

/-- The counters are the sums over the packets in flight, and taking packets off them returns. -/
structure Exact (c : Connection) : Prop where
  space : ∀ id, (c.spaces id).inFlight =
    ((c.spaces id).sentPackets.entries.map fun p => p.2.size).sum
  bytes : c.path.inFlight.bytes = (SpaceId.variants.map fun id => (c.spaces id).inFlight).sum
  ackEliciting : c.path.inFlight.ackEliciting =
    (SpaceId.variants.map fun id => (c.spaces id).sentPackets.entries.countP (·.2.ackEliciting)).sum
  take : ∀ id pn, ∃ r, (c.spaces id).take pn = .ok r
  remove : ∀ id, ∀ p ∈ (c.spaces id).sentPackets.entries, ∃ f, c.path.inFlight.remove p.2 = .ok f
  removeAll : ∀ id, ∃ f, run (fun f p => InFlight.remove f p.2) c.path.inFlight
    (c.spaces id).sentPackets.entries = .ok f

theorem sumOf_eliciting (l : List (ℕ × SentPacket)) : sumOf eliciting l = l.countP (·.2.ackEliciting) := by
  induction l with
  | nil => rfl
  | cons p l ih =>
      rw [show p = (p.1, p.2) from rfl, sumOf_cons, ih, List.countP_cons, eliciting, add_comm]
      cases p.2.ackEliciting with
      | true => rfl
      | false => rfl

/-- Packets whose sums are in the counters are taken off them one by one. -/
theorem removeAll_total {l : List (ℕ × SentPacket)} {f : InFlight}
    (hb : sumOf SentPacket.size l ≤ f.bytes) (ha : sumOf eliciting l ≤ f.ackEliciting) :
    ∃ f', run (fun f p => InFlight.remove f p.2) f l = .ok f' := by
  induction l generalizing f with
  | nil => exact ⟨f, rfl⟩
  | cons p l ih =>
      rw [show p = (p.1, p.2) from rfl, sumOf_cons] at hb ha
      have hf : f.remove p.2 = .ok ⟨f.bytes - p.2.size, f.ackEliciting - eliciting p.2⟩ :=
        remove_ok.mpr ⟨by dsimp only; omega, by dsimp only; omega⟩
      rw [run_cons, hf, Checked.ok_bind]
      refine ih ?_ ?_
      · dsimp only; omega
      · dsimp only; omega

theorem Accounted.exact {c : Connection} (h : Accounted c.core) : c.Exact where
  space := h.space
  bytes := h.bytes
  ackEliciting := by
    rw [show c.path.inFlight.ackEliciting = _ from h.ackEliciting]
    unfold total
    congr 1
    exact List.map_congr_left fun id _ => sumOf_eliciting _
  take := fun id pn => by
    unfold PacketSpace.take
    cases hf : (c.spaces id).sentPackets.find? pn with
    | none => exact ⟨_, rfl⟩
    | some packet =>
        have hp : (pn, packet) ∈ (c.core.sent id).entries := OrdMap.find?_eq_some.mp hf
        have hle : packet.size ≤ (c.spaces id).inFlight := (h.sum_le hp).1
        dsimp only
        rw [Checked.sub_of_le hle]
        exact ⟨_, rfl⟩
  remove := fun id p hp => by
    obtain ⟨f, hf⟩ := h.remove_total (n := p.1) (show (p.1, p.2) ∈ (c.core.sent id).entries from hp)
    rw [h.removed_eq (show (p.1, p.2) ∈ (c.core.sent id).entries from hp)] at hf
    exact ⟨f, hf⟩
  removeAll := fun id => by
    refine removeAll_total ?_ ?_
    · rw [show c.path.inFlight.bytes = _ from h.bytes]
      exact (h.space id).symm.le.trans (le_total _ id)
    · rw [show c.path.inFlight.ackEliciting = _ from h.ackEliciting]
      exact le_total (fun id => sumOf eliciting (c.core.sent id).entries) id

end Connection

open Connection

/-- The steps of a connection, and calls of the functions that change the packets in flight, in any
space and at any time. -/
inductive PacketOp
  | step (op : ConnectionOp)
  | onAckReceived (now : Instant) (id : SpaceId) (ack : Ack)
  | detectLostPackets (now : Instant) (id : SpaceId)
  | discardSpace (id : SpaceId)

/-- One operation. -/
def packetStep (c : Connection) : PacketOp → Checked Connection
  | .step op => connectionStep c op
  | .onAckReceived now id ack => do
    let (_, c) ← c.onAckReceived now id ack
    return c
  | .detectLostPackets now id => c.detectLostPackets now id
  | .discardSpace id => c.discardSpace id

theorem packetStep_accounted (c : Connection) (op : PacketOp) (c' : Connection) (hc : Accounted c.core)
    (h : packetStep c op = .ok c') : Accounted c'.core := by
  have hm : ∀ {c'}, Moves c c' → Accounted c'.core := fun hm =>
    Moves.inv (I := fun c => Accounted c.core) (fun _ _ hm => hm.accounted) hm hc
  cases op with
  | step op =>
      by_cases hop : op.creates = false
      · exact hm (connectionStep_moves hop h)
      · obtain ⟨s, rfl⟩ := connectionStep_creates hop h
        exact hc.congr rfl
  | onAckReceived now id ack =>
      obtain ⟨⟨r, c₁⟩, h1, h⟩ := Checked.bind_eq_ok.mp h
      cases h
      exact hm (onAckReceived_moves h1)
  | detectLostPackets now id => exact hm (detectLostPackets_moves h)
  | discardSpace id => exact hm (.single (.discarded id h))

/-- **Accounts of packets in flight are exact** in every state that any interleaving of the operations
reaches, and in every state that the loops of a further operation pass through, each of whose rounds
is a move. -/
theorem in_flight_exact (now : Instant) (side : Side) (ops : List PacketOp) (c c' : Connection)
    (h : run packetStep (Connection.new now side) ops = .ok c) (hm : Moves c c') : c'.Exact := by
  have hc : Accounted c.core := run_inv (I := fun c => Accounted c.core)
    (fun c op c' hc _ h => packetStep_accounted c op c' hc h) (accounted_new now side)
    (Meets.trivial packetStep _ ops) h
  exact (Moves.inv (I := fun c => Accounted c.core) (fun _ _ hm => hm.accounted) hm hc).exact

/-- A packet is sent, and is in the counters until it is acknowledged. -/
theorem in_flight_exact_hello : ∃ c, run packetStep (Connection.new 0 .client)
      [.step (.pollTransmit 1), .step (.sendOne 1)] = .ok c ∧ c.path.inFlight.ackEliciting = 1 ∧
    c.Exact := by
  let ops : List PacketOp := [.step (.pollTransmit 1), .step (.sendOne 1)]
  obtain ⟨c, hc, hv⟩ := Checked.map_eq_ok.mp (show (fun c : Connection => c.path.inFlight.ackEliciting) <$>
    run packetStep (Connection.new 0 .client) ops = .ok 1 by decide +kernel)
  exact ⟨c, hc, hv, in_flight_exact 0 .client ops c c hc .refl⟩

end MzQuic
