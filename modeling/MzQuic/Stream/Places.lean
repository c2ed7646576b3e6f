import MzQuic.Stream.SendBuffer

/-!
# Every byte of a stream is in one place

* `SendRun.places`: in how many places the scheduler of a send buffer has the byte at an offset: never
  sent, to be sent again, in flight, acknowledged;
* `sendStep_resolved`: every operation moves bytes from one place to another;
* **`byte_in_one_place`**: along every run, each byte that was written is in exactly one place.
-/

namespace MzQuic

open Lib

/-- The places of the bytes that were sent: to be sent again, in flight, acknowledged. -/
def SendRun.resolved (s : SendRun) (x : ℕ) : ℕ :=
  (if x ∈ s.buf.retransmits then 1 else 0) + s.flight.countP (x ∈ ·) + s.acked.countP (x ∈ ·)

/-- In how many places the byte at offset `x` is: never sent, to be sent again, in flight once for each
outstanding range with `x` in it, acknowledged once for each acknowledged range. -/
def SendRun.places (s : SendRun) (x : ℕ) : ℕ := (if s.buf.unsent ≤ x then 1 else 0) + s.resolved x

/-- The bytes that were sent are the bytes in one of the other places. -/
structure SendRun.Placed (s : SendRun) : Prop where
  wf : s.buf.WF s.written
  resolved : ∀ x, s.resolved x = if x < s.buf.unsent then 1 else 0

/-- What was sent was to be sent again or had never been sent. -/
theorem SendBuffer.sent_mem (b : SendBuffer) {stop : ℕ} (h1 : b.nextRange.start ≤ stop)
    (h2 : stop ≤ b.nextRange.end) (x : ℕ) :
    (if x ∈ (b.sent stop).retransmits then 1 else 0) +
        (if b.nextRange.start ≤ x ∧ x < stop then 1 else 0) + (if x < b.unsent then 1 else 0) =
      (if x ∈ b.retransmits then 1 else 0) + (if x < (b.sent stop).unsent then 1 else 0) := by
  obtain ⟨hr, e⟩ | ⟨-, hsub, hu, hmem⟩ := b.sent_cases h1 h2
  · rw [hr] at h1 h2 ⊢
    rw [e]
    dsimp only at h1 h2 ⊢
    split_ifs <;> omega
  · rw [hu]
    by_cases hx : b.nextRange.start ≤ x ∧ x < stop
    · have hin : x ∈ b.retransmits := hsub x (Range.mem_iff.mpr ⟨hx.1, by omega⟩)
      rw [if_neg (fun hm => ((hmem x).mp hm).2 hx), if_pos hx, if_pos hin]
    · rw [if_neg hx]
      by_cases hm : x ∈ b.retransmits
      · rw [if_pos ((hmem x).mpr ⟨hm, hx⟩), if_pos hm]
      · rw [if_neg (fun h => hm ((hmem x).mp h).1), if_neg hm]

theorem countP_flight {r : Range} {l : List Range} (h : r ∈ l) (x : ℕ) :
    (l.erase r).countP (x ∈ ·) + (if x ∈ r then 1 else 0) = l.countP (x ∈ ·) := by
  rw [(List.perm_cons_erase h).countP_eq, List.countP_cons]
  simp only [decide_eq_true_eq]

/-- **One operation.** -/
theorem sendStep_placed (s : SendRun) (op : SendOp) (s' : SendRun) (hI : s.Placed) (hl : op.Legal s)
    (h : sendStep s op = .ok s') : s'.Placed := by
  cases op with
  | write data =>
      cases h
      exact ⟨hI.wf.write data, hI.resolved⟩
  | pollTransmit maxLen =>
      obtain ⟨⟨⟨r, enc⟩, buf⟩, hp, h⟩ := Checked.bind_eq_ok.mp h
      cases h
      obtain ⟨-, hc, hstart, rfl⟩ := SendBuffer.pollTransmit_ok hp
      obtain ⟨h1, h2⟩ := clampNew_ok hc
      refine ⟨(hI.wf.sent h1 h2).1, fun x => ?_⟩
      have hx := hI.resolved x
      have hm := SendBuffer.sent_mem s.buf h1 h2 x
      have hr : (if x ∈ r then 1 else 0) =
          if s.buf.nextRange.start ≤ x ∧ x < r.end then 1 else 0 := by
        rw [← hstart]
        exact if_congr Range.mem_iff rfl rfl
      unfold SendRun.resolved at hx ⊢
      dsimp only
      rw [List.countP_cons]
      simp only [decide_eq_true_eq]
      omega
  | ack r =>
      obtain ⟨buf, ha, h⟩ := Checked.bind_eq_ok.mp h
      cases h
      obtain ⟨hwf, -, -, hu, hr, -⟩ := hI.wf.ack ha
      refine ⟨hwf, fun x => ?_⟩
      have hx := hI.resolved x
      have hm := countP_flight (show r ∈ s.flight from hl) x
      unfold SendRun.resolved at hx ⊢
      dsimp only
      rw [hr, hu, List.countP_cons]
      simp only [decide_eq_true_eq]
      omega
  | retransmit r =>
      obtain ⟨buf, ha, h⟩ := Checked.bind_eq_ok.mp h
      cases h
      obtain ⟨-, hwf, rfl⟩ := hI.wf.retransmit ha
      refine ⟨hwf, fun x => ?_⟩
      have hx := hI.resolved x
      have hm := countP_flight (show r ∈ s.flight from hl) x
      unfold SendRun.resolved at hx ⊢
      dsimp only
      rw [← hx]
      by_cases hr : x ∈ r
      · -- it was in flight, so it was nowhere else
        rw [if_pos hr] at hm
        have hnot : x ∉ s.buf.retransmits := by
          intro hin
          rw [if_pos hin] at hx
          split_ifs at hx <;> omega
        rw [if_pos (RangeSet.mem_insert.mpr (.inr hr)), if_neg hnot]
        omega
      · rw [if_neg hr] at hm
        have hiff : x ∈ (s.buf.retransmits.insert r).2 ↔ x ∈ s.buf.retransmits :=
          ⟨fun h => (RangeSet.mem_insert.mp h).resolve_right hr, fun h => RangeSet.mem_insert.mpr (.inl h)⟩
        simp only [hiff]
        omega

/-- **Each byte that was written is in exactly one place**, in every state of every run. -/
theorem byte_in_one_place (ops : List SendOp) (s : SendRun)
    (hl : Meets sendStep (fun s op => op.Legal s) SendRun.init ops)
    (h : run sendStep SendRun.init ops = .ok s) :
    s.buf.unsent ≤ s.buf.offset ∧ ∀ x < s.buf.offset, s.places x = 1 := by
  have hinit : SendRun.init.Placed := by
    refine ⟨SendBuffer.WF.default, fun x => ?_⟩
    unfold SendRun.resolved
    rw [if_neg (show x ∉ SendRun.init.buf.retransmits from RangeSet.notMem_new x)]
    rfl
  have hs : s.Placed := run_inv sendStep_placed hinit hl h
  refine ⟨hs.wf.unsent_le, fun x _ => ?_⟩
  unfold SendRun.places
  rw [hs.resolved x]
  split_ifs <;> omega

/-- Two packets, of which one is acknowledged and one is lost. -/
theorem byte_in_one_place_lost : ∃ ops s, run sendStep SendRun.init ops = .ok s ∧ 0 < s.buf.offset ∧
    s.buf.unsent ≤ s.buf.offset ∧ ∀ x < s.buf.offset, s.places x = 1 := by
  let ops : List SendOp := [.write [1, 2, 3], .pollTransmit 25, .write [4, 5], .pollTransmit 25,
    .ack ⟨3, 5⟩, .retransmit ⟨0, 3⟩]
  exact ⟨ops, _, rfl, by decide, byte_in_one_place ops _ (by decide) rfl⟩

end MzQuic
