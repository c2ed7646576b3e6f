import MzQuic.Stream.SendBuffer

/-!
# What `poll_transmit` does with its budget (`core/src/connection/stream/send.rs`)

* `bufferStep`: one operation on a buffer alone, with any argument; `bufferStep_wf`: whatever the buffer has
  been through, it holds the end of what was written, and lost data was sent;
* `clamped_budget`: the offset, the length and the data fit, and a frame without a length fills its budget;
* `Polled`: what one call of `poll_transmit` returns and leaves;
* `pollTransmit_polled`: every buffer that is reached is polled so, if there is room for a header and the sum of
  a lost offset and the room fits;
* **`pollTransmit_progress`**: exactly then.
-/

namespace MzQuic

open Lib

/-- One operation on a buffer, with any argument. -/
def bufferStep (b : SendBuffer) : SendOp → Checked SendBuffer
  | .write data => .ok (b.write data)
  | .pollTransmit maxLen => do
    let (_, b) ← b.pollTransmit maxLen
    return b
  | .ack r => b.ack r
  | .retransmit r => b.retransmit r

variable {b b' : SendBuffer} {W : Bytes}

/-- **Every operation keeps the buffer well formed**, whatever its argument. -/
theorem bufferStep_wf (b : SendBuffer) (op : SendOp) (b' : SendBuffer) (h : ∃ W, b.WF W)
    (_ : True) (he : bufferStep b op = .ok b') : ∃ W, b'.WF W := by
  obtain ⟨W, h⟩ := h
  cases op with
  | write data =>
      cases he
      exact ⟨_, h.write data⟩
  | pollTransmit maxLen =>
      obtain ⟨⟨⟨r, enc⟩, c⟩, hp, he⟩ := Checked.bind_eq_ok.mp he
      cases he
      obtain ⟨-, hc, -, rfl⟩ := SendBuffer.pollTransmit_ok hp
      obtain ⟨h1, h2⟩ := clampNew_ok hc
      exact ⟨W, (h.sent h1 h2).1⟩
  | ack r => exact ⟨W, (h.ack he).1⟩
  | retransmit r => exact ⟨W, (h.retransmit he).2.1⟩

theorem reached_wf {ops : List SendOp} (h : run bufferStep SendBuffer.default ops = .ok b) :
    ∃ W, b.WF W :=
  run_inv bufferStep_wf ⟨[], SendBuffer.WF.default⟩ (Meets.trivial _ _ _) h

/-! ## The budget -/

/-- The offset, the length and the data fit, and a frame without a length fills its budget. -/
theorem clamped_budget {start stop maxLen e : ℕ} {enc : Bool} (hs : start ≤ stop) (hm : 16 < maxLen)
    (h : clamped start stop maxLen = (e, enc)) :
    (start < e ↔ start < stop) ∧ offsetSize start + (if enc then 8 else 0) + (e - start) ≤ maxLen ∧
      (enc = false → offsetSize start + (e - start) = maxLen) := by
  have hle := offsetSize_le start
  unfold clamped at h
  split_ifs at h with hlt <;> cases h
  · refine ⟨by omega, ?_, fun h => by cases h⟩
    rw [if_pos rfl]
    omega
  · refine ⟨by omega, ?_, fun _ => by omega⟩
    rw [if_neg Bool.false_ne_true]
    omega

/-- What one call of `poll_transmit` returns and leaves: it takes something exactly if there is something to
send, within the budget and all of it if the length is left out; lost data goes first, from its smallest
offset on, and what is left of it lies behind; new data goes in order. -/
structure Polled (b : SendBuffer) (maxLen : ℕ) (r : Range) (encodeLength : Bool) (b' : SendBuffer) : Prop where
  ordered : r.start ≤ r.end
  takes : r.start < r.end ↔ b.hasUnsentData = true
  budget : offsetSize r.start + (if encodeLength then 8 else 0) + (r.end - r.start) ≤ maxLen
  fills : encodeLength = false → offsetSize r.start + (r.end - r.start) = maxLen
  lost : b.retransmits.isEmpty = false → IsLeast {x | x ∈ b.retransmits} r.start ∧
    (∀ x ∈ r, x ∈ b.retransmits) ∧ (∀ x, x ∈ b'.retransmits ↔ x ∈ b.retransmits ∧ r.end ≤ x) ∧
    b'.unsent = b.unsent
  new : b.retransmits.isEmpty = true → r.start = b.unsent ∧ r.end ≤ b.offset ∧ b'.unsent = r.end ∧
    b'.retransmits = b.retransmits

/-- There is something to send exactly if the next range is nonempty. -/
theorem SendBuffer.nextRange_nonempty (h : b.WF W) :
    b.nextRange.start < b.nextRange.end ↔ b.hasUnsentData = true := by
  cases hl : b.retransmits.isEmpty with
  | true =>
      have hu := h.unsent_le
      rw [(sent_new hl 0).1, hasUnsentData, hl]
      simp only [Bool.not_true, Bool.or_false, decide_eq_true_eq]
      omega
  | false =>
      have hlt := (sent_lost hl le_rfl (nextRange_bounds h).1).1
      simp [hasUnsentData, hl, hlt]

/-- A call whose sum fits. -/
theorem SendBuffer.pollTransmit_polled (hwf : b.WF W) (ho : b.offset < 2 ^ 62) {maxLen : ℕ} (hm : 25 ≤ maxLen)
    (hfits : b.SumFits maxLen) : ∃ r encodeLength b', b.pollTransmit maxLen = .ok ((r, encodeLength), b') ∧
      Polled b maxLen r encodeLength b' := by
  obtain ⟨r, enc, hp, hstart, h1, h2⟩ :=
    SendBuffer.pollTransmit_spec hwf (by rw [← hwf.offset]; exact ho) (show 16 ≤ maxLen by omega) hfits
  obtain ⟨-, hc, -, -⟩ := SendBuffer.pollTransmit_ok hp
  obtain ⟨hle, hcl⟩ := clampNew_clamped (by omega) hc
  rw [← hstart] at hcl hle
  obtain ⟨htakes, hbudget, hfills⟩ := clamped_budget hle (by omega) hcl.symm
  have hb1 : b.nextRange.start ≤ r.end := hstart ▸ h1
  refine ⟨r, enc, b.sent r.end, hp, h1, ?_, hbudget, hfills, fun hl => ?_, fun hl => ?_⟩
  · rw [htakes, hstart, SendBuffer.nextRange_nonempty hwf]
  · obtain ⟨hlt, hsub, hleast, hu, hmem⟩ := SendBuffer.sent_lost hl hb1 h2
    refine ⟨⟨?_, fun x hx => hstart ▸ hleast x hx⟩, fun x hx => ?_, fun x => ?_, hu⟩
    · exact hsub _ (Range.mem_iff.mpr ⟨hstart.ge, hstart ▸ hlt⟩)
    · obtain ⟨hx1, hx2⟩ := Range.mem_iff.mp hx
      exact hsub x (Range.mem_iff.mpr ⟨hstart ▸ hx1, lt_of_lt_of_le hx2 h2⟩)
    · rw [hmem]
      refine and_congr_right fun hx => ?_
      have := hleast x hx
      omega
  · obtain ⟨hr, he⟩ := SendBuffer.sent_new hl r.end
    rw [he]
    rw [hr] at hstart h2
    exact ⟨hstart, h2, rfl, rfl⟩

/-- **`poll_transmit` makes progress within its budget, exactly if the sum of a lost offset and the room for its
data fits in 64 bits.** This is in every state that a buffer reaches by writes, polls, acknowledgements and
retransmissions of any kind, as long as it holds fewer than 2^62 bytes and there is room for at least 25. Then the
call returns, that is, no subtraction underflows; the range is nonempty exactly if there was something to send; the
offset, eight bytes for the length if it is encoded, and the data fit, and a frame without a length fills its budget;
and lost data goes before new data, in ascending order. -/
theorem pollTransmit_progress (ops : List SendOp) (b : SendBuffer)
    (h : run bufferStep SendBuffer.default ops = .ok b) (ho : b.offset < 2 ^ 62) (maxLen : ℕ)
    (hm : 25 ≤ maxLen) :
    (∃ r encodeLength b', b.pollTransmit maxLen = .ok ((r, encodeLength), b') ∧
      Polled b maxLen r encodeLength b') ↔ b.SumFits maxLen := by
  obtain ⟨W, hwf⟩ := reached_wf h
  refine ⟨?_, SendBuffer.pollTransmit_polled hwf ho hm⟩
  rintro ⟨r, enc, b', hp, -⟩
  by_contra hfits
  rw [SendBuffer.pollTransmit_overflows hwf (by rw [← hwf.offset]; exact ho) (show 16 ≤ maxLen by omega) hfits] at hp
  cases hp

/-- Sixty bytes, of which the first packet is lost. -/
theorem pollTransmit_progress_lost : ∃ b, run bufferStep SendBuffer.default [.write (List.replicate 60 7),
      .pollTransmit 25, .pollTransmit 25, .retransmit ⟨0, 25⟩] = .ok b ∧
    ∃ r encodeLength b', b.pollTransmit 30 = .ok ((r, encodeLength), b') ∧
      Polled b 30 r encodeLength b' :=
  ⟨_, rfl, (pollTransmit_progress [.write (List.replicate 60 7), .pollTransmit 25, .pollTransmit 25,
    .retransmit ⟨0, 25⟩] _ rfl (by decide) 30 (by decide)).mpr (by decide)⟩

/-- Lost data at offset 25 and room without a bound: `range.start + max_len` leaves the range of a `u64`, where
the sum of the other half saturates. -/
theorem pollTransmit_sum_overflows : ∃ b, run bufferStep SendBuffer.default [.write (List.replicate 60 7),
      .pollTransmit 25, .pollTransmit 25, .retransmit ⟨25, 49⟩] = .ok b ∧ b.offset < 2 ^ 62 ∧
    b.pollTransmit (2 ^ 64 - 1) = .error .overflow := by
  obtain ⟨b, hb, ho, hfits⟩ : ∃ b, run bufferStep SendBuffer.default [.write (List.replicate 60 7), .pollTransmit 25,
      .pollTransmit 25, .retransmit ⟨25, 49⟩] = .ok b ∧ b.offset = 60 ∧ ¬ b.SumFits (2 ^ 64 - 1) :=
    ⟨_, rfl, rfl, by decide⟩
  obtain ⟨W, hwf⟩ := reached_wf hb
  refine ⟨b, hb, by omega, SendBuffer.pollTransmit_overflows hwf ?_ (by decide) hfits⟩
  rw [← hwf.offset]
  omega

end MzQuic
