import MzQuic.Connection.Acks
import MzQuic.Connection.Compose
import MzQuic.Proto.RangeSets

/-!
# ACK frames are honest and bounded (`core/src/connection/space.rs`)

* `AckCall`: the calls on the packets to acknowledge; `PendingAcks.after`: a run of them;
* `after_received`, `after_len`: the ranges hold received numbers only, and are at most `MAX_ACK_BLOCKS`;
* `packetReceived_set`: a packet is added to the set, and the lowest run goes if there are too many;
  `packetReceived_greatest`: the largest number stays;
* `populateAcks_ranges`: the frame that is written has these ranges;
* **`pending_acks_honest`**: all of it, after every run.
-/

namespace MzQuic

open Lib Connection

/-- A call on the packets to acknowledge. -/
inductive AckCall
  | packetReceived (now : Instant) (packetNumber : ℕ) (ackEliciting : Bool) (dedup : Dedup)
  | subtractBelow (max : ℕ)
  | acksSent
  | onAckDelayTimeout
  | setImmediateAckRequired
  | maybeAckNonEliciting

namespace AckCall

/-- The packets to acknowledge after the call. -/
def apply (a : PendingAcks) : AckCall → PendingAcks
  | .packetReceived now packetNumber ackEliciting dedup =>
      (a.packetReceived now packetNumber ackEliciting dedup).2
  | .subtractBelow max => a.subtractBelow max
  | .acksSent => a.acksSent
  | .onAckDelayTimeout => a.onAckDelayTimeout
  | .setImmediateAckRequired => a.setImmediateAckRequired
  | .maybeAckNonEliciting => a.maybeAckNonEliciting

/-- The number that is received. -/
def number : AckCall → Option ℕ
  | .packetReceived _ packetNumber _ _ => some packetNumber
  | _ => none

end AckCall

namespace PendingAcks

variable {a : PendingAcks}

/-- The packets to acknowledge after the calls. -/
def after (a : PendingAcks) (calls : List AckCall) : PendingAcks := calls.foldl AckCall.apply a

theorem maybeAckNonEliciting_ranges : a.maybeAckNonEliciting.ranges = a.ranges := by
  unfold maybeAckNonEliciting
  split_ifs <;> rfl

/-- **What one call does to the ranges**: a received number comes in, numbers below go out. -/
theorem apply_ranges (a : PendingAcks) (c : AckCall) :
    (∃ pn now, c.number = some pn ∧ (c.apply a).ranges = (a.insertOne pn now).ranges) ∨
    (c.number = none ∧ ((c.apply a).ranges = a.ranges ∨
      ∃ max, (c.apply a).ranges = (a.ranges.remove ⟨0, max + 1⟩).2)) := by
  cases c with
  | packetReceived now pn ackEliciting dedup => exact .inl ⟨pn, now, rfl, packetReceived_ranges a now pn _ _⟩
  | subtractBelow max => exact .inr ⟨rfl, .inr ⟨max, rfl⟩⟩
  | acksSent => exact .inr ⟨rfl, .inl rfl⟩
  | onAckDelayTimeout => exact .inr ⟨rfl, .inl rfl⟩
  | setImmediateAckRequired => exact .inr ⟨rfl, .inl rfl⟩
  | maybeAckNonEliciting => exact .inr ⟨rfl, .inl maybeAckNonEliciting_ranges⟩

/-- **Only received numbers are acknowledged.** -/
theorem after_received {calls : List AckCall} (received : List ℕ) (h : ∀ n ∈ a.ranges, n ∈ received) :
    ∀ n ∈ (a.after calls).ranges, n ∈ received ++ calls.filterMap AckCall.number := by
  induction calls generalizing a received with
  | nil => simpa [after] using h
  | cons c cs ih =>
      intro n hn
      rcases apply_ranges a c with ⟨pn, now, hc, hr⟩ | ⟨hc, hr⟩
      · have hin : ∀ n ∈ (c.apply a).ranges, n ∈ received ++ [pn] := by
          intro n hn
          rw [hr] at hn
          rcases PendingAcks.mem_insertOne hn with rfl | hn
          · simp
          · exact List.mem_append_left _ (h n hn)
        have hmem := ih _ hin n hn
        rwa [List.append_assoc, List.singleton_append, ← List.filterMap_cons_some hc] at hmem
      · have hin : ∀ n ∈ (c.apply a).ranges, n ∈ received := by
          intro n hn
          rcases hr with hr | ⟨max, hr⟩ <;> rw [hr] at hn
          · exact h n hn
          · exact h n (ArrayRangeSet.mem_remove.mp hn).1
        have hmem := ih _ hin n hn
        rwa [← List.filterMap_cons_none hc] at hmem

/-- **There are at most `MAX_ACK_BLOCKS` ranges** between the calls. -/
theorem after_len {calls : List AckCall} (h : a.ranges.len ≤ maxAckBlocks) :
    (a.after calls).ranges.len ≤ maxAckBlocks := by
  induction calls generalizing a with
  | nil => exact h
  | cons c cs ih =>
      refine ih ?_
      rcases apply_ranges a c with ⟨pn, now, -, hr⟩ | ⟨-, hr | ⟨max, hr⟩⟩ <;> rw [hr]
      · exact a.insertOne_len h pn now
      · exact h
      · exact (a.ranges.length_remove_le (max + 1)).trans h

/-! ## Receiving a packet -/

section Receive

variable {now : Instant} {p : ℕ} {ackEliciting : Bool} {dedup : Dedup}

theorem mem_insert_received (a : PendingAcks) (p x : ℕ) :
    x ∈ (a.ranges.insertOne p).2 ↔ x ∈ insert p {n | n ∈ a.ranges} := ArrayRangeSet.mem_insertOne

/-- **A packet is added to the set, and the lowest run goes if there are more than `MAX_ACK_BLOCKS`.** -/
theorem packetReceived_set : {n | n ∈ (a.packetReceived now p ackEliciting dedup).2.ranges} =
    if maxAckBlocks < (runStarts (insert p {n | n ∈ a.ranges})).ncard then
      insert p {n | n ∈ a.ranges} \ lowestRun (insert p {n | n ∈ a.ranges})
    else insert p {n | n ∈ a.ranges} := by
  have hS := mem_insert_received a p
  rw [packetReceived_ranges, ← ArrayRangeSet.len_eq hS]
  unfold insertOne
  dsimp only
  split_ifs with hmax
  · exact Set.ext (ArrayRangeSet.mem_popMin hS)
  · exact Set.ext hS

/-- **The largest number stays.** -/
theorem packetReceived_greatest {m : ℕ} (hm : IsGreatest (insert p {n | n ∈ a.ranges}) m) :
    m ∈ (a.packetReceived now p ackEliciting dedup).2.ranges := by
  have hS := mem_insert_received a p
  rw [packetReceived_ranges]
  unfold insertOne
  dsimp only
  split_ifs with hmax
  · have hlen : 1 < (a.ranges.insertOne p).2.len := lt_trans (by decide) hmax
    exact (ArrayRangeSet.mem_popMin hS m).mpr ⟨hm.1, ArrayRangeSet.greatest_notMem hS hm hlen⟩
  · exact (hS m).mpr hm.1

end Receive

/-! ## Writing a frame -/

/-- **The frame that is written has the ranges of the space**, largest first. -/
theorem populateAcks_ranges {now : Instant} {space : PacketSpace} {buf buf' : BufMut} {largest : Option ℕ}
    (h : populateAcks now space buf = .ok (largest, buf')) :
    ∃ bs ack, buf' = buf.append bs ∧
      (∀ ty s, FrameParser.tryNext ⟨bs ++ s, ty⟩ = .ok (.ok (.ack ack), ⟨s, some .ack⟩)) ∧
      ack.iter = .ok (space.pendingAcks.ranges.ranges.reverse.map inclusive) := by
  obtain ⟨u, -, h⟩ := Checked.bind_eq_ok.mp h
  obtain ⟨buf₁, he, h⟩ := Checked.bind_eq_ok.mp h
  cases h
  obtain ⟨bs, ack, hbuf, -, -, hiter, hread⟩ := Ack.encode_ok he
  exact ⟨bs, ack, hbuf, hread, hiter⟩

/-- The numbers between the ends of a run are in the set. -/
theorem mem_of_inclusive {ranges : ArrayRangeSet} {r : ℕ × ℕ} (hr : r ∈ ranges.ranges.reverse.map inclusive)
    {n : ℕ} (h1 : r.1 ≤ n) (h2 : n ≤ r.2) : n ∈ ranges := by
  obtain ⟨q, hq, rfl⟩ := List.mem_map.mp hr
  have hq' := List.mem_reverse.mp hq
  have hlt := ranges.gapped.lt_of_mem hq'
  simp only [inclusive] at h1 h2
  exact ⟨q, hq', h1, by omega⟩

/-- **ACK frames are honest and bounded.** After every run of calls on the packets to acknowledge of a space: the
ranges hold only numbers that were received, and are at most `MAX_ACK_BLOCKS`; a frame that `populate_acks` writes
is read as an ACK frame of these ranges, which acknowledge only such numbers; and the next packet that is received
is added to the set, of which the lowest run goes if there are more than `MAX_ACK_BLOCKS` then, but never the
largest number. -/
theorem pending_acks_honest (calls : List AckCall) :
    let a := PendingAcks.new.after calls
    let received := calls.filterMap AckCall.number
    (∀ n ∈ a.ranges, n ∈ received) ∧ a.ranges.len ≤ maxAckBlocks ∧
    (∀ now (space : PacketSpace) buf largest buf',
      populateAcks now { space with pendingAcks := a } buf = .ok (largest, buf') →
      ∃ bs ack ranges, buf' = buf.append bs ∧
        (∀ ty s, FrameParser.tryNext ⟨bs ++ s, ty⟩ = .ok (.ok (.ack ack), ⟨s, some .ack⟩)) ∧
        ack.iter = .ok ranges ∧ ranges.length ≤ maxAckBlocks ∧
        ∀ r ∈ ranges, ∀ n, r.1 ≤ n → n ≤ r.2 → n ∈ received) ∧
    ∀ now p ackEliciting dedup,
      let S := insert p {n | n ∈ a.ranges}
      let a' := (a.packetReceived now p ackEliciting dedup).2
      {n | n ∈ a'.ranges} = (if maxAckBlocks < (runStarts S).ncard then S \ lowestRun S else S) ∧
        ∀ m, IsGreatest S m → m ∈ a'.ranges := by
  have hrec : ∀ n ∈ (PendingAcks.new.after calls).ranges, n ∈ calls.filterMap AckCall.number := by
    intro n hn
    have h := after_received [] (fun n hn => absurd hn (ArrayRangeSet.notMem_new n)) n hn
    rwa [List.nil_append] at h
  have hlen : (PendingAcks.new.after calls).ranges.len ≤ maxAckBlocks := after_len (Nat.zero_le _)
  refine ⟨hrec, hlen, fun now space buf largest buf' h => ?_, fun now p ackEliciting dedup => ?_⟩
  · obtain ⟨bs, ack, hbuf, hread, hiter⟩ := populateAcks_ranges h
    refine ⟨bs, ack, _, hbuf, hread, hiter, ?_, fun r hr n h1 h2 => hrec n (mem_of_inclusive hr h1 h2)⟩
    rw [List.length_map, List.length_reverse]
    exact hlen
  · exact ⟨packetReceived_set, fun m hm => packetReceived_greatest hm⟩

end PendingAcks

end MzQuic
