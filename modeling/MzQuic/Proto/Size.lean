import MzQuic.Proto.Ack
import MzQuic.Proto.Packet

/-!
# How much room headers and frames take (`proto/src/frame.rs`, `proto/src/packet.rs`)

An integer that is too large to be encoded is a panic of its own, which comes before anything is
written.

* `takes_putVarint`: a varint takes its size;
* `takes_resetStream`, `takes_stopSending`: the control frames keep to their `SIZE_BOUND`;
* `takes_ack`: an ACK frame of `n` ranges takes at most `24 + 16 * n` bytes.
-/

namespace MzQuic

open Lib

theorem takes_putVarint (v : ℕ) : TakesAtMost (varintSize v) (putVarint v) := by
  by_cases h : v < 2 ^ 62
  · have := TakesAtMost.of_appends (appends_putVarint h)
    rwa [length_varintBytes] at this
  · intro out _
    rw [putVarint_eq_error (by omega)]
    exact .error (by decide)

theorem takes_varint (v : ℕ) : TakesAtMost 8 (putVarint v) := (takes_putVarint v).mono (varintSize_le v)

theorem takes_type {v : ℕ} (h : v < 2 ^ 6) : TakesAtMost 1 (putVarint v) := by
  have hs : varintSize v = 1 := by
    unfold varintSize
    rw [if_pos h]
  rw [← hs]
  exact takes_putVarint v

theorem takes_uint (n v : ℕ) : TakesAtMost n fun out => out.putUint n v := by
  have := TakesAtMost.of_appends (appends_putUint n v)
  rwa [length_beBytes] at this

theorem sub_ne_capacity (a b : ℕ) : Checked.sub a b ≠ .error .capacity :=
  (Checked.avoids_sub (by decide) a b).1

/-! ## Frames -/

theorem takes_resetStream (r : ResetStream) : TakesAtMost ResetStream.sizeBound r.encode :=
  (takes_type (by decide)).seq ((takes_varint _).seq ((takes_varint _).seq (takes_varint _)))

theorem takes_stopSending (s : StopSending) : TakesAtMost StopSending.sizeBound s.encode :=
  (takes_type (by decide)).seq ((takes_varint _).seq (takes_varint _))

theorem takes_encodeBlocks (prev : ℕ) (blocks : List Range) :
    TakesAtMost (16 * blocks.length) (encodeBlocks prev blocks) := by
  induction blocks generalizing prev with
  | nil => exact TakesAtMost.ok
  | cons block rest ih =>
      have hr : 16 * (block :: rest).length = 8 + (8 + 16 * rest.length) := by
        rw [List.length_cons]
        omega
      rw [hr]
      refine .lift (sub_ne_capacity _ _) fun size _ => .lift (sub_ne_capacity _ _) fun gap _ =>
        .lift (sub_ne_capacity _ _) fun gap _ => (takes_varint gap).seq ?_
      exact .lift (sub_ne_capacity _ _) fun size _ => (takes_varint size).seq (ih block.start)

theorem takes_ack (delay : ℕ) (ranges : ArrayRangeSet) :
    TakesAtMost (24 + 16 * ranges.len) (Ack.encode delay ranges none) := by
  unfold Ack.encode ArrayRangeSet.len
  cases h : ranges.ranges.reverse with
  | nil => exact fun out _ => .error (by decide)
  | cons first rest =>
      have hlen : ranges.ranges.length = rest.length + 1 := by
        rw [← List.length_reverse, h, List.length_cons]
      have hr : 24 + 16 * ranges.ranges.length = 8 + (8 + (8 + (8 + (8 + (16 * rest.length + 0))))) := by
        rw [hlen]
        omega
      rw [hr]
      refine .lift (sub_ne_capacity _ _) fun largest _ => .lift (sub_ne_capacity _ _) fun size _ => ?_
      refine (takes_varint _).seq ((takes_varint largest).seq ((takes_varint delay).seq ?_))
      refine .lift (sub_ne_capacity _ _) fun n _ => (takes_varint n).seq ?_
      refine .lift (sub_ne_capacity _ _) fun n _ => (takes_varint n).seq ?_
      exact (takes_encodeBlocks first.start rest).seq TakesAtMost.ok

/-! ## Headers -/

theorem takes_cid (cid : ConnectionId) : TakesAtMost 21 cid.encode := by
  refine (TakesAtMost.of_appends cid.appends_encode).mono ?_
  have := cid.len_le
  simp only [List.length_append, length_beBytes, maxCidSize] at this ⊢
  omega

theorem takes_number (n : PacketNumber) : TakesAtMost 4 n.encode := by
  refine (takes_uint n.len n.truncated).mono ?_
  cases n <;> simp [PacketNumber.len]

/-- The headers of packets with a number, if the token is empty. -/
theorem takes_header (h : Header) (hn : h.number.isSome)
    (ht : ∀ i, h = .initial i → i.token = []) : TakesAtMost 53 h.encode := by
  have slice : ∀ b : UInt8, TakesAtMost 1 fun out => out.putSlice [b] := fun b =>
    TakesAtMost.of_appends (appends_putSlice [b])
  have len : ∀ n : PacketNumber, TakesAtMost 1 (putVarint n.len) := fun n =>
    takes_type (by cases n <;> simp [PacketNumber.len])
  cases h with
  | initial i =>
      have htok : TakesAtMost 1 (putBytesWithVarintLength i.token) := by
        rw [ht i rfl]
        exact (takes_type (by decide)).seq (.of_appends (appends_putSlice []))
      exact (slice _).seq ((takes_uint 4 _).seq ((takes_cid _).seq ((takes_cid _).seq
        (htok.seq ((len _).seq (takes_number _))))))
  | long ty dstCid srcCid number version =>
      refine TakesAtMost.mono (m := 52) ((slice _).seq ((takes_uint 4 _).seq ((takes_cid _).seq
        ((takes_cid _).seq ((len _).seq (takes_number _)))))) (by decide)
  | short spin keyPhase dstCid number =>
      have hcid : TakesAtMost 20 fun out => out.putSlice dstCid.bytes :=
        (TakesAtMost.of_appends (appends_putSlice _)).mono dstCid.len_le
      exact TakesAtMost.mono (m := 25) ((slice _).seq (hcid.seq (takes_number _))) (by decide)
  | retry dstCid srcCid version => cases hn
  | versionNegotiate random srcCid dstCid => cases hn

end MzQuic
