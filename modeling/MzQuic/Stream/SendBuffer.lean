import MzQuic.Lib.Run
import MzQuic.Proto.RangeSet
import MzQuic.Proto.Varint

/-!
# The send buffer (`core/src/connection/stream/send.rs`)

`SendBuffer` keeps the segments the application wrote and the peer has not acknowledged.

* the model: `write`, `ack` with its loop `drainLoop`, `pollTransmit`, `get`, `retransmit`;
* `SendBuffer.WF W`: the buffer holds the end of the string `W` that was written, which every
  operation keeps;
* `get_spec`, `pollTransmit_spec`: what `get` returns and which range is sent next; `SumFits`: the plain sum
  of the half that sends lost data stays in range;
* `SendBuffer.AckInv acked`: nothing is freed before it is acknowledged, which `ack` keeps if the
  segments it frees are acknowledged as a whole (`AckSafe`);
* **`sendBuffer_keeps_unacked`**: along every run whose acknowledgements are `AckSafe` and whose sums fit,
  unacknowledged bytes stay in the buffer and `get` returns them.
-/

namespace MzQuic

open Lib

/-! ## Model -/

/-- `SendBuffer`. -/
structure SendBuffer where
  unackedSegments : List Bytes := []
  unackedLen : ℕ := 0
  offset : ℕ := 0
  unsent : ℕ := 0
  acks : RangeSet := RangeSet.new
  retransmits : RangeSet := RangeSet.new

/-- The loop of `ack`: how much is freed in the end, and the segments that are left. -/
def drainLoop (acks : RangeSet) (base : ℕ) : ℕ → List Bytes → Checked (ℕ × List Bytes)
  | freed, [] => .ok (freed, [])
  | freed, seg :: rest => do
    let segStart := base + freed
    let segEnd := segStart + seg.length
    if acks.contains segStart then
      let last ← Checked.sub segEnd 1
      if acks.contains last then drainLoop acks base (freed + seg.length) rest
      else return (freed, seg :: rest)
    else return (freed, seg :: rest)

/-- The walk of `get` over the segments, of which `pos` bytes have been passed. -/
def getLoop (start stop : ℕ) : ℕ → List Bytes → Checked Bytes
  | _, [] => .ok []
  | pos, seg :: rest =>
    if start < pos + seg.length then do
      let segStart ← Checked.sub start pos
      let want ← Checked.sub stop start
      let room ← Checked.sub seg.length segStart
      return (seg.drop segStart).take (min want room)
    else getLoop start stop (pos + seg.length) rest

/-- What is left of `max_len` once the offset is encoded; offset 0 needs no bytes. -/
def afterOffset (start maxLen : ℕ) : Checked ℕ :=
  if start ≠ 0 then varintLen start >>= Checked.sub maxLen else .ok maxLen

/-- What both halves of `poll_transmit` leave of `max_len` for the data: the offset takes its bytes
off it, and so does the length if the range does not fill the packet. -/
def dataRoom (start stop maxLen : ℕ) : Checked (ℕ × Bool) := do
  let maxLen ← afterOffset start maxLen
  let dataLen ← Checked.sub stop start
  if dataLen < maxLen then
    let maxLen ← Checked.sub maxLen 8
    return (maxLen, true)
  else return (maxLen, false)

/-- The end of a range that is sent again. The sum of its start and the room is a plain one. -/
def clampLost (start stop maxLen : ℕ) : Checked (ℕ × Bool) := do
  let (room, encodeLength) ← dataRoom start stop maxLen
  let bound ← Checked.add 64 start room
  return (min stop bound, encodeLength)

/-- The end of a range that is sent for the first time. The sum saturates; `stop` is the offset of
the buffer, a `u64`, so that the exact sum gives the same minimum. -/
def clampNew (start stop maxLen : ℕ) : Checked (ℕ × Bool) := do
  let (room, encodeLength) ← dataRoom start stop maxLen
  return (min stop (room + start), encodeLength)

namespace SendBuffer

/-- `SendBuffer::default`. -/
def default : SendBuffer := {}

/-- The offset of the first byte that is still buffered. -/
def base (b : SendBuffer) : ℕ := b.offset - b.unackedLen

/-- `SendBuffer::write`. -/
def write (b : SendBuffer) (data : Bytes) : SendBuffer :=
  { b with
    unackedLen := b.unackedLen + data.length
    offset := b.offset + data.length
    unackedSegments := b.unackedSegments ++ [data] }

/-- `SendBuffer::ack`. -/
def ack (b : SendBuffer) (range : Range) : Checked SendBuffer := do
  let acks := (b.acks.insert range).2
  let base ← Checked.sub b.offset b.unackedLen
  let (freed, segs) ← drainLoop acks base 0 b.unackedSegments
  let unackedLen ← Checked.sub b.unackedLen freed
  return { b with
    unackedSegments := segs
    unackedLen := unackedLen
    acks := if freed > 0 then (acks.remove ⟨base, base + freed⟩).2 else acks }

/-- `SendBuffer::poll_transmit`. -/
def pollTransmit (b : SendBuffer) (maxLen : ℕ) : Checked ((Range × Bool) × SendBuffer) := do
  Checked.assert (maxLen ≥ 8 + 8)
  match b.retransmits.popMin with
  | some (range, retransmits) =>
    let (stop, encodeLength) ← clampLost range.start range.end maxLen
    return ((⟨range.start, stop⟩, encodeLength), { b with
      retransmits := if stop < range.end then (retransmits.insert ⟨stop, range.end⟩).2
        else retransmits })
  | none =>
    let (stop, encodeLength) ← clampNew b.unsent b.offset maxLen
    return ((⟨b.unsent, stop⟩, encodeLength), { b with unsent := stop })

/-- `SendBuffer::get`. -/
def get (b : SendBuffer) (offsets : Range) : Checked Bytes := do
  let base ← Checked.sub b.offset b.unackedLen
  let start ← Checked.sub offsets.start base
  let stop ← Checked.sub offsets.end base
  getLoop start stop 0 b.unackedSegments

/-- `SendBuffer::retransmit`. -/
def retransmit (b : SendBuffer) (range : Range) : Checked SendBuffer := do
  Checked.assert (range.end ≤ b.unsent)
  return { b with retransmits := (b.retransmits.insert range).2 }

/-- `SendBuffer::is_fully_acked`. -/
def isFullyAcked (b : SendBuffer) : Bool := b.unackedLen = 0

/-- `SendBuffer::has_unsent_data`. -/
def hasUnsentData (b : SendBuffer) : Bool := b.unsent ≠ b.offset || !b.retransmits.isEmpty

end SendBuffer

/-! ## The buffer holds the end of what was written -/

/-- The buffer holds the end of the string `W` that was written to it. -/
structure SendBuffer.WF (W : Bytes) (b : SendBuffer) : Prop where
  offset : b.offset = W.length
  len_le : b.unackedLen ≤ b.offset
  segs : b.unackedSegments.flatten = W.drop b.base
  unsent_le : b.unsent ≤ b.offset
  retransmits : ∀ x ∈ b.retransmits, x < b.unsent

/-- The bytes from `x` to the end of the segment with `x` in it, where `pos` starts the first. -/
def segRest (x : ℕ) : ℕ → List Bytes → ℕ
  | _, [] => 0
  | pos, seg :: rest =>
    if x < pos + seg.length then pos + seg.length - x else segRest x (pos + seg.length) rest

theorem segRest_pos {x pos : ℕ} {segs : List Bytes} (h1 : pos ≤ x)
    (h2 : x < pos + segs.flatten.length) : 0 < segRest x pos segs := by
  induction segs generalizing pos with
  | nil => simp only [List.flatten_nil, List.length_nil] at h2; omega
  | cons seg rest ih =>
      rw [List.flatten_cons, List.length_append] at h2
      unfold segRest
      split_ifs with h
      · omega
      · exact ih (by omega) (by omega)

/-- The walk returns the bytes at `start`, up to `stop` or the end of the segment. -/
theorem getLoop_eq {start stop pos : ℕ} {segs : List Bytes} (hp : pos ≤ start) (hs : start ≤ stop) :
    getLoop start stop pos segs =
      .ok ((segs.flatten.drop (start - pos)).take (min (stop - start) (segRest start pos segs))) := by
  induction segs generalizing pos with
  | nil => simp [getLoop]
  | cons seg rest ih =>
      unfold getLoop segRest
      split_ifs with h
      · rw [Checked.sub_of_le hp, Checked.ok_bind, Checked.sub_of_le hs, Checked.ok_bind,
          Checked.sub_of_le (by omega), Checked.ok_bind, Checked.pure_eq, List.flatten_cons,
          List.drop_append_of_le_length (by omega), List.take_append_of_le_length]
        · congr 3
          omega
        · rw [List.length_drop]; omega
      · have hseg : seg.drop (start - pos) = [] := List.drop_eq_nil_of_le (by omega)
        rw [ih (by omega), List.flatten_cons, List.drop_append, hseg, List.nil_append, Nat.sub_sub]

section

variable {W : Bytes} {b : SendBuffer}

namespace SendBuffer

/-- The bytes from `x` to the end of its segment. -/
def rest (b : SendBuffer) (x : ℕ) : ℕ := segRest x b.base b.unackedSegments

theorem WF.default : WF [] SendBuffer.default where
  offset := rfl
  len_le := le_rfl
  segs := rfl
  unsent_le := le_rfl
  retransmits := fun x hx => absurd hx (RangeSet.notMem_new x)

theorem WF.length (h : b.WF W) : b.unackedSegments.flatten.length = b.unackedLen := by
  rw [h.segs, List.length_drop, ← h.offset, base]
  have := h.len_le
  omega

theorem segRest_shift {x n pos : ℕ} {segs : List Bytes} (h : n ≤ pos) (hx : n ≤ x) :
    segRest (x - n) (pos - n) segs = segRest x pos segs := by
  induction segs generalizing pos with
  | nil => rfl
  | cons seg rest ih =>
      unfold segRest
      rw [show pos - n + seg.length = pos + seg.length - n by omega, ih (by omega)]
      split_ifs <;> omega

/-- **What `get` returns**: the bytes written at the range, up to the end of the segment in which
it begins. -/
theorem get_spec (h : b.WF W) {r : Range} (hb : b.base ≤ r.start) (hr : r.start ≤ r.end) :
    b.get r = .ok ((W.drop r.start).take (min (r.end - r.start) (b.rest r.start))) := by
  unfold get
  rw [Checked.sub_of_le h.len_le, Checked.ok_bind, show b.offset - b.unackedLen = b.base from rfl,
    Checked.sub_of_le hb, Checked.ok_bind, Checked.sub_of_le (hb.trans hr), Checked.ok_bind,
    getLoop_eq (Nat.zero_le _) (by omega), h.segs, List.drop_drop, Nat.sub_zero, rest]
  rw [← segRest_shift (le_refl b.base) hb, Nat.sub_self]
  congr 3 <;> omega

/-- A range that `get` accepts begins in the buffer. -/
theorem base_le_of_get {r : Range} {bs : Bytes} (h : b.get r = .ok bs) : b.base ≤ r.start := by
  unfold get at h
  obtain ⟨base, h1, h⟩ := Checked.bind_eq_ok.mp h
  obtain ⟨start, h2, -⟩ := Checked.bind_eq_ok.mp h
  obtain ⟨-, rfl⟩ := Checked.sub_eq_ok.mp h1
  exact (Checked.sub_eq_ok.mp h2).1

theorem rest_pos (h : b.WF W) {x : ℕ} (hb : b.base ≤ x) (hx : x < b.offset) : 0 < b.rest x := by
  refine segRest_pos hb ?_
  rw [h.length, base]
  have := h.len_le
  omega

theorem WF.write (h : b.WF W) (data : Bytes) : (b.write data).WF (W ++ data) where
  offset := by simp [SendBuffer.write, h.offset]
  len_le := by have := h.len_le; simp only [SendBuffer.write]; omega
  segs := by
    have h1 : (b.write data).base = b.base := by simp only [SendBuffer.write, base]; omega
    have h2 : b.base ≤ W.length := by rw [← h.offset, base]; omega
    rw [h1, List.drop_append_of_le_length h2, ← h.segs]
    simp [SendBuffer.write]
  unsent_le := h.unsent_le.trans (by simp [SendBuffer.write])
  retransmits := h.retransmits

end SendBuffer

/-! ## The next range -/

/-- The bytes the offset of a STREAM frame takes; offset 0 is left out. -/
def offsetSize (start : ℕ) : ℕ := if start = 0 then 0 else varintSize start

theorem offsetSize_le (start : ℕ) : offsetSize start ≤ 8 := by
  unfold offsetSize
  split_ifs
  · omega
  · exact varintSize_le start

/-- Where the next range ends: a range shorter than the room left for it is sent with its length,
and shortened to make room for that; any other range fills the room. -/
def clamped (start stop maxLen : ℕ) : ℕ × Bool :=
  if stop - start < maxLen - offsetSize start then
    (start + min (stop - start) (maxLen - offsetSize start - 8), true)
  else (start + (maxLen - offsetSize start), false)

/-- The room for the data of a range, and whether its length is encoded. -/
def roomFor (start stop maxLen : ℕ) : ℕ × Bool :=
  if stop - start < maxLen - offsetSize start then (maxLen - offsetSize start - 8, true)
  else (maxLen - offsetSize start, false)

theorem dataRoom_eq {start stop maxLen : ℕ} (hs : start ≤ stop) (hm : 16 ≤ maxLen)
    (hv : start < 2 ^ 62) : dataRoom start stop maxLen = .ok (roomFor start stop maxLen) := by
  have hle := offsetSize_le start
  have h1 : afterOffset start maxLen = .ok (maxLen - offsetSize start) := by
    unfold offsetSize at hle ⊢
    unfold afterOffset
    by_cases h0 : start = 0
    · rw [if_neg (not_not.mpr h0), if_pos h0, Nat.sub_zero]
    · rw [if_neg h0] at hle
      rw [if_pos h0, if_neg h0, varintLen_eq hv, Checked.ok_bind, Checked.sub_of_le (by omega)]
  unfold dataRoom roomFor
  rw [h1, Checked.ok_bind, Checked.sub_of_le hs, Checked.ok_bind]
  split_ifs with h
  · rw [Checked.sub_of_le (by omega), Checked.ok_bind, Checked.pure_eq]
  · rw [Checked.pure_eq]

/-- The offset of a range that has room is a varint, and the range is one. -/
theorem dataRoom_ok {start stop maxLen : ℕ} {r : ℕ × Bool} (h : dataRoom start stop maxLen = .ok r) :
    start ≤ stop ∧ start < 2 ^ 62 := by
  obtain ⟨left, ha, h⟩ := Checked.bind_eq_ok.mp h
  obtain ⟨len, hlen, -⟩ := Checked.bind_eq_ok.mp h
  refine ⟨(Checked.sub_eq_ok.mp hlen).1, ?_⟩
  by_contra hv
  unfold afterOffset at ha
  rw [if_pos (by omega), varintLen_eq_error (by omega)] at ha
  cases ha

theorem clampNew_eq {start stop maxLen : ℕ} (hs : start ≤ stop) (hm : 16 ≤ maxLen)
    (hv : start < 2 ^ 62) : clampNew start stop maxLen = .ok (clamped start stop maxLen) := by
  have hle := offsetSize_le start
  unfold clampNew clamped
  rw [dataRoom_eq hs hm hv, Checked.ok_bind]
  unfold roomFor
  split_ifs with h
  · dsimp only
    rw [Checked.pure_eq]
    congr 2
    omega
  · dsimp only
    rw [Checked.pure_eq]
    congr 2
    omega

theorem clampNew_ok {start stop maxLen e : ℕ} {enc : Bool}
    (h : clampNew start stop maxLen = .ok (e, enc)) : start ≤ e ∧ e ≤ stop := by
  obtain ⟨⟨room, enc'⟩, hroom, h⟩ := Checked.bind_eq_ok.mp h
  cases h
  have := (dataRoom_ok hroom).1
  omega

/-- What `clampNew` returns, if it returns. -/
theorem clampNew_clamped {start stop maxLen : ℕ} {r : ℕ × Bool} (hm : 16 ≤ maxLen)
    (h : clampNew start stop maxLen = .ok r) : start ≤ stop ∧ r = clamped start stop maxLen := by
  obtain ⟨room, hroom, -⟩ := Checked.bind_eq_ok.mp h
  obtain ⟨hle, hv⟩ := dataRoom_ok hroom
  rw [clampNew_eq hle hm hv] at h
  exact ⟨hle, (Except.ok.inj h).symm⟩

/-- **The halves differ in the sum**: the end of a lost range is that of a new one, if the plain sum is
in range. -/
theorem clampLost_eq (start stop maxLen : ℕ) : clampLost start stop maxLen =
    dataRoom start stop maxLen >>= fun c =>
      if start + c.1 < 2 ^ 64 then .ok (min stop (c.1 + start), c.2) else .error .overflow := by
  unfold clampLost
  congr 1
  funext c
  obtain ⟨room, encodeLength⟩ := c
  dsimp only
  unfold Checked.add
  split_ifs
  · rw [Nat.add_comm start]
    rfl
  · rfl

theorem clampLost_ok {start stop maxLen : ℕ} {r : ℕ × Bool} (h : clampLost start stop maxLen = .ok r) :
    clampNew start stop maxLen = .ok r := by
  rw [clampLost_eq] at h
  obtain ⟨c, hc, h⟩ := Checked.bind_eq_ok.mp h
  split_ifs at h
  unfold clampNew
  rw [hc]
  exact h

namespace SendBuffer

/-- The range the next `poll_transmit` cuts from: the first lost one, else what was never sent. -/
def nextRange (b : SendBuffer) : Range := (b.retransmits.peekMin).getD ⟨b.unsent, b.offset⟩

/-- The buffer after the next range has been sent up to `stop`. -/
def sent (b : SendBuffer) (stop : ℕ) : SendBuffer :=
  match b.retransmits.popMin with
  | some (range, retransmits) => { b with
      retransmits := if stop < range.end then (retransmits.insert ⟨stop, range.end⟩).2
        else retransmits }
  | none => { b with unsent := stop }

/-- The end of the next range. -/
def clampNext (b : SendBuffer) (maxLen : ℕ) : Checked (ℕ × Bool) :=
  if b.retransmits.isEmpty then clampNew b.nextRange.start b.nextRange.end maxLen
  else clampLost b.nextRange.start b.nextRange.end maxLen

/-- If lost data is next, the sum of its offset and the room for it fits in 64 bits. -/
def SumFits (b : SendBuffer) (maxLen : ℕ) : Prop := b.retransmits.isEmpty = false →
  b.nextRange.start + (roomFor b.nextRange.start b.nextRange.end maxLen).1 < 2 ^ 64

instance (b : SendBuffer) (maxLen : ℕ) : Decidable (b.SumFits maxLen) := by
  unfold SumFits; infer_instance

theorem clampNext_ok {maxLen : ℕ} {r : ℕ × Bool} (h : b.clampNext maxLen = .ok r) :
    clampNew b.nextRange.start b.nextRange.end maxLen = .ok r := by
  unfold clampNext at h
  split_ifs at h
  · exact h
  · exact clampLost_ok h

/-- **When the end of the next range is found.** -/
theorem clampNext_eq {maxLen : ℕ} (hs : b.nextRange.start ≤ b.nextRange.end) (hm : 16 ≤ maxLen)
    (hv : b.nextRange.start < 2 ^ 62) : b.clampNext maxLen =
      if b.SumFits maxLen then .ok (clamped b.nextRange.start b.nextRange.end maxLen)
      else .error .overflow := by
  have hnew := clampNew_eq hs hm hv
  unfold clampNext
  by_cases hl : b.retransmits.isEmpty = true
  · have hfits : b.SumFits maxLen := fun h => by rw [hl] at h; cases h
    rw [if_pos hl, hnew, if_pos hfits]
  · have hlost : b.retransmits.isEmpty = false := by simpa using hl
    have hfits : b.SumFits maxLen ↔ _ := ⟨fun h => h hlost, fun h _ => h⟩
    unfold clampNew at hnew
    rw [dataRoom_eq hs hm hv, Checked.ok_bind] at hnew
    rw [if_neg hl, clampLost_eq, dataRoom_eq hs hm hv, Checked.ok_bind, ← hnew]
    exact if_congr hfits.symm rfl rfl

/-- `poll_transmit` cuts a beginning off the next range. -/
theorem pollTransmit_eq (b : SendBuffer) {maxLen : ℕ} (hm : 16 ≤ maxLen) :
    b.pollTransmit maxLen = b.clampNext maxLen >>= fun c =>
      .ok ((⟨b.nextRange.start, c.1⟩, c.2), b.sent c.1) := by
  unfold pollTransmit
  rw [Checked.assert_of hm, Checked.ok_bind]
  unfold clampNext
  cases hp : b.retransmits.popMin with
  | none =>
      have hr := Option.map_eq_none_iff.mp hp
      rw [if_pos (RangeSet.popMin_eq_none.mp hp)]
      unfold nextRange sent
      rw [hp, hr]
      rfl
  | some p =>
      obtain ⟨r, hr, rfl⟩ := Option.map_eq_some_iff.mp hp
      have hne : ¬ b.retransmits.isEmpty = true := fun he => by
        rw [RangeSet.popMin_eq_none.mpr he] at hp
        cases hp
      rw [if_neg hne]
      unfold nextRange sent
      rw [hp, hr]
      rfl

theorem pollTransmit_ok {maxLen : ℕ} {r : Range} {enc : Bool} {b' : SendBuffer}
    (h : b.pollTransmit maxLen = .ok ((r, enc), b')) : 16 ≤ maxLen ∧
      clampNew b.nextRange.start b.nextRange.end maxLen = .ok (r.end, enc) ∧
      r.start = b.nextRange.start ∧ b' = b.sent r.end := by
  have hm : 16 ≤ maxLen := by
    obtain ⟨u, h1, -⟩ := Checked.bind_eq_ok.mp h
    exact Checked.assert_eq_ok.mp h1
  rw [pollTransmit_eq b hm] at h
  obtain ⟨⟨e, enc'⟩, h1, h2⟩ := Checked.bind_eq_ok.mp h
  cases h2
  exact ⟨hm, clampNext_ok h1, rfl, rfl⟩

theorem nextRange_bounds (h : b.WF W) :
    b.nextRange.start ≤ b.nextRange.end ∧ b.nextRange.end ≤ b.offset := by
  unfold nextRange
  cases hp : b.retransmits.peekMin with
  | none => exact ⟨h.unsent_le, le_rfl⟩
  | some r =>
      obtain ⟨hm, hlt⟩ := RangeSet.peekMin_eq_some hp
      have h1 := h.retransmits (r.end - 1) ⟨_, hm, by simp only; omega, by simp only; omega⟩
      have h2 := h.unsent_le
      simp only [Option.getD_some]
      omega

/-- **Polling takes something** of a buffer that has something to send, if there is room for a byte
besides the offset and the length. -/
theorem pollTransmit_takes (h : b.WF W) (hu : b.hasUnsentData = true) {maxLen : ℕ} (hm : 16 < maxLen)
    {r : Range} {enc : Bool} {b' : SendBuffer} (hp : b.pollTransmit maxLen = .ok ((r, enc), b')) :
    r.isEmpty = false := by
  have hne : b.nextRange.start < b.nextRange.end := by
    unfold nextRange
    cases hr : b.retransmits.peekMin with
    | some r => exact (RangeSet.peekMin_eq_some hr).2
    | none =>
        have hempty : b.retransmits.isEmpty = true :=
          RangeSet.popMin_eq_none.mp (Option.map_eq_none_iff.mpr hr)
        have hoff : b.unsent ≠ b.offset := by simpa [hasUnsentData, hempty] using hu
        exact lt_of_le_of_ne h.unsent_le hoff
  obtain ⟨h16, hc, hstart, -⟩ := pollTransmit_ok hp
  have he : r.end = (clamped b.nextRange.start b.nextRange.end maxLen).1 :=
    congrArg Prod.fst (clampNew_clamped h16 hc).2
  have hle := offsetSize_le b.nextRange.start
  have hlt : r.start < r.end := by
    rw [he, hstart]
    unfold clamped
    split_ifs <;> dsimp only <;> omega
  rw [Bool.eq_false_iff, ne_eq, Range.isEmpty_iff]
  omega

/-- With nothing to send, polling returns the end of the buffer. -/
theorem pollTransmit_end (hu : b.hasUnsentData = false) {maxLen : ℕ} {r : Range} {enc : Bool}
    {b' : SendBuffer} (hp : b.pollTransmit maxLen = .ok ((r, enc), b')) : r.end = b.offset := by
  have h := hu
  simp only [hasUnsentData, Bool.or_eq_false_iff, decide_eq_false_iff_not, not_not,
    Bool.not_eq_false'] at h
  have hnext : b.nextRange = ⟨b.unsent, b.offset⟩ := by
    unfold nextRange
    rw [Option.map_eq_none_iff.mp (RangeSet.popMin_eq_none.mpr h.2), Option.getD_none]
  obtain ⟨-, hc, -, -⟩ := pollTransmit_ok hp
  rw [hnext, h.1] at hc
  obtain ⟨h1, h2⟩ := clampNew_ok hc
  exact le_antisymm h2 h1

section Sent

variable (b) (stop : ℕ)

@[simp] theorem sent_offset : (b.sent stop).offset = b.offset := by unfold sent; split <;> rfl

@[simp] theorem sent_unackedLen : (b.sent stop).unackedLen = b.unackedLen := by
  unfold sent; split <;> rfl

@[simp] theorem sent_unackedSegments : (b.sent stop).unackedSegments = b.unackedSegments := by
  unfold sent; split <;> rfl

@[simp] theorem sent_acks : (b.sent stop).acks = b.acks := by unfold sent; split <;> rfl

@[simp] theorem sent_base : (b.sent stop).base = b.base := by simp [base]

@[simp] theorem sent_rest (x : ℕ) : (b.sent stop).rest x = b.rest x := by simp [rest]

end Sent

/-- Nothing is lost: what is sent next is new. -/
theorem sent_new (hl : b.retransmits.isEmpty = true) (stop : ℕ) :
    b.nextRange = ⟨b.unsent, b.offset⟩ ∧ b.sent stop = { b with unsent := stop } := by
  have hp := RangeSet.popMin_eq_none.mpr hl
  refine ⟨?_, by unfold SendBuffer.sent; rw [hp]⟩
  unfold nextRange
  rw [Option.map_eq_none_iff.mp hp, Option.getD_none]

/-- Something is lost: what is sent next is the beginning of the first lost range, of which the rest is still
to be sent again. -/
theorem sent_lost (hl : b.retransmits.isEmpty = false) {stop : ℕ} (h1 : b.nextRange.start ≤ stop)
    (h2 : stop ≤ b.nextRange.end) :
    b.nextRange.start < b.nextRange.end ∧ (∀ x ∈ b.nextRange, x ∈ b.retransmits) ∧
      (∀ x ∈ b.retransmits, b.nextRange.start ≤ x) ∧ (b.sent stop).unsent = b.unsent ∧
      ∀ x, x ∈ (b.sent stop).retransmits ↔ x ∈ b.retransmits ∧ ¬ (b.nextRange.start ≤ x ∧ x < stop) := by
  cases hp : b.retransmits.popMin with
  | none =>
      rw [RangeSet.popMin_eq_none.mp hp] at hl
      cases hl
  | some p =>
      obtain ⟨r, rs⟩ := p
      obtain ⟨hlt, hsub, hrs⟩ := RangeSet.popMin_eq_some hp
      have hpeek : b.retransmits.peekMin = some r := by
        obtain ⟨q, hq, he⟩ := Option.map_eq_some_iff.mp hp
        cases he
        exact hq
      have hr : b.nextRange = r := by
        unfold nextRange
        rw [hpeek, Option.getD_some]
      have e : b.sent stop = { b with
          retransmits := if stop < r.end then (rs.insert ⟨stop, r.end⟩).2 else rs } := by
        unfold SendBuffer.sent
        rw [hp]
      rw [hr] at h1 h2 ⊢
      rw [e]
      refine ⟨hlt, fun x hx => hsub x hx, fun x hx => RangeSet.peekMin_le hpeek hx, rfl, fun x => ?_⟩
      dsimp only
      by_cases hse : stop < r.end
      · rw [if_pos hse, RangeSet.mem_insert, hrs, Range.mem_iff, Range.mem_iff]
        dsimp only
        constructor
        · rintro (⟨hx, hn⟩ | hx)
          · exact ⟨hx, by omega⟩
          · exact ⟨hsub x (Range.mem_iff.mpr ⟨by omega, by omega⟩), by omega⟩
        · rintro ⟨hx, hn⟩
          by_cases hxr : r.start ≤ x ∧ x < r.end
          · exact .inr ⟨by omega, by omega⟩
          · exact .inl ⟨hx, hxr⟩
      · rw [if_neg hse, hrs, Range.mem_iff]
        have hend : stop = r.end := by omega
        rw [hend]

/-- **What is sent next** is new, or the beginning of a lost range, of which the rest is still to be sent
again. -/
theorem sent_cases (b : SendBuffer) {stop : ℕ} (h1 : b.nextRange.start ≤ stop)
    (h2 : stop ≤ b.nextRange.end) :
    (b.nextRange = ⟨b.unsent, b.offset⟩ ∧ b.sent stop = { b with unsent := stop }) ∨
    (b.nextRange.start < b.nextRange.end ∧ (∀ x ∈ b.nextRange, x ∈ b.retransmits) ∧
      (b.sent stop).unsent = b.unsent ∧ ∀ x, x ∈ (b.sent stop).retransmits ↔
        x ∈ b.retransmits ∧ ¬ (b.nextRange.start ≤ x ∧ x < stop)) := by
  cases hl : b.retransmits.isEmpty with
  | true => exact .inl (sent_new hl stop)
  | false =>
      obtain ⟨hlt, hsub, -, hu, hmem⟩ := sent_lost hl h1 h2
      exact .inr ⟨hlt, hsub, hu, hmem⟩

/-- A lost range was sent before. -/
theorem WF.nextRange_le (h : b.WF W) (hlt : b.nextRange.start < b.nextRange.end)
    (hsub : ∀ x ∈ b.nextRange, x ∈ b.retransmits) : b.nextRange.end ≤ b.unsent := by
  have := h.retransmits (b.nextRange.end - 1) (hsub _ (Range.mem_iff.mpr ⟨by omega, by omega⟩))
  omega

/-- What was sent counts as sent, and nothing else is dropped from what remains to be sent. -/
theorem WF.sent (h : b.WF W) {stop : ℕ} (h1 : b.nextRange.start ≤ stop)
    (h2 : stop ≤ b.nextRange.end) :
    (b.sent stop).WF W ∧ b.unsent ≤ (b.sent stop).unsent ∧ stop ≤ (b.sent stop).unsent := by
  obtain ⟨hr, e⟩ | ⟨hlt, hsub, hu, hmem⟩ := b.sent_cases h1 h2
  · rw [hr] at h1 h2
    rw [e]
    exact ⟨⟨h.offset, h.len_le, h.segs, h2, fun x hx => (h.retransmits x hx).trans_le h1⟩, h1, le_rfl⟩
  · have hend := h.nextRange_le hlt hsub
    rw [hu]
    refine ⟨⟨?_, ?_, ?_, ?_, fun x hx => ?_⟩, le_rfl, h2.trans hend⟩
    · rw [sent_offset]
      exact h.offset
    · rw [sent_offset, sent_unackedLen]
      exact h.len_le
    · rw [sent_unackedSegments, sent_base]
      exact h.segs
    · rw [hu, sent_offset]
      exact h.unsent_le
    · rw [hu]
      exact h.retransmits x ((hmem x).mp hx).1

/-- **Polling** returns if there is room for an offset and a length, unless the sum of a lost offset
and the room does not fit. -/
theorem pollTransmit_spec (h : b.WF W) (hW : W.length < 2 ^ 62) {maxLen : ℕ} (hm : 16 ≤ maxLen)
    (hfits : b.SumFits maxLen) :
    ∃ r enc, b.pollTransmit maxLen = .ok ((r, enc), b.sent r.end) ∧ r.start = b.nextRange.start ∧
      r.start ≤ r.end ∧ r.end ≤ b.nextRange.end := by
  obtain ⟨h1, h2⟩ := nextRange_bounds h
  have hc := clampNext_eq h1 hm (by rw [h.offset] at h2; omega)
  rw [if_pos hfits] at hc
  generalize clamped b.nextRange.start b.nextRange.end maxLen = c at hc
  obtain ⟨e, enc⟩ := c
  refine ⟨⟨b.nextRange.start, e⟩, enc, ?_, rfl, clampNew_ok (clampNext_ok hc)⟩
  rw [pollTransmit_eq b hm, hc, Checked.ok_bind]

/-- Polling panics if the sum does not fit. -/
theorem pollTransmit_overflows (h : b.WF W) (hW : W.length < 2 ^ 62) {maxLen : ℕ} (hm : 16 ≤ maxLen)
    (hfits : ¬ b.SumFits maxLen) : b.pollTransmit maxLen = .error .overflow := by
  obtain ⟨h1, h2⟩ := nextRange_bounds h
  rw [pollTransmit_eq b hm, clampNext_eq h1 hm (by rw [h.offset] at h2; omega), if_neg hfits]
  rfl

/-! The panics that can come from a buffer with room for a frame. -/

theorem dataRoom_avoids {p : Panic} (hp : p ≠ .overflow) (he : p ≠ .explicit) (start stop maxLen : ℕ) :
    Checked.Avoids p (dataRoom start stop maxLen) fun _ => True := by
  have hoff : Checked.Avoids p (afterOffset start maxLen) fun _ => True := by
    unfold afterOffset varintLen
    refine .ite (fun _ => Checked.Avoids.bind (Q := fun _ => True) ?_ fun n _ =>
      (Checked.avoids_sub hp _ _).mono fun _ _ => trivial) fun _ => .ok trivial
    refine .ite (fun _ => .ok trivial) fun _ => .ite (fun _ => .ok trivial) fun _ => ?_
    exact .ite (fun _ => .ok trivial) fun _ => .ite (fun _ => .ok trivial) fun _ => .error he.symm
  unfold dataRoom
  refine hoff.bind fun left _ => (Checked.avoids_sub hp _ _).bind fun len _ => .ite (fun _ => ?_)
    fun _ => .ok trivial
  exact (Checked.avoids_sub hp _ _).bind fun _ _ => .ok trivial

theorem pollTransmit_avoids {p : Panic} (hp : p ≠ .overflow) (he : p ≠ .explicit) {maxLen : ℕ}
    (hm : 16 ≤ maxLen) : Checked.Avoids p (b.pollTransmit maxLen) fun _ => True := by
  rw [b.pollTransmit_eq hm]
  refine Checked.Avoids.bind (Q := fun _ => True) ?_ fun _ _ => .ok trivial
  unfold clampNext clampNew
  refine .ite (fun _ => (dataRoom_avoids hp he _ _ _).bind fun _ _ => .ok trivial) fun _ => ?_
  rw [clampLost_eq]
  refine (dataRoom_avoids hp he _ _ _).bind fun _ _ => ?_
  exact .ite (fun _ => .ok trivial) fun _ => .error hp.symm

/-- `get` does not return more than the range, nor more than the rest of the segment. -/
theorem get_avoids {p : Panic} (hp : p ≠ .overflow) {r : Range} (hr : r.start ≤ r.end) :
    Checked.Avoids p (b.get r) fun bs => bs.length ≤ min (r.end - r.start) (b.rest r.start) := by
  unfold SendBuffer.get
  refine (Checked.avoids_sub hp _ _).bind fun base hbase => ?_
  refine (Checked.avoids_sub hp _ _).bind fun start hstart => ?_
  refine (Checked.avoids_sub hp _ _).bind fun stop hstop => ?_
  obtain ⟨-, rfl⟩ := hbase
  obtain ⟨hb, rfl⟩ := hstart
  obtain ⟨-, rfl⟩ := hstop
  rw [getLoop_eq (Nat.zero_le _) (by omega)]
  refine .ok ?_
  have hrest : segRest (r.start - (b.offset - b.unackedLen)) 0 b.unackedSegments = b.rest r.start := by
    have h0 : segRest (r.start - b.base) (b.base - b.base) b.unackedSegments = b.rest r.start :=
      SendBuffer.segRest_shift (le_refl b.base) hb
    rwa [Nat.sub_self] at h0
  rw [List.length_take, hrest]
  omega

theorem retransmit_total {r : Range} (h : r.end ≤ b.unsent) :
    b.retransmit r = .ok { b with retransmits := (b.retransmits.insert r).2 } := by
  unfold retransmit
  rw [Checked.assert_of h]
  rfl

theorem WF.retransmit (h : b.WF W) {r : Range} {b' : SendBuffer} (he : b.retransmit r = .ok b') :
    r.end ≤ b.unsent ∧ b'.WF W ∧ b' = { b with retransmits := (b.retransmits.insert r).2 } := by
  obtain ⟨u, h1, h2⟩ := Checked.bind_eq_ok.mp he
  have hle := Checked.assert_eq_ok.mp h1
  cases h2
  refine ⟨hle, ⟨h.offset, h.len_le, h.segs, h.unsent_le, fun x hx => ?_⟩, rfl⟩
  simp only [RangeSet.mem_insert, Range.mem_iff] at hx
  rcases hx with hx | hx
  · exact h.retransmits x hx
  · simp only; omega

end SendBuffer

/-! ## Acknowledgements -/

/-- The loop removes segments from the front. -/
theorem drainLoop_ok {A : RangeSet} {base freed f : ℕ} {segs rest : List Bytes}
    (h : drainLoop A base freed segs = .ok (f, rest)) :
    ∃ pre, segs = pre ++ rest ∧ f = freed + pre.flatten.length := by
  induction segs generalizing freed with
  | nil => cases h; exact ⟨[], rfl, rfl⟩
  | cons seg segs ih =>
      unfold drainLoop at h
      dsimp only at h
      split_ifs at h with h1
      · obtain ⟨last, -, h⟩ := Checked.bind_eq_ok.mp h
        split_ifs at h with h2
        · obtain ⟨pre, rfl, rfl⟩ := ih h
          exact ⟨seg :: pre, rfl, by rw [List.flatten_cons, List.length_append]; omega⟩
        · cases h; exact ⟨[], rfl, rfl⟩
      · cases h; exact ⟨[], rfl, rfl⟩

/-- The last byte of a segment is looked up below offset 0 only if the segment is empty and at the
start of the stream. -/
theorem drainLoop_total {A : RangeSet} {base freed : ℕ} {segs : List Bytes}
    (h : base + freed = 0 → segs.head? = some [] → 0 ∉ A) :
    ∃ f rest, drainLoop A base freed segs = .ok (f, rest) := by
  induction segs generalizing freed with
  | nil => exact ⟨freed, [], rfl⟩
  | cons seg segs ih =>
      unfold drainLoop
      dsimp only
      split_ifs with h1
      · have hpos : 1 ≤ base + freed + seg.length := by
          by_contra h0
          have hnil : seg = [] := List.eq_nil_of_length_eq_zero (by omega)
          have h00 : base + freed = 0 := by omega
          rw [h00] at h1
          exact h h00 (by rw [hnil]; rfl) (RangeSet.contains_iff.mp h1)
        rw [Checked.sub_of_le hpos, Checked.ok_bind]
        split_ifs with h2
        · exact ih fun h0 => absurd h0 (by omega)
        · exact ⟨freed, seg :: segs, rfl⟩
      · exact ⟨freed, seg :: segs, rfl⟩

/-- Of the segments that the loop reaches, from the one at `start` on, those with both ends
acknowledged are acknowledged as a whole, and none is empty and at offset 0 with byte 0
acknowledged. -/
def AckSafe (A : RangeSet) : ℕ → List Bytes → Prop
  | _, [] => True
  | start, seg :: rest =>
    (start = 0 → seg = [] → 0 ∉ A) ∧
    (start ∈ A → start + seg.length - 1 ∈ A →
      (∀ x, start ≤ x → x < start + seg.length → x ∈ A) ∧ AckSafe A (start + seg.length) rest)

instance AckSafe.decidable (A : RangeSet) : ∀ start segs, Decidable (AckSafe A start segs)
  | _, [] => .isTrue trivial
  | start, seg :: rest =>
    have := AckSafe.decidable A (start + seg.length) rest
    inferInstanceAs (Decidable ((start = 0 → seg = [] → 0 ∉ A) ∧
      (start ∈ A → start + seg.length - 1 ∈ A →
        (∀ x, start ≤ x → x < start + seg.length → x ∈ A) ∧ AckSafe A (start + seg.length) rest)))

theorem AckSafe.head {A : RangeSet} {start : ℕ} {segs : List Bytes} (h : AckSafe A start segs) :
    start = 0 → segs.head? = some [] → 0 ∉ A := by
  intro h0 hs
  obtain ⟨rest, rfl⟩ := List.head?_eq_some_iff.mp hs
  exact h.1 h0 rfl

/-- Under `AckSafe` the loop frees acknowledged bytes only. -/
theorem drainLoop_safe {A : RangeSet} {base freed f : ℕ} {segs rest : List Bytes}
    (hs : AckSafe A (base + freed) segs) (h : drainLoop A base freed segs = .ok (f, rest)) {x : ℕ}
    (h1 : base + freed ≤ x) (h2 : x < base + f) : x ∈ A := by
  induction segs generalizing freed with
  | nil => cases h; omega
  | cons seg segs ih =>
      unfold drainLoop at h
      dsimp only at h
      split_ifs at h with hc
      · obtain ⟨last, hl, h⟩ := Checked.bind_eq_ok.mp h
        obtain ⟨-, rfl⟩ := Checked.sub_eq_ok.mp hl
        split_ifs at h with hc'
        · obtain ⟨h3, h4⟩ := hs.2 (RangeSet.contains_iff.mp hc) (RangeSet.contains_iff.mp hc')
          by_cases hx : x < base + freed + seg.length
          · exact h3 x h1 hx
          · exact ih (by rw [← Nat.add_assoc]; exact h4) h (by omega)
        · cases h; omega
      · cases h; omega

namespace SendBuffer

/-- `ack` taken apart. -/
theorem ack_ok {r : Range} {b' : SendBuffer} (h : b.WF W) (he : b.ack r = .ok b') :
    ∃ freed segs, drainLoop (b.acks.insert r).2 b.base 0 b.unackedSegments = .ok (freed, segs) ∧
      freed ≤ b.unackedLen ∧ b' = { b with
        unackedSegments := segs
        unackedLen := b.unackedLen - freed
        acks := if freed > 0 then ((b.acks.insert r).2.remove ⟨b.base, b.base + freed⟩).2
          else (b.acks.insert r).2 } := by
  unfold ack at he
  dsimp only at he
  rw [Checked.sub_of_le h.len_le, Checked.ok_bind] at he
  obtain ⟨⟨freed, segs⟩, h1, he⟩ := Checked.bind_eq_ok.mp he
  obtain ⟨n, h2, he⟩ := Checked.bind_eq_ok.mp he
  obtain ⟨h3, rfl⟩ := Checked.sub_eq_ok.mp h2
  exact ⟨freed, segs, h1, h3, (Except.ok.inj he).symm⟩

/-- **What `ack` keeps**: segments leave from the front, and the acknowledged offsets that are no
longer buffered are forgotten. -/
theorem WF.ack (h : b.WF W) {r : Range} {b' : SendBuffer} (he : b.ack r = .ok b') :
    b'.WF W ∧ b.base ≤ b'.base ∧ b'.offset = b.offset ∧ b'.unsent = b.unsent ∧
      b'.retransmits = b.retransmits ∧
      ∀ x, x ∈ b'.acks ↔ (x ∈ b.acks ∨ x ∈ r) ∧ ¬ (b.base ≤ x ∧ x < b'.base) := by
  obtain ⟨freed, segs, h1, h2, rfl⟩ := ack_ok h he
  obtain ⟨pre, hpre, hf⟩ := drainLoop_ok h1
  have hlen := h.len_le
  have hbase : b.offset - (b.unackedLen - freed) = b.base + freed := by unfold base; omega
  refine ⟨⟨h.offset, by simp only; omega, ?_, h.unsent_le, h.retransmits⟩, by simp only [base]; omega,
    rfl, rfl, rfl, fun x => ?_⟩
  · have := h.segs
    rw [hpre, List.flatten_append] at this
    have hdrop := congrArg (List.drop freed) this
    rw [List.drop_drop] at hdrop
    show segs.flatten = W.drop (b.offset - (b.unackedLen - freed))
    rw [hbase, ← hdrop, hf, Nat.zero_add, List.drop_left]
  · by_cases hp : freed > 0
    · simp only [if_pos hp, RangeSet.mem_remove, RangeSet.mem_insert, Range.mem_iff, base] at hbase ⊢
      rw [hbase]
    · simp only [if_neg hp, RangeSet.mem_insert, base] at hbase ⊢
      constructor
      · exact fun hx => ⟨hx, by omega⟩
      · exact fun hx => hx.1

/-- `ack` returns unless byte 0 is acknowledged while an empty segment is first in the stream. -/
theorem ack_total (h : b.WF W) {r : Range}
    (hs : b.base = 0 → b.unackedSegments.head? = some [] → 0 ∉ (b.acks.insert r).2) :
    ∃ b', b.ack r = .ok b' := by
  obtain ⟨f, rest, e⟩ := drainLoop_total (show b.base + 0 = 0 → _ from hs)
  obtain ⟨pre, hpre, hf⟩ := drainLoop_ok e
  have hle : f ≤ b.unackedLen := by
    rw [← h.length, hpre, List.flatten_append, List.length_append]
    omega
  unfold ack
  dsimp only
  rw [Checked.sub_of_le h.len_le, Checked.ok_bind, show b.offset - b.unackedLen = b.base from rfl, e,
    Checked.ok_bind]
  dsimp only
  rw [Checked.sub_of_le hle, Checked.ok_bind]
  exact ⟨_, rfl⟩

/-- Nothing is freed before it is acknowledged, and the acknowledged offsets that are buffered are
known to be. -/
structure AckInv (acked : ℕ → Prop) (b : SendBuffer) : Prop where
  freed : ∀ x < b.base, acked x
  sound : ∀ x ∈ b.acks, acked x
  known : ∀ x, b.base ≤ x → acked x → x ∈ b.acks

theorem AckInv.ack {acked acked' : ℕ → Prop} (h : b.WF W) (ha : b.AckInv acked) {r : Range}
    (hacked : ∀ x, acked' x ↔ acked x ∨ x ∈ r) {b' : SendBuffer}
    (hs : AckSafe (b.acks.insert r).2 b.base b.unackedSegments) (he : b.ack r = .ok b') :
    b'.AckInv acked' := by
  obtain ⟨hwf, hbase, -, -, -, hacks⟩ := h.ack he
  have hsound : ∀ x, x ∈ b.acks ∨ x ∈ r → acked' x := by
    intro x hx
    rcases hx with hx | hx
    · exact (hacked x).mpr (.inl (ha.sound x hx))
    · exact (hacked x).mpr (.inr hx)
  refine ⟨fun x hx => ?_, fun x hx => hsound x ((hacks x).mp hx).1, fun x hb hx => ?_⟩
  · by_cases hlt : x < b.base
    · exact (hacked x).mpr (.inl (ha.freed x hlt))
    · -- `x` was freed just now
      obtain ⟨f, segs, h1, h2, rfl⟩ := ack_ok h he
      have hlen := h.len_le
      refine hsound x (RangeSet.mem_insert.mp (drainLoop_safe hs h1 (by omega) ?_))
      simp only [base] at hx ⊢
      omega
  · refine (hacks x).mpr ⟨?_, by omega⟩
    rcases (hacked x).mp hx with hx | hx
    · exact .inl (ha.known x (hbase.trans hb) hx)
    · exact .inr hx

end SendBuffer

end

/-! ## Runs of one buffer -/

/-- An operation on the buffer. -/
inductive SendOp
  | write (data : Bytes)
  | pollTransmit (maxLen : ℕ)
  | ack (r : Range)
  | retransmit (r : Range)
  deriving DecidableEq

/-- A buffer with its history: what was written, the ranges that were returned and not yet resolved,
and the acknowledged ones. -/
structure SendRun where
  buf : SendBuffer
  written : Bytes
  flight : List Range
  acked : List Range

/-- The start of a run. -/
def SendRun.init : SendRun := ⟨SendBuffer.default, [], [], []⟩

/-- An acknowledged range holds `x`. -/
def SendRun.Acked (s : SendRun) (x : ℕ) : Prop := ∃ r ∈ s.acked, x ∈ r

/-- One operation. -/
def sendStep (s : SendRun) : SendOp → Checked SendRun
  | .write data => .ok { s with buf := s.buf.write data, written := s.written ++ data }
  | .pollTransmit maxLen => do
    let ((r, _), buf) ← s.buf.pollTransmit maxLen
    return { s with buf := buf, flight := r :: s.flight }
  | .ack r => do
    let buf ← s.buf.ack r
    return { s with buf := buf, flight := s.flight.erase r, acked := r :: s.acked }
  | .retransmit r => do
    let buf ← s.buf.retransmit r
    return { s with buf := buf, flight := s.flight.erase r }

/-- The stream stays below `2 ^ 62` bytes, there is room for a frame header, and only ranges that
were returned and not yet resolved are acknowledged or declared lost. -/
def SendOp.Legal (s : SendRun) : SendOp → Prop
  | .write data => s.written.length + data.length < 2 ^ 62
  | .pollTransmit maxLen => 25 ≤ maxLen
  | .ack r => r ∈ s.flight
  | .retransmit r => r ∈ s.flight

instance (s : SendRun) : ∀ op : SendOp, Decidable (op.Legal s)
  | .write data => inferInstanceAs (Decidable (s.written.length + data.length < 2 ^ 62))
  | .pollTransmit maxLen => inferInstanceAs (Decidable (25 ≤ maxLen))
  | .ack r => inferInstanceAs (Decidable (r ∈ s.flight))
  | .retransmit r => inferInstanceAs (Decidable (r ∈ s.flight))

/-- An acknowledgement frees only segments that are acknowledged as a whole, and a poll for lost data
adds its offset and the room for it within 64 bits. -/
def SendOp.Safe (s : SendRun) : SendOp → Prop
  | .ack r => AckSafe (s.buf.acks.insert r).2 s.buf.base s.buf.unackedSegments
  | .pollTransmit maxLen => s.buf.SumFits maxLen
  | _ => True

instance (s : SendRun) : ∀ op : SendOp, Decidable (op.Safe s)
  | .ack _ => inferInstanceAs (Decidable (AckSafe _ _ _))
  | .pollTransmit _ => inferInstanceAs (Decidable (SendBuffer.SumFits _ _))
  | .write _ | .retransmit _ => .isTrue trivial

/-- Unacknowledged bytes are in the buffer, and `get` returns a nonempty prefix of every range of
them. -/
structure SendRun.Keeps (s : SendRun) : Prop where
  len_le : s.buf.unackedLen ≤ s.buf.offset
  buffered : ∀ x < s.buf.offset, ¬ s.Acked x → s.buf.offset - s.buf.unackedLen ≤ x
  get : ∀ r : Range, r.start < r.end → (∀ x ∈ r, x < s.buf.offset ∧ ¬ s.Acked x) →
    ∃ bs, s.buf.get r = .ok bs ∧ bs ≠ [] ∧ bs <+: (s.written.drop r.start).take (r.end - r.start)

/-- The invariant of a run. -/
structure SendRun.Inv (s : SendRun) : Prop where
  wf : s.buf.WF s.written
  bound : s.written.length < 2 ^ 62
  acks : s.buf.AckInv s.Acked
  flight : ∀ r ∈ s.flight, r.end ≤ s.buf.unsent

theorem SendRun.inv_init : SendRun.init.Inv where
  wf := SendBuffer.WF.default
  bound := by decide
  acks := ⟨fun x hx => absurd hx (Nat.not_lt_zero x), fun x hx => absurd hx (RangeSet.notMem_new x),
    fun x _ ⟨r, hr, _⟩ => absurd hr List.not_mem_nil⟩
  flight := fun r hr => by cases hr

/-- **One operation keeps the invariant and returns.** -/
theorem sendStep_spec (s : SendRun) (op : SendOp) (hI : s.Inv) (h : op.Legal s ∧ op.Safe s) :
    ∃ s', sendStep s op = .ok s' ∧ s'.Inv := by
  obtain ⟨hl, hs⟩ := h
  cases op with
  | write data =>
      refine ⟨_, rfl, hI.wf.write data, by simpa [SendOp.Legal] using hl, ?_, hI.flight⟩
      have hbase : (s.buf.write data).base = s.buf.base := by
        simp only [SendBuffer.write, SendBuffer.base]; omega
      exact ⟨fun x hx => hI.acks.freed x (by rwa [hbase] at hx), hI.acks.sound,
        fun x hx => hI.acks.known x (by rwa [hbase] at hx)⟩
  | pollTransmit maxLen =>
      have hm : 25 ≤ maxLen := hl
      obtain ⟨r, enc, e, h1, h2, h3⟩ :=
        SendBuffer.pollTransmit_spec hI.wf hI.bound (show 16 ≤ maxLen by omega) hs
      obtain ⟨hwf, hu, hr⟩ := hI.wf.sent (show _ ≤ r.end by omega) h3
      refine ⟨{ s with buf := s.buf.sent r.end, flight := r :: s.flight },
        by simp only [sendStep, e]; rfl, hwf, hI.bound, ?_, fun q hq => ?_⟩
      · exact ⟨fun x hx => hI.acks.freed x (by simpa using hx),
          fun x hx => hI.acks.sound x (by simpa using hx),
          fun x hb hx => by simpa using hI.acks.known x (by simpa using hb) hx⟩
      · rcases List.mem_cons.mp hq with rfl | hq
        · exact hr
        · exact (hI.flight q hq).trans hu
  | ack r =>
      obtain ⟨b', e⟩ := SendBuffer.ack_total hI.wf hs.head
      obtain ⟨hwf, -, -, hu, -, -⟩ := hI.wf.ack e
      refine ⟨{ s with buf := b', flight := s.flight.erase r, acked := r :: s.acked },
        by simp only [sendStep, e]; rfl, hwf, hI.bound, ?_, fun q hq => ?_⟩
      · refine hI.acks.ack hI.wf (fun x => ?_) hs e
        simp only [SendRun.Acked, List.mem_cons, exists_eq_or_imp]
        exact or_comm
      · simp only [hu]
        exact hI.flight q (List.mem_of_mem_erase hq)
  | retransmit r =>
      have e := SendBuffer.retransmit_total (hI.flight r hl)
      obtain ⟨-, hwf, -⟩ := hI.wf.retransmit e
      refine ⟨{ s with
          buf := { s.buf with retransmits := (s.buf.retransmits.insert r).2 }
          flight := s.flight.erase r }, by simp only [sendStep, e]; rfl, hwf, hI.bound,
        ⟨hI.acks.freed, hI.acks.sound, hI.acks.known⟩,
        fun q hq => hI.flight q (List.mem_of_mem_erase hq)⟩

theorem SendRun.Inv.keeps {s : SendRun} (hI : s.Inv) : s.Keeps where
  len_le := hI.wf.len_le
  buffered x _ hx := by
    by_contra h
    exact hx (hI.acks.freed x (by unfold SendBuffer.base; omega))
  get r hr hmem := by
    obtain ⟨h1, h2⟩ := hmem r.start ⟨le_rfl, hr⟩
    obtain ⟨h3, -⟩ := hmem (r.end - 1) ⟨by omega, by omega⟩
    have hb : s.buf.base ≤ r.start := by
      by_contra h
      exact h2 (hI.acks.freed _ (by omega))
    refine ⟨_, SendBuffer.get_spec hI.wf hb hr.le, fun h => ?_, ?_⟩
    · have hpos := SendBuffer.rest_pos hI.wf hb h1
      have := congrArg List.length h
      rw [List.length_take, List.length_drop, ← hI.wf.offset, List.length_nil] at this
      omega
    · exact List.take_prefix_take_left (by omega)

/-- **The send buffer gives up acknowledged data only**, along every run in which each segment that
an acknowledgement frees is acknowledged as a whole and the sums of the polls fit: nothing underflows,
unacknowledged bytes are in the buffer and `get` returns them. -/
theorem sendBuffer_keeps_unacked (ops : List SendOp)
    (hl : Meets sendStep (fun s op => op.Legal s) SendRun.init ops)
    (hs : Meets sendStep (fun s op => op.Safe s) SendRun.init ops) :
    ∃ s, run sendStep SendRun.init ops = .ok s ∧ s.Keeps := by
  obtain ⟨s, h, hI⟩ := run_total sendStep_spec SendRun.inv_init (hl.and hs)
  exact ⟨s, h, hI.keeps⟩

/-- Two segments; the second packet is acknowledged before the first is lost. -/
theorem sendBuffer_keeps_unacked_two : ∃ s, run sendStep SendRun.init [.write [1, 2, 3],
      .pollTransmit 25, .write [4, 5], .pollTransmit 25, .ack ⟨3, 5⟩, .retransmit ⟨0, 3⟩] = .ok s ∧
    s.Keeps :=
  sendBuffer_keeps_unacked _ (by decide) (by decide)

/-- One segment of 60 bytes is sent in three packets, of which the first and the last are
acknowledged: the whole segment is freed, and byte 30 is gone. -/
theorem sendBuffer_frees_unacked : ∃ ops, Meets sendStep (fun s op => op.Legal s) SendRun.init ops ∧
    ∃ s, run sendStep SendRun.init ops = .ok s ∧ 30 < s.buf.offset ∧ ¬ s.Acked 30 ∧
      ¬ s.buf.offset - s.buf.unackedLen ≤ 30 := by
  refine ⟨[.write (List.replicate 60 7), .pollTransmit 25, .pollTransmit 25, .pollTransmit 25,
    .ack ⟨0, 25⟩, .ack ⟨49, 60⟩], by decide, _, rfl, by decide, ?_, by decide⟩
  simp [SendRun.Acked, SendRun.init, Range.mem_iff]

end MzQuic
