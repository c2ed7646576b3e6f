import MzQuic.Lib.Bytes
import MzQuic.Proto.RangeSet

/-!
# The receive assembler (`core/src/connection/stream/recv.rs`)

`Assembler` keeps the segments that arrived and were not read, sorted by offset. `insert` trims a
new segment against what was read and what is buffered; `read` releases the contiguous prefix.

* the model: `Assembler.read`, `Assembler.insert` with its search `insertAt` and its loop
  `dropCovered`, `Assembler.clear`;
* `SegsFrom lo data`: segments are nonempty, sorted, disjoint and start at or after `lo`;
  `Held data x`: offset `x` is buffered; `Agrees S data`: segments are slices of `S`;
* `Assembler.WF`: the representation invariant; `Assembler.checked`: the counter of what is allocated is a `usize`;
* **`insert_spec`**: if no buffered segment contains the start of the new one in its inside, and the counter stays
  in range, `insert` adds exactly the unread offsets of the frame;
* **`read_spec`**: `read` releases the next bytes of the stream, or the next byte is missing.
-/

namespace MzQuic

open Lib

/-! ## Model -/

/-- `AssemblerState`. -/
inductive AssemblerState
  | ordered
  | unordered (recvd : RangeSet)
  deriving DecidableEq

/-- `Buffer`: one buffered segment. -/
structure Buffer where
  offset : ℕ
  bytes : Bytes
  allocationSize : ℕ
  defragmented : Bool
  deriving DecidableEq, Repr

/-- `Buffer::new`. -/
def Buffer.new (offset : ℕ) (bytes : Bytes) (allocationSize : ℕ) : Buffer :=
  ⟨offset, bytes, allocationSize, false⟩

/-- `buf_end`: the first offset past the segment. -/
def Buffer.bufEnd (b : Buffer) : ℕ := b.offset + b.bytes.length

/-- `Chunk`: data handed to the application. -/
structure Chunk where
  offset : ℕ
  bytes : Bytes
  deriving DecidableEq, Repr

/-- `Assembler`. -/
structure Assembler where
  state : AssemblerState := .ordered
  data : List Buffer := []
  buffered : ℕ := 0
  allocated : ℕ := 0
  bytesRead : ℕ := 0
  «end» : ℕ := 0
  deriving DecidableEq

/-- `Assembler::default`. -/
def Assembler.default : Assembler := {}

/-- Trim the part of a segment below `upTo`; `none` if nothing is left of it. -/
def trimTo (upTo offset : ℕ) (bytes : Bytes) : Option (ℕ × Bytes) :=
  if offset < upTo then
    if upTo - offset ≥ bytes.length then none else some (upTo, bytes.drop (upTo - offset))
  else some (offset, bytes)

/-- The index of the first segment that ends after `offset`. -/
def insertAt (data : List Buffer) (offset : ℕ) : ℕ := data.findIdx fun buf => buf.bufEnd > offset

/-- `prev_end` in `insert`; `0`, which trims nothing, if there is no previous segment. -/
def prevEnd (data : List Buffer) (i : ℕ) : ℕ :=
  if i > 0 then (data[i - 1]?.map Buffer.bufEnd).getD 0 else 0

/-- The `while` of `insert`, on the segments from the insertion point on: segments that end in the
new one are removed, and the new one is cut at the first segment that sticks out of it. -/
def dropCovered (offset newEnd : ℕ) :
    List Buffer → Bytes → ℕ → ℕ → Checked (List Buffer × Bytes × ℕ × ℕ)
  | [], bytes, buffered, allocated => .ok ([], bytes, buffered, allocated)
  | buf :: rest, bytes, buffered, allocated =>
    if buf.offset ≥ newEnd then .ok (buf :: rest, bytes, buffered, allocated)
    else if buf.bufEnd ≤ newEnd then do
      let buffered ← Checked.sub buffered buf.bytes.length
      let allocated ← Checked.sub allocated buf.allocationSize
      dropCovered offset newEnd rest bytes buffered allocated
    else do
      let keep ← Checked.sub buf.offset offset
      .ok (buf :: rest, bytes.take keep, buffered, allocated)

namespace Assembler

/-- The end of `insert`, once the part that was read is trimmed. -/
def place (a : Assembler) (offset : ℕ) (bytes : Bytes) (allocationSize : ℕ) : Checked Assembler :=
  let i := insertAt a.data offset
  match trimTo (prevEnd a.data i) offset bytes with
  | none => .ok a
  | some (offset, bytes) => do
    let (rest, bytes, buffered, allocated) ←
      dropCovered offset (offset + bytes.length) (a.data.drop i) bytes a.buffered a.allocated
    if bytes.isEmpty then
      .ok { a with data := a.data.take i ++ rest, buffered := buffered, allocated := allocated }
    else do
      -- both counters are `usize`; what is buffered is never more than what is allocated
      let allocated ← Checked.add 64 allocated allocationSize
      .ok { a with
        data := a.data.take i ++ Buffer.new offset bytes allocationSize :: rest
        buffered := buffered + bytes.length
        allocated := allocated }

/-- `Assembler::insert`. -/
def insert (a : Assembler) (offset : ℕ) (bytes : Bytes) (allocationSize : ℕ) :
    Checked Assembler := do
  Checked.assert (bytes.length ≤ allocationSize)
  let a := { a with «end» := max a.end (offset + bytes.length) }
  if bytes.isEmpty then return a
  -- data that the application has already consumed
  if offset + bytes.length ≤ a.bytesRead then return a
  match trimTo a.bytesRead offset bytes with
  | none => return a
  | some (offset, bytes) =>
    if bytes.isEmpty then return a
    a.place offset bytes allocationSize

/-- `Assembler::read`. -/
def read (a : Assembler) (maxLength : ℕ) (ordered : Bool) : Checked (Option Chunk × Assembler) :=
  if !ordered then .error .unimplemented
  else
    match a.data with
    | [] => .ok (none, a)
    | chunk :: rest =>
      if chunk.offset ≠ a.bytesRead then .ok (none, a)
      else if maxLength < chunk.bytes.length then do
        let buffered ← Checked.sub a.buffered maxLength
        .ok (some ⟨chunk.offset, chunk.bytes.take maxLength⟩, { a with
          bytesRead := a.bytesRead + maxLength
          buffered := buffered
          data := { chunk with
            offset := chunk.offset + maxLength
            bytes := chunk.bytes.drop maxLength } :: rest })
      else do
        let buffered ← Checked.sub a.buffered chunk.bytes.length
        let allocated ← Checked.sub a.allocated chunk.allocationSize
        .ok (some ⟨chunk.offset, chunk.bytes⟩, { a with
          bytesRead := a.bytesRead + chunk.bytes.length
          buffered := buffered
          allocated := allocated
          data := rest })

/-- `Assembler::clear`. -/
def clear (a : Assembler) : Assembler := { a with data := [], buffered := 0, allocated := 0 }

end Assembler

/-! ## Segments -/

/-- The segments are nonempty, sorted and disjoint, and start at or after `lo`. -/
def SegsFrom : ℕ → List Buffer → Prop
  | _, [] => True
  | lo, b :: rest => lo ≤ b.offset ∧ b.bytes ≠ [] ∧ SegsFrom b.bufEnd rest

/-- Offset `x` is in a segment. -/
def Held (data : List Buffer) (x : ℕ) : Prop := ∃ b ∈ data, b.offset ≤ x ∧ x < b.bufEnd

/-- The segments are slices of `S`. -/
def Agrees (S : Bytes) (data : List Buffer) : Prop :=
  ∀ b ∈ data, b.bytes = (S.drop b.offset).take b.bytes.length

/-- The sum of the segment lengths. -/
def totalLen (data : List Buffer) : ℕ := (data.map fun b => b.bytes.length).sum

/-- The sum of the allocation sizes. -/
def totalAlloc (data : List Buffer) : ℕ := (data.map Buffer.allocationSize).sum

@[simp] theorem totalLen_cons (b : Buffer) (l : List Buffer) :
    totalLen (b :: l) = b.bytes.length + totalLen l := by simp [totalLen]

@[simp] theorem totalAlloc_cons (b : Buffer) (l : List Buffer) :
    totalAlloc (b :: l) = b.allocationSize + totalAlloc l := by simp [totalAlloc]

@[simp] theorem totalLen_append (l r : List Buffer) : totalLen (l ++ r) = totalLen l + totalLen r := by
  simp [totalLen]

@[simp] theorem totalAlloc_append (l r : List Buffer) :
    totalAlloc (l ++ r) = totalAlloc l + totalAlloc r := by simp [totalAlloc]

theorem held_nil (x : ℕ) : ¬ Held [] x := fun ⟨_, h, _⟩ => by cases h

theorem held_cons {b : Buffer} {l : List Buffer} {x : ℕ} :
    Held (b :: l) x ↔ (b.offset ≤ x ∧ x < b.bufEnd) ∨ Held l x := by
  simp [Held]

theorem held_append {l r : List Buffer} {x : ℕ} : Held (l ++ r) x ↔ Held l x ∨ Held r x := by
  simp only [Held, List.mem_append, or_and_right, exists_or]

theorem bufEnd_gt {b : Buffer} (h : b.bytes ≠ []) : b.offset < b.bufEnd := by
  have := List.length_pos_iff.mpr h
  unfold Buffer.bufEnd
  omega

theorem SegsFrom.mono {lo lo' : ℕ} {data : List Buffer} (h : SegsFrom lo data) (hl : lo' ≤ lo) :
    SegsFrom lo' data := by
  cases data with
  | nil => trivial
  | cons b rest => exact ⟨hl.trans h.1, h.2⟩

theorem SegsFrom.le_of_mem {lo : ℕ} {data : List Buffer} (h : SegsFrom lo data) :
    ∀ b ∈ data, lo ≤ b.offset ∧ b.offset < b.bufEnd := by
  induction data generalizing lo with
  | nil => intro b hb; cases hb
  | cons c rest ih =>
      intro b hb
      rcases List.mem_cons.mp hb with rfl | hb
      · exact ⟨h.1, bufEnd_gt h.2.1⟩
      · have h1 := ih h.2.2 b hb
        have h2 := bufEnd_gt h.2.1
        have h3 := h.1
        exact ⟨by omega, h1.2⟩

theorem SegsFrom.le_of_held {lo x : ℕ} {data : List Buffer} (h : SegsFrom lo data)
    (hx : Held data x) : lo ≤ x := by
  obtain ⟨b, hb, h1, _⟩ := hx
  exact (h.le_of_mem b hb).1.trans h1

/-- Sorted segments split at any point: everything left ends before everything right. -/
theorem segsFrom_append {lo : ℕ} {l r : List Buffer} : SegsFrom lo (l ++ r) ↔
    SegsFrom lo l ∧ SegsFrom lo r ∧ ∀ b ∈ l, SegsFrom b.bufEnd r := by
  induction l generalizing lo with
  | nil => simp [SegsFrom]
  | cons c l ih =>
      simp only [List.cons_append, SegsFrom, ih, List.mem_cons, forall_eq_or_imp]
      constructor
      · rintro ⟨h1, h2, h3, h4, h5⟩
        have := bufEnd_gt h2
        exact ⟨⟨h1, h2, h3⟩, h4.mono (by omega), h4, h5⟩
      · rintro ⟨⟨h1, h2, h3⟩, _, h4, h5⟩
        exact ⟨h1, h2, h3, h4, h5⟩

/-! ## The loop of `insert` -/

/-- What the loop leaves: a prefix of the new segment of length `k`, and the segments after it. -/
theorem dropCovered_spec {offset newEnd lo : ℕ} {post : List Buffer} {bytes : Bytes} {B A : ℕ}
    (hs : SegsFrom lo post) (hlo : offset ≤ lo) (hne : lo ≤ newEnd)
    (hlen : bytes.length = newEnd - offset) :
    ∃ rest k, dropCovered offset newEnd post bytes (B + totalLen post) (A + totalAlloc post) =
        .ok (rest, bytes.take k, B + totalLen rest, A + totalAlloc rest) ∧
      rest <:+ post ∧ lo ≤ offset + k ∧ offset + k ≤ newEnd ∧ SegsFrom (offset + k) rest ∧
      (∀ x, Held post x → Held rest x ∨ (lo ≤ x ∧ x < offset + k)) ∧
      ∀ x, offset + k ≤ x → x < newEnd → Held rest x := by
  -- by induction on the segments; `lo` is the end of the segments removed so far
  induction post generalizing lo with
  | nil =>
      refine ⟨[], newEnd - offset, ?_, List.suffix_refl _, by omega, by omega, trivial,
        fun x h => absurd h (held_nil x), fun x h1 h2 => by omega⟩
      rw [← hlen, List.take_length, dropCovered]
  | cons buf rest ih =>
      obtain ⟨h1, h2, h3⟩ := hs
      have hb := bufEnd_gt h2
      by_cases hge : buf.offset ≥ newEnd
      · refine ⟨buf :: rest, newEnd - offset, ?_, List.suffix_refl _, by omega, by omega,
          ⟨by omega, h2, h3⟩, fun x h => .inl h, fun x h1 h2 => by omega⟩
        rw [← hlen, List.take_length, dropCovered, if_pos hge]
      by_cases hle : buf.bufEnd ≤ newEnd
      · obtain ⟨r, k, e, hsuf, hk1, hk2, hk3, hk4, hk5⟩ := ih h3 (by omega) hle
        refine ⟨r, k, ?_, hsuf.trans (List.suffix_cons _ _), by omega, hk2, hk3, fun x hx => ?_, hk5⟩
        · rw [dropCovered, if_neg hge, if_pos hle, totalLen_cons, totalAlloc_cons,
            Checked.sub_of_le (by omega), Checked.ok_bind, Checked.sub_of_le (by omega),
            Checked.ok_bind, ← e]
          congr 1 <;> omega
        · rcases held_cons.mp hx with hx | hx
          · exact .inr (by omega)
          · rcases hk4 x hx with hx | hx
            · exact .inl hx
            · exact .inr (by omega)
      · refine ⟨buf :: rest, buf.offset - offset, ?_, List.suffix_refl _, by omega, by omega,
          ⟨by omega, h2, h3⟩, fun x h => .inl h, fun x hx1 hx2 => ?_⟩
        · rw [dropCovered, if_neg hge, if_neg hle, Checked.sub_of_le (by omega), Checked.ok_bind]
        · exact held_cons.mpr (.inl (by omega))

/-! ## The search of `insert` -/

theorem insertAt_take {data : List Buffer} {offset : ℕ} {b : Buffer}
    (hb : b ∈ data.take (insertAt data offset)) : b.bufEnd ≤ offset := by
  obtain ⟨i, hi, rfl⟩ := List.mem_iff_getElem.mp hb
  rw [List.length_take] at hi
  have := List.not_of_lt_findIdx (show i < data.findIdx fun buf => buf.bufEnd > offset from by
    unfold insertAt at hi; omega)
  simpa using this

theorem prevEnd_le (data : List Buffer) (offset : ℕ) :
    prevEnd data (insertAt data offset) ≤ offset := by
  unfold prevEnd
  split_ifs with h
  · cases he : data[insertAt data offset - 1]? with
    | none => simp
    | some b =>
        simp only [Option.map_some, Option.getD_some]
        have hb : b ∈ data.take (insertAt data offset) := by
          refine List.mem_iff_getElem?.mpr ⟨insertAt data offset - 1, ?_⟩
          rw [List.getElem?_take, if_pos (by omega), he]
        exact insertAt_take hb
  · omega

theorem insertAt_append {pre post : List Buffer} {offset : ℕ}
    (h1 : ∀ b ∈ pre, b.bufEnd ≤ offset) (h2 : ∀ b ∈ post, offset < b.bufEnd) :
    insertAt (pre ++ post) offset = pre.length := by
  unfold insertAt
  induction pre with
  | nil =>
      cases post with
      | nil => rfl
      | cons c rest =>
          have := h2 c (by simp)
          simp [List.findIdx_cons, this]
  | cons b pre ih =>
      have hb := h1 b (by simp)
      have := ih fun x hx => h1 x (by simp [hx])
      rw [List.cons_append, List.findIdx_cons, this]
      simp [Nat.not_lt.mpr hb]

theorem prevEnd_append (pre post : List Buffer) :
    prevEnd (pre ++ post) pre.length = prevEnd pre pre.length := by
  unfold prevEnd
  split_ifs with h
  · rw [List.getElem?_append_left (by omega)]
  · rfl

/-- The segments from the insertion point on end after `offset`. -/
theorem insertAt_drop {lo offset : ℕ} {data : List Buffer} (hs : SegsFrom lo data) {b : Buffer}
    (hb : b ∈ data.drop (insertAt data offset)) : offset < b.bufEnd := by
  have hlt : insertAt data offset < data.length := by
    by_contra h
    rw [List.drop_eq_nil_of_le (by omega)] at hb
    cases hb
  have hhead : offset < (data[insertAt data offset]).bufEnd := by
    have hlt' : data.findIdx (fun buf => decide (buf.bufEnd > offset)) < data.length := hlt
    exact of_decide_eq_true (List.findIdx_getElem (w := hlt'))
  rw [List.drop_eq_getElem_cons hlt] at hb
  have hs' : SegsFrom lo (data.drop (insertAt data offset)) := by
    rw [← List.take_append_drop (insertAt data offset) data] at hs
    exact (segsFrom_append.mp hs).2.1
  rw [List.drop_eq_getElem_cons hlt] at hs'
  rcases List.mem_cons.mp hb with rfl | hb
  · exact hhead
  · have := hs'.2.2.le_of_mem b hb
    omega

/-! ## The representation invariant -/

/-- The segments and the counters belong together. -/
structure Assembler.Shape (a : Assembler) : Prop where
  segs : SegsFrom a.bytesRead a.data
  buffered : a.buffered = totalLen a.data
  allocated : a.allocated = totalAlloc a.data
  alloc : ∀ b ∈ a.data, b.bytes.length ≤ b.allocationSize
  le_end : ∀ b ∈ a.data, b.bufEnd ≤ a.end
  read_le : a.bytesRead ≤ a.end

/-- The representation invariant of the assembler. -/
structure Assembler.WF (a : Assembler) : Prop extends a.Shape where
  allocated_lt : a.allocated < 2 ^ 64

/-- The assembler, if the counter of what is allocated is in range. -/
def Assembler.checked (a : Assembler) : Checked Assembler :=
  if a.allocated < 2 ^ 64 then .ok a else .error .overflow

theorem Assembler.checked_eq_ok {a a' : Assembler} : a.checked = .ok a' ↔ a.allocated < 2 ^ 64 ∧ a' = a := by
  unfold Assembler.checked
  split_ifs with h
  · exact ⟨fun e => ⟨h, (Except.ok.inj e).symm⟩, fun e => by rw [e.2]⟩
  · exact ⟨nofun, fun e => absurd e.1 h⟩

theorem Assembler.WF.default : Assembler.default.WF where
  segs := trivial
  buffered := rfl
  allocated := rfl
  allocated_lt := by decide
  alloc := fun b hb => by cases hb
  le_end := fun b hb => by cases hb
  read_le := le_rfl

theorem Assembler.WF.clear {a : Assembler} (h : a.WF) : a.clear.WF where
  segs := trivial
  buffered := rfl
  allocated := rfl
  allocated_lt := Nat.two_pow_pos 64
  alloc := fun b hb => by cases hb
  le_end := fun b hb => by cases hb
  read_le := h.read_le

/-- No buffered segment contains the first unread offset of the frame in its inside. -/
def Assembler.Apart (a : Assembler) (offset : ℕ) (bytes : Bytes) : Prop :=
  bytes ≠ [] → a.bytesRead < offset + bytes.length →
    ∀ b ∈ a.data, ¬ (b.offset < max offset a.bytesRead ∧ max offset a.bytesRead < b.bufEnd)

instance (a : Assembler) (offset : ℕ) (bytes : Bytes) : Decidable (a.Apart offset bytes) := by
  unfold Assembler.Apart; infer_instance

theorem trimTo_of_lt {upTo offset : ℕ} {bytes : Bytes} (h : upTo < offset + bytes.length) :
    trimTo upTo offset bytes = some (max offset upTo, bytes.drop (upTo - offset)) := by
  unfold trimTo
  split_ifs with h1 h2
  · omega
  · rw [show max offset upTo = upTo by omega]
  · rw [show max offset upTo = offset by omega, show upTo - offset = 0 by omega, List.drop_zero]

theorem take_slice {S bytes : Bytes} {o k : ℕ} (h : bytes = (S.drop o).take bytes.length) :
    bytes.take k = (S.drop o).take (bytes.take k).length := by
  rw [List.length_take]
  conv_lhs => rw [h]
  rw [List.take_take]

theorem drop_slice {S bytes : Bytes} {o k : ℕ} (h : bytes = (S.drop o).take bytes.length) :
    bytes.drop k = (S.drop (o + k)).take (bytes.drop k).length := by
  rw [List.length_drop]
  conv_lhs => rw [h]
  rw [List.drop_take, List.drop_drop]

/-- The unread part of a frame ends where the frame does. -/
theorem unread_end {offset bytesRead : ℕ} {bytes : Bytes} (h : bytesRead < offset + bytes.length) :
    max offset bytesRead + (bytes.drop (bytesRead - offset)).length = offset + bytes.length := by
  rw [List.length_drop]
  omega

/-- The unread part of a slice is a slice. -/
theorem unread_slice {S bytes : Bytes} {offset : ℕ} (bytesRead : ℕ) (h : bytes = (S.drop offset).take bytes.length) :
    bytes.drop (bytesRead - offset) =
      (S.drop (max offset bytesRead)).take (bytes.drop (bytesRead - offset)).length := by
  have hslice := drop_slice (k := bytesRead - offset) h
  rw [show offset + (bytesRead - offset) = max offset bytesRead by omega] at hslice
  exact hslice

/-- The assembler without the segment `c`, which stands between `pre` and `rest`. -/
def Assembler.without (a : Assembler) (pre : List Buffer) (c : Buffer) (rest : List Buffer) :
    Assembler :=
  { a with
    data := pre ++ rest
    buffered := a.buffered - c.bytes.length
    allocated := a.allocated - c.allocationSize }

namespace Assembler

/-- `place`, when the segments that end at or before `offset` are known. -/
theorem place_at {a : Assembler} {pre post : List Buffer} (hd : a.data = pre ++ post) {offset allocationSize : ℕ}
    {bytes : Bytes} (hne : bytes ≠ []) (hpre : ∀ b ∈ pre, b.bufEnd ≤ offset) (hpost : ∀ b ∈ post, offset < b.bufEnd) :
    a.place offset bytes allocationSize =
      dropCovered offset (offset + bytes.length) post bytes a.buffered a.allocated >>= fun r =>
        if r.2.1.isEmpty then .ok { a with data := pre ++ r.1, buffered := r.2.2.1, allocated := r.2.2.2 }
        else Checked.add 64 r.2.2.2 allocationSize >>= fun allocated => .ok { a with
          data := pre ++ Buffer.new offset r.2.1 allocationSize :: r.1
          buffered := r.2.2.1 + r.2.1.length
          allocated := allocated } := by
  have hpos := List.length_pos_iff.mpr hne
  have hi : insertAt (pre ++ post) offset = pre.length := insertAt_append hpre hpost
  have hle : prevEnd pre pre.length ≤ offset := by
    have := prevEnd_le (pre ++ post) offset
    rwa [hi, prevEnd_append] at this
  have htrim : trimTo (prevEnd pre pre.length) offset bytes = some (offset, bytes) := by
    rw [trimTo_of_lt (by omega), show max offset (prevEnd pre pre.length) = offset by omega,
      show prevEnd pre pre.length - offset = 0 by omega, List.drop_zero]
  unfold place
  simp only [hd, hi, prevEnd_append, htrim, List.drop_left, List.take_left]

/-- What is left of a new segment, in a list. -/
def piece (offset : ℕ) (bytes : Bytes) (allocationSize : ℕ) : List Buffer :=
  if bytes.isEmpty then [] else [Buffer.new offset bytes allocationSize]

theorem mem_piece {offset allocationSize : ℕ} {bytes : Bytes} {b : Buffer}
    (hb : b ∈ piece offset bytes allocationSize) : b = Buffer.new offset bytes allocationSize := by
  unfold piece at hb
  split_ifs at hb
  · cases hb
  · exact List.mem_singleton.mp hb

theorem held_piece {offset allocationSize x : ℕ} {bytes : Bytes} :
    Held (piece offset bytes allocationSize) x ↔ offset ≤ x ∧ x < offset + bytes.length := by
  unfold piece
  split_ifs with h
  · rw [List.isEmpty_iff.mp h]
    exact iff_of_false (held_nil x) (by rw [List.length_nil]; omega)
  · simp [Held, Buffer.new, Buffer.bufEnd]

/-- The piece stands before the segments that start after it. -/
theorem segsFrom_piece {offset allocationSize : ℕ} {bytes : Bytes} {rest : List Buffer}
    (h : SegsFrom (offset + bytes.length) rest) : SegsFrom offset (piece offset bytes allocationSize ++ rest) := by
  unfold piece
  split_ifs with hnil
  · exact h.mono (Nat.le_add_right offset _)
  · exact ⟨le_rfl, by simpa [Buffer.new] using hnil, h⟩

/-- `place`, with what is left of the new segment as a list. -/
theorem place_piece {a : Assembler} {pre post rest : List Buffer} (hd : a.data = pre ++ post)
    {offset allocationSize : ℕ} {bytes left : Bytes} {B A : ℕ} (hne : bytes ≠ []) (hpre : ∀ b ∈ pre, b.bufEnd ≤ offset)
    (hpost : ∀ b ∈ post, offset < b.bufEnd)
    (hdrop : dropCovered offset (offset + bytes.length) post bytes a.buffered a.allocated = .ok (rest, left, B, A))
    (hA : A < 2 ^ 64) : a.place offset bytes allocationSize = checked { a with
        data := pre ++ (piece offset left allocationSize ++ rest)
        buffered := B + totalLen (piece offset left allocationSize)
        allocated := A + totalAlloc (piece offset left allocationSize) } := by
  rw [place_at hd hne hpre hpost, hdrop, Checked.ok_bind]
  unfold piece checked
  split_ifs with hnil hlt hlt
  · rfl
  · exact absurd hA hlt
  · have hsum : A + allocationSize < 2 ^ 64 := by simpa [totalAlloc, Buffer.new] using hlt
    rw [Checked.add_of_lt hsum]
    simp [totalLen, totalAlloc, Buffer.new]
  · have hsum : ¬ A + allocationSize < 2 ^ 64 := by simpa [totalAlloc, Buffer.new] using hlt
    rw [Checked.add, if_neg hsum]
    rfl

/-- **`place`, when no segment starts before `offset` and ends after it**: it returns what it makes if the
counter is in range. -/
theorem place_spec {a : Assembler} (ha : a.WF) {offset : ℕ} {bytes : Bytes} {allocationSize : ℕ}
    (hne : bytes ≠ []) (hread : a.bytesRead ≤ offset) (hend : offset + bytes.length ≤ a.end)
    (hal : bytes.length ≤ allocationSize)
    (hap : ∀ b ∈ a.data, ¬ (b.offset < offset ∧ offset < b.bufEnd)) :
    ∃ a' : Assembler, a.place offset bytes allocationSize = a'.checked ∧ a'.Shape ∧ a'.bytesRead = a.bytesRead ∧
      a'.end = a.end ∧ (∀ x, Held a'.data x ↔ Held a.data x ∨
        (offset ≤ x ∧ x < offset + bytes.length)) ∧
      ∀ S : Bytes, Agrees S a.data → bytes = (S.drop offset).take bytes.length →
        Agrees S a'.data := by
  set i := insertAt a.data offset with hi
  have hsplit := List.take_append_drop i a.data
  have hsegs : SegsFrom a.bytesRead (a.data.take i ++ a.data.drop i) := by rw [hsplit]; exact ha.segs
  obtain ⟨hs1, hs2, hs3⟩ := segsFrom_append.mp hsegs
  have hpre : ∀ b ∈ a.data.take i, b.bufEnd ≤ offset := fun b hb => insertAt_take hb
  -- the segments from the insertion point on start at or after `offset`
  have hpost : SegsFrom offset (a.data.drop i) := by
    cases hd : a.data.drop i with
    | nil => trivial
    | cons c rest =>
        rw [hd] at hs2
        have hc : c ∈ a.data.drop i := by rw [hd]; simp
        have h1 := insertAt_drop ha.segs hc
        have h2 := hap c (List.mem_of_mem_drop hc)
        exact ⟨by omega, hs2.2⟩
  obtain ⟨rest, k, e, hsuf, hk1, hk2, hk3, hk4, hk5⟩ := dropCovered_spec (B := totalLen (a.data.take i))
    (A := totalAlloc (a.data.take i)) hpost le_rfl (show offset ≤ offset + bytes.length by omega)
    (show bytes.length = _ by omega)
  have hbuf : a.buffered = totalLen (a.data.take i) + totalLen (a.data.drop i) := by
    rw [ha.buffered, ← totalLen_append, hsplit]
  have hall : a.allocated = totalAlloc (a.data.take i) + totalAlloc (a.data.drop i) := by
    rw [ha.allocated, ← totalAlloc_append, hsplit]
  have hklen : (bytes.take k).length = k := by rw [List.length_take]; omega
  have hnew : SegsFrom offset (piece offset (bytes.take k) allocationSize ++ rest) :=
    segsFrom_piece (by rwa [hklen])
  have hmem : ∀ b ∈ a.data.take i ++ (piece offset (bytes.take k) allocationSize ++ rest),
      b ∈ a.data ∨ b = Buffer.new offset (bytes.take k) allocationSize := by
    intro b hb
    rcases List.mem_append.mp hb with hb | hb
    · exact .inl (List.mem_of_mem_take hb)
    · rcases List.mem_append.mp hb with hb | hb
      · exact .inr (mem_piece hb)
      · exact .inl (List.mem_of_mem_drop (hsuf.mem hb))
  have hheld : ∀ x, Held a.data x ↔ Held (a.data.take i) x ∨ Held (a.data.drop i) x := by
    intro x
    conv_lhs => rw [← hsplit]
    exact held_append
  have hfewer : totalAlloc (a.data.take i) + totalAlloc rest < 2 ^ 64 := by
    obtain ⟨gone, hgone⟩ := hsuf
    have := ha.allocated_lt
    rw [hall, ← hgone, totalAlloc_append] at this
    omega
  rw [← hbuf, ← hall] at e
  refine ⟨_, place_piece hsplit.symm hne hpre (fun b hb => insertAt_drop ha.segs hb) e hfewer,
    ⟨?_, ?_, ?_, ?_, ?_, ha.read_le⟩, rfl, rfl, fun x => ?_, fun S hA hS => ?_⟩
  · exact segsFrom_append.mpr ⟨hs1, hnew.mono hread, fun b hb => hnew.mono (hpre b hb)⟩
  · simp only [totalLen_append]
    omega
  · simp only [totalAlloc_append]
    omega
  · intro b hb
    rcases hmem b hb with hb | rfl
    · exact ha.alloc b hb
    · simp only [Buffer.new, hklen]
      omega
  · intro b hb
    rcases hmem b hb with hb | rfl
    · exact ha.le_end b hb
    · simp only [Buffer.bufEnd, Buffer.new, hklen]
      omega
  · -- the piece ends where the segments that are left begin
    dsimp only
    rw [held_append, held_append, hheld, held_piece, hklen]
    constructor
    · rintro (h | h | h)
      · exact .inl (.inl h)
      · exact .inr ⟨h.1, by omega⟩
      · obtain ⟨b, hb, hx⟩ := h
        exact .inl (.inr ⟨b, hsuf.mem hb, hx⟩)
    · rintro ((h | h) | h)
      · exact .inl h
      · exact .inr ((hk4 x h).symm)
      · by_cases hx : x < offset + k
        · exact .inr (.inl ⟨h.1, hx⟩)
        · exact .inr (.inr (hk5 x (by omega) h.2))
  · intro b hb
    rcases hmem b hb with hb | rfl
    · exact hA b hb
    · exact take_slice hS

theorem WF.without {a : Assembler} (ha : a.WF) {pre rest : List Buffer} {c : Buffer}
    (hd : a.data = pre ++ c :: rest) : (a.without pre c rest).WF := by
  have hs := ha.segs
  rw [hd] at hs
  obtain ⟨h1, ⟨h2, h3, h4⟩, h5⟩ := segsFrom_append.mp hs
  have hc := bufEnd_gt h3
  have hmem : ∀ b ∈ pre ++ rest, b ∈ a.data := by
    intro b hb
    rw [hd]
    rcases List.mem_append.mp hb with hb | hb
    · exact List.mem_append_left _ hb
    · exact List.mem_append_right _ (List.mem_cons_of_mem _ hb)
  refine ⟨⟨segsFrom_append.mpr ⟨h1, h4.mono (show a.bytesRead ≤ _ by omega), fun b hb => (h5 b hb).2.2.mono ?_⟩, ?_, ?_,
    fun b hb => ha.alloc b (hmem b hb), fun b hb => ha.le_end b (hmem b hb), ha.read_le⟩,
    (Nat.sub_le _ _).trans_lt ha.allocated_lt⟩
  · have := (h5 b hb).1
    omega
  · simp only [Assembler.without, ha.buffered, hd, totalLen_append, totalLen_cons]
    omega
  · simp only [Assembler.without, ha.allocated, hd, totalAlloc_append, totalAlloc_cons]
    omega

/-- The other segments lie apart from the segment `c`. -/
theorem WF.others_apart {a : Assembler} (ha : a.WF) {pre rest : List Buffer} {c : Buffer}
    (hd : a.data = pre ++ c :: rest) : ∀ b ∈ pre ++ rest, b.bufEnd ≤ c.offset ∨ c.bufEnd ≤ b.offset := by
  have hs := ha.segs
  rw [hd] at hs
  obtain ⟨-, ⟨-, -, h4⟩, h5⟩ := segsFrom_append.mp hs
  intro b hb
  rcases List.mem_append.mp hb with hb | hb
  · exact .inl (h5 b hb).1
  · exact .inr (h4.le_of_mem b hb).1

section Straddle

variable {a : Assembler} (ha : a.WF) {pre rest : List Buffer} {c : Buffer} (hd : a.data = pre ++ c :: rest)
  {offset : ℕ} (allocationSize : ℕ) {bytes : Bytes} (hne : bytes ≠ []) (h1 : c.offset < offset)
include ha hd h1

/-- The segments before one that begins before `offset` and ends after it, and those after it. -/
theorem straddle_split (h2 : offset < c.bufEnd) :
    (∀ b ∈ pre, b.bufEnd ≤ offset) ∧ ∀ b ∈ rest, offset < b.bufEnd := by
  have hs := ha.segs
  rw [hd] at hs
  obtain ⟨-, ⟨-, h3, h4⟩, h5⟩ := segsFrom_append.mp hs
  refine ⟨fun b hb => ?_, fun b hb => ?_⟩
  · have := (h5 b hb).1
    omega
  · have := h4.le_of_mem b hb
    omega

include hne

/-- **A new segment that begins inside a buffered one and reaches its end** removes it as a whole, as if it
had never been there. -/
theorem place_covered (h2 : offset < c.bufEnd) (h3 : c.bufEnd ≤ offset + bytes.length) :
    a.place offset bytes allocationSize = (a.without pre c rest).place offset bytes allocationSize := by
  obtain ⟨hpre, hrest⟩ := straddle_split ha hd h1 h2
  have hcrest : ∀ b ∈ c :: rest, offset < b.bufEnd := List.forall_mem_cons.mpr ⟨h2, hrest⟩
  have hbuf := ha.buffered
  have hall := ha.allocated
  rw [hd, totalLen_append, totalLen_cons] at hbuf
  rw [hd, totalAlloc_append, totalAlloc_cons] at hall
  rw [place_at hd hne hpre hcrest, place_at rfl hne hpre hrest, dropCovered, if_neg (by omega), if_pos h3,
    Checked.sub_of_le (by omega), Checked.ok_bind, Checked.sub_of_le (by omega), Checked.ok_bind]
  rfl

/-- **A new segment that lies inside a buffered one** which begins before it makes `place` panic. -/
theorem place_inside (h3 : offset + bytes.length < c.bufEnd) :
    a.place offset bytes allocationSize = .error .overflow := by
  obtain ⟨hpre, hrest⟩ := straddle_split ha hd h1 (by omega)
  have hcrest : ∀ b ∈ c :: rest, offset < b.bufEnd := List.forall_mem_cons.mpr ⟨by omega, hrest⟩
  rw [place_at hd hne hpre hcrest, dropCovered, if_neg (by omega), if_neg (by omega), Checked.sub,
    if_neg (by omega)]
  rfl

/-- **A new segment that begins inside a buffered one**: if `place` returns at all, it removes the
buffered one as a whole, as if it had never been there. -/
theorem place_straddle {a' : Assembler} (h2 : offset < c.bufEnd)
    (h : a.place offset bytes allocationSize = .ok a') :
    (a.without pre c rest).place offset bytes allocationSize = .ok a' := by
  by_cases h3 : c.bufEnd ≤ offset + bytes.length
  · rw [← place_covered ha hd allocationSize hne h1 h2 h3]
    exact h
  · rw [place_inside ha hd allocationSize hne h1 (by omega)] at h
    cases h

end Straddle

theorem WF.grow {a : Assembler} (ha : a.WF) (n : ℕ) : ({ a with «end» := max a.end n } : Assembler).WF :=
  ⟨⟨ha.segs, ha.buffered, ha.allocated, ha.alloc, fun b hb => (ha.le_end b hb).trans (le_max_left _ _),
    ha.read_le.trans (le_max_left _ _)⟩, ha.allocated_lt⟩

/-- `insert` returns only if the frame is allocated in full. -/
theorem insert_len_le {a a' : Assembler} {offset allocationSize : ℕ} {bytes : Bytes}
    (h : a.insert offset bytes allocationSize = .ok a') : bytes.length ≤ allocationSize := by
  obtain ⟨u, hu, -⟩ := Checked.bind_eq_ok.mp h
  exact Checked.assert_eq_ok.mp hu

/-- A frame with nothing unread in it only moves the end. -/
theorem insert_of_read {a : Assembler} {offset allocationSize : ℕ} {bytes : Bytes}
    (hal : bytes.length ≤ allocationSize)
    (h : ¬ (bytes ≠ [] ∧ a.bytesRead < offset + bytes.length)) :
    a.insert offset bytes allocationSize =
      .ok { a with «end» := max a.end (offset + bytes.length) } := by
  unfold insert
  rw [Checked.assert_of hal, Checked.ok_bind]
  by_cases hne : bytes = []
  · exact if_pos (by simp [hne])
  · rw [if_neg (by simpa using hne)]
    exact if_pos (Nat.le_of_not_lt fun hlt => h ⟨hne, hlt⟩)

/-- Any other frame is trimmed and put in its place. -/
theorem insert_eq_place {a : Assembler} {offset allocationSize : ℕ} {bytes : Bytes}
    (hal : bytes.length ≤ allocationSize) (hne : bytes ≠ [])
    (hread : a.bytesRead < offset + bytes.length) :
    bytes.drop (a.bytesRead - offset) ≠ [] ∧ a.insert offset bytes allocationSize =
      ({ a with «end» := max a.end (offset + bytes.length) } : Assembler).place
        (max offset a.bytesRead) (bytes.drop (a.bytesRead - offset)) allocationSize := by
  have hpos := List.length_pos_iff.mpr hne
  have htrim : trimTo a.bytesRead offset bytes =
      some (max offset a.bytesRead, bytes.drop (a.bytesRead - offset)) := trimTo_of_lt hread
  have hne' : bytes.drop (a.bytesRead - offset) ≠ [] := by
    intro h
    have := congrArg List.length h
    rw [List.length_drop, List.length_nil] at this
    omega
  refine ⟨hne', ?_⟩
  unfold insert
  rw [Checked.assert_of hal, Checked.ok_bind, if_neg (by simpa using hne),
    if_neg (Nat.not_le.mpr hread)]
  simp only [htrim]
  rw [if_neg (by simpa using hne')]

/-- **`insert` adds exactly the unread offsets of the frame**, if no buffered segment contains the
first of them in its inside and the counter of what is allocated stays in range. -/
theorem insert_spec {a : Assembler} (ha : a.WF) {offset : ℕ} {bytes : Bytes} {allocationSize : ℕ}
    (hal : bytes.length ≤ allocationSize) (hap : a.Apart offset bytes) :
    ∃ a' : Assembler, a.insert offset bytes allocationSize = a'.checked ∧ a'.Shape ∧ a'.bytesRead = a.bytesRead ∧
      a'.end = max a.end (offset + bytes.length) ∧
      (∀ x, Held a'.data x ↔ Held a.data x ∨
        (max offset a.bytesRead ≤ x ∧ x < offset + bytes.length)) ∧
      ∀ S : Bytes, Agrees S a.data → bytes = (S.drop offset).take bytes.length →
        Agrees S a'.data := by
  have hwf := ha.grow (offset + bytes.length)
  by_cases hnew : bytes ≠ [] ∧ a.bytesRead < offset + bytes.length
  · obtain ⟨hne', e⟩ := insert_eq_place hal hnew.1 hnew.2
    rw [e]
    have hstop := unread_end hnew.2
    obtain ⟨a', e, h1, h2, h3, h4, h5⟩ := place_spec hwf hne' (le_max_right offset a.bytesRead)
      (by rw [hstop]; exact le_max_right _ _) (show _ ≤ allocationSize by omega) (hap hnew.1 hnew.2)
    rw [hstop] at h4
    exact ⟨a', e, h1, h2, h3, h4, fun S hA hS => h5 S hA (unread_slice a.bytesRead hS)⟩
  · refine ⟨_, (insert_of_read hal hnew).trans (checked_eq_ok.mpr ⟨hwf.allocated_lt, rfl⟩).symm, hwf.toShape, rfl, rfl,
      fun x => ⟨.inl, fun h => h.elim id fun h => ?_⟩, fun S hA _ => hA⟩
    refine absurd ⟨fun hnil => ?_, by omega⟩ hnew
    rw [hnil, List.length_nil] at h
    omega

/-- **What `insert` does whenever it returns**: the unread offsets of the frame are added, or it
begins inside a buffered segment and that segment is lost. -/
theorem insert_ok {a a' : Assembler} (ha : a.WF) {offset : ℕ} {bytes : Bytes} {allocationSize : ℕ}
    (h : a.insert offset bytes allocationSize = .ok a') :
    a'.WF ∧ a'.bytesRead = a.bytesRead ∧
      (∀ S : Bytes, Agrees S a.data → bytes = (S.drop offset).take bytes.length → Agrees S a'.data) ∧
      ((a.Apart offset bytes ∧ ∀ x, Held a'.data x ↔ Held a.data x ∨
        (max offset a.bytesRead ≤ x ∧ x < offset + bytes.length)) ∨
      ∃ c ∈ a.data, (c.offset < max offset a.bytesRead ∧ max offset a.bytesRead < c.bufEnd) ∧
        ∀ x, Held a'.data x → (Held a.data x ∧ ¬ (c.offset ≤ x ∧ x < c.bufEnd)) ∨
          (max offset a.bytesRead ≤ x ∧ x < offset + bytes.length)) := by
  have hal := insert_len_le h
  by_cases hap : a.Apart offset bytes
  · obtain ⟨a₁, e, h1, h2, -, h4, h5⟩ := insert_spec ha hal hap
    rw [e] at h
    obtain ⟨hlt, rfl⟩ := checked_eq_ok.mp h
    exact ⟨⟨h1, hlt⟩, h2, h5, .inl ⟨hap, h4⟩⟩
  · obtain ⟨hne, hread, c, hc, hin⟩ : bytes ≠ [] ∧ a.bytesRead < offset + bytes.length ∧ ∃ c ∈ a.data,
        c.offset < max offset a.bytesRead ∧ max offset a.bytesRead < c.bufEnd := by
      simpa [Apart] using hap
    obtain ⟨hne', e⟩ := insert_eq_place hal hne hread
    have hstop := unread_end hread
    obtain ⟨pre, rest, hd⟩ := List.append_of_mem hc
    have hwf := ha.grow (offset + bytes.length)
    rw [e] at h
    have hwo := hwf.without hd
    have hnot := ha.others_apart hd
    obtain ⟨a₁, e₁, h1, h2, -, h4, h5⟩ := place_spec hwo hne'
      (show (Assembler.without _ pre c rest).bytesRead ≤ max offset a.bytesRead from le_max_right _ _)
      (by rw [hstop]; exact le_max_right _ _) (show _ ≤ allocationSize by omega) (fun b hb hx => by
        have := hnot b hb
        omega)
    rw [place_straddle hwf hd allocationSize hne' hin.1 hin.2 h] at e₁
    obtain ⟨hlt, rfl⟩ := checked_eq_ok.mp e₁.symm
    have hsub : ∀ b ∈ pre ++ rest, b ∈ a.data := by
      intro b hb
      rw [hd]
      rcases List.mem_append.mp hb with hb | hb
      · exact List.mem_append_left _ hb
      · exact List.mem_append_right _ (List.mem_cons_of_mem _ hb)
    refine ⟨⟨h1, hlt⟩, h2, fun S hA hS => h5 S (fun b hb => hA b (hsub b hb)) (unread_slice a.bytesRead hS),
      .inr ⟨c, hc, hin, fun x hx => ?_⟩⟩
    rw [h4, hstop] at hx
    rcases hx with ⟨b, hb, hxb⟩ | hx
    · have := hnot b hb
      exact .inl ⟨⟨b, hsub b hb, hxb⟩, by omega⟩
    · exact .inr hx

theorem place_state {a a' : Assembler} {offset allocationSize : ℕ} {bytes : Bytes}
    (h : a.place offset bytes allocationSize = .ok a') : a'.state = a.state := by
  unfold place at h
  dsimp only at h
  split at h
  · cases h; rfl
  · obtain ⟨⟨rest, bytes, buffered, allocated⟩, -, h⟩ := Checked.bind_eq_ok.mp h
    dsimp only at h
    split_ifs at h
    · cases h
      rfl
    · obtain ⟨n, -, h⟩ := Checked.bind_eq_ok.mp h
      cases h
      rfl

theorem insert_state {a a' : Assembler} {offset allocationSize : ℕ} {bytes : Bytes}
    (h : a.insert offset bytes allocationSize = .ok a') : a'.state = a.state := by
  have hal := insert_len_le h
  by_cases hnew : bytes ≠ [] ∧ a.bytesRead < offset + bytes.length
  · rw [(insert_eq_place hal hnew.1 hnew.2).2] at h
    rw [place_state h]
  · rw [insert_of_read hal hnew] at h
    cases h
    rfl

/-- A segment without its first `n` bytes. -/
def skip (b : Buffer) (n : ℕ) : Buffer := { b with offset := b.offset + n, bytes := b.bytes.drop n }

theorem skip_bufEnd {b : Buffer} {n : ℕ} (h : n ≤ b.bytes.length) : (skip b n).bufEnd = b.bufEnd := by
  simp only [skip, Buffer.bufEnd, List.length_drop]
  omega

section Read

variable {a : Assembler} {chunk : Buffer} {rest : List Buffer} {n : ℕ}

/-- What is left of the front segment after its first bytes were read. -/
theorem WF.skip_front (ha : a.WF) (hd : a.data = chunk :: rest) (hoff : chunk.offset = a.bytesRead)
    (hlt : n < chunk.bytes.length) : WF { a with
      bytesRead := a.bytesRead + n, buffered := a.buffered - n, data := skip chunk n :: rest } := by
  obtain ⟨h1, h2, h3⟩ : SegsFrom a.bytesRead (chunk :: rest) := hd ▸ ha.segs
  have hchunk : chunk ∈ a.data := by rw [hd]; exact List.mem_cons_self
  have hrest : ∀ b ∈ rest, b ∈ a.data := fun b hb => by rw [hd]; exact List.mem_cons_of_mem chunk hb
  have hend := skip_bufEnd hlt.le
  have hne : (skip chunk n).bytes ≠ [] := by
    rw [← List.length_pos_iff]
    simp only [skip, List.length_drop]
    omega
  have hcut : (skip chunk n).bytes.length = chunk.bytes.length - n := List.length_drop
  refine ⟨⟨⟨by simp only [skip]; omega, hne, by rw [hend]; exact h3⟩, ?_, ?_, ?_, ?_, ?_⟩, ha.allocated_lt⟩
  · have := ha.buffered
    rw [hd] at this
    simp only [totalLen_cons, hcut] at this ⊢
    omega
  · rw [totalAlloc_cons, ha.allocated, hd, totalAlloc_cons]
    rfl
  · intro b hb
    rcases List.mem_cons.mp hb with rfl | hb
    · exact hcut.le.trans ((Nat.sub_le _ _).trans (ha.alloc chunk hchunk))
    · exact ha.alloc b (hrest b hb)
  · intro b hb
    rcases List.mem_cons.mp hb with rfl | hb
    · exact hend.le.trans (ha.le_end chunk hchunk)
    · exact ha.le_end b (hrest b hb)
  · have hle : chunk.offset + chunk.bytes.length ≤ a.end := ha.le_end chunk hchunk
    dsimp only
    omega

/-- What is left after the front segment was read as a whole. -/
theorem WF.drop_front (ha : a.WF) (hd : a.data = chunk :: rest) (hoff : chunk.offset = a.bytesRead) : WF { a with
      bytesRead := a.bytesRead + chunk.bytes.length
      buffered := a.buffered - chunk.bytes.length
      allocated := a.allocated - chunk.allocationSize
      data := rest } := by
  obtain ⟨h1, h2, h3⟩ : SegsFrom a.bytesRead (chunk :: rest) := hd ▸ ha.segs
  have hrest : ∀ b ∈ rest, b ∈ a.data := fun b hb => by rw [hd]; exact List.mem_cons_of_mem chunk hb
  refine ⟨⟨?_, ?_, ?_, fun b hb => ha.alloc b (hrest b hb), fun b hb => ha.le_end b (hrest b hb), ?_⟩,
    (Nat.sub_le _ _).trans_lt ha.allocated_lt⟩
  · rw [Buffer.bufEnd, hoff] at h3
    exact h3
  · dsimp only
    rw [ha.buffered, hd, totalLen_cons, Nat.add_sub_cancel_left]
  · dsimp only
    rw [ha.allocated, hd, totalAlloc_cons, Nat.add_sub_cancel_left]
  · have hle : chunk.offset + chunk.bytes.length ≤ a.end := ha.le_end chunk (by rw [hd]; exact List.mem_cons_self)
    dsimp only
    omega

end Read

/-- **`read`** either finds the next byte missing, and changes nothing, or releases the next bytes
of the stream, at most `maxLength` of them and at least one if `maxLength ≥ 1`. -/
theorem read_spec {a : Assembler} (ha : a.WF) (maxLength : ℕ) :
    (a.read maxLength true = .ok (none, a) ∧ ¬ Held a.data a.bytesRead) ∨
    ∃ c a', a.read maxLength true = .ok (some c, a') ∧ a'.WF ∧ c.offset = a.bytesRead ∧
      a'.bytesRead = a.bytesRead + c.bytes.length ∧ a'.end = a.end ∧
      a.buffered = a'.buffered + c.bytes.length ∧ c.bytes.length ≤ maxLength ∧
      (1 ≤ maxLength → c.bytes ≠ []) ∧
      (∀ x, Held a.data x ↔ (a.bytesRead ≤ x ∧ x < a'.bytesRead) ∨ Held a'.data x) ∧
      ∀ S : Bytes, Agrees S a.data → Agrees S a'.data ∧
        c.bytes = (S.drop a.bytesRead).take c.bytes.length := by
  unfold read
  rw [if_neg (by simp)]
  have hsegs := ha.segs
  cases hd : a.data with
  | nil => exact .inl ⟨rfl, held_nil _⟩
  | cons chunk rest =>
      rw [hd] at hsegs
      obtain ⟨h1, h2, h3⟩ := hsegs
      have hb := bufEnd_gt h2
      have hbuf : a.buffered = chunk.bytes.length + totalLen rest := by rw [ha.buffered, hd, totalLen_cons]
      have hall : a.allocated = chunk.allocationSize + totalAlloc rest := by
        rw [ha.allocated, hd, totalAlloc_cons]
      by_cases hoff : chunk.offset ≠ a.bytesRead
      · refine .inl ⟨if_pos hoff, fun h => ?_⟩
        rcases held_cons.mp h with h | h
        · omega
        · have := h3.le_of_held h; omega
      · right
        have hoff' : chunk.offset = a.bytesRead := by simpa using hoff
        dsimp only
        rw [if_neg hoff]
        have hend : chunk.bufEnd = a.bytesRead + chunk.bytes.length := by rw [Buffer.bufEnd, hoff']
        by_cases hlt : maxLength < chunk.bytes.length
        · rw [if_pos hlt, Checked.sub_of_le (by omega), Checked.ok_bind]
          have htl : (chunk.bytes.take maxLength).length = maxLength := by rw [List.length_take]; omega
          have hskip := skip_bufEnd hlt.le
          refine ⟨_, _, rfl, ha.skip_front hd hoff' hlt, hoff', ?_, rfl, ?_, by rw [htl], fun h1 => ?_, fun x => ?_,
            fun S hA => ⟨fun b hb => ?_, ?_⟩⟩
          · dsimp only; rw [htl]
          · dsimp only; rw [htl]; omega
          · rw [← List.length_pos_iff, htl]
            exact h1
          · have hstart : (skip chunk maxLength).offset = a.bytesRead + maxLength := by rw [← hoff']; rfl
            show Held (chunk :: rest) x ↔ _ ∨ Held (skip chunk maxLength :: rest) x
            rw [held_cons, held_cons, hskip, hstart, hend, hoff']
            dsimp only
            constructor
            · rintro (h | h)
              · by_cases hx : x < a.bytesRead + maxLength
                · exact .inl ⟨h.1, hx⟩
                · exact .inr (.inl ⟨by omega, h.2⟩)
              · exact .inr (.inr h)
            · rintro (h | h | h)
              · exact .inl ⟨h.1, by omega⟩
              · exact .inl ⟨by omega, h.2⟩
              · exact .inr h
          · rcases List.mem_cons.mp hb with rfl | hb
            · exact drop_slice (hA chunk List.mem_cons_self)
            · exact hA b (List.mem_cons_of_mem chunk hb)
          · rw [← hoff']; exact take_slice (hA chunk List.mem_cons_self)
        · rw [if_neg hlt, Checked.sub_of_le (by omega), Checked.ok_bind, Checked.sub_of_le (by omega),
            Checked.ok_bind]
          refine ⟨_, _, rfl, ha.drop_front hd hoff', hoff', rfl, rfl, ?_, Nat.le_of_not_lt hlt, fun _ => h2,
            fun x => ?_, fun S hA => ⟨fun b hb => hA b (List.mem_cons_of_mem chunk hb), ?_⟩⟩
          · dsimp only; omega
          · rw [held_cons]; dsimp only; rw [hend, hoff']
          · dsimp only; rw [← hoff']; exact hA chunk List.mem_cons_self

end Assembler

end MzQuic
