import MzQuic.Proto.Frame
import MzQuic.Proto.Packet

/-!
# The wire format, and what the decoder does with arbitrary bytes

The layout of frames as a table of fields, independent of the reader: `frameEnd b` is what follows
the first frame of `b`, if `b` begins with a well-formed one.

* `varint?`, `Field`, `layout`, `ackEnd`, `ncidEnd`, `frameEnd`; `Reaches b s`: well-formed frames
  lead from `b` to `s`;
* `frameBody_skips`: the reader follows the table;
* `LongCidHeader`, `LongCidFrame`: a connection id with a length byte above 20 is met;
* **`decoder_total_iff`**: the decoder never panics, and the iteration of the frames ends as it
  should, exactly if neither is met.
-/

namespace MzQuic

open Lib Lib.Get

/-! ## Layout -/

/-- The variable-length integer at the start of `b`, and the rest. -/
def varint? : Bytes → Option (ℕ × Bytes)
  | [] => none
  | x :: b =>
    let n := 2 ^ (x.toNat / 64)
    if n ≤ (x :: b).length then
      some (beNat ((x :: b).take n) % 2 ^ (8 * n - 2), (x :: b).drop n)
    else none

/-- A field of a frame: an integer, a byte string with its length, a fixed number of bytes, or
everything up to the end. -/
inductive Field
  | varint
  | bytes
  | fixed (n : ℕ)
  | rest
  deriving DecidableEq

/-- What follows the field. -/
def Field.skip : Field → Bytes → Option Bytes
  | .varint, b => (varint? b).map Prod.snd
  | .bytes, b => (varint? b).bind fun p => if p.1 ≤ p.2.length then some (p.2.drop p.1) else none
  | .fixed n, b => if n ≤ b.length then some (b.drop n) else none
  | .rest, _ => some []

/-- What follows the fields. -/
def skipAll : List Field → Bytes → Option Bytes
  | [], b => some b
  | f :: fs, b => (f.skip b).bind (skipAll fs)

/-- The fields after the type, for the types whose fields do not depend on each other. -/
def layout : ℕ → Option (List Field)
  | 0x00 | 0x01 | 0x1e | 0x1f => some []
  | 0x04 => some [.varint, .varint, .varint]
  | 0x05 => some [.varint, .varint]
  | 0x06 => some [.varint, .bytes]
  | 0x07 => some [.bytes]
  | 0x08 | 0x09 => some [.varint, .rest]
  | 0x0a | 0x0b => some [.varint, .bytes]
  | 0x0c | 0x0d => some [.varint, .varint, .rest]
  | 0x0e | 0x0f => some [.varint, .varint, .bytes]
  | 0x10 | 0x12 | 0x13 | 0x14 | 0x16 | 0x17 | 0x19 => some [.varint]
  | 0x11 | 0x15 => some [.varint, .varint]
  | 0x1a | 0x1b => some [.fixed 8]
  | 0x1c => some [.varint, .varint, .bytes]
  | 0x1d => some [.varint, .bytes]
  | 0x30 => some [.rest]
  | 0x31 => some [.bytes]
  | _ => none

/-- `n` further blocks of an ACK frame, below `smallest`. -/
def blocksEnd : ℕ → ℕ → Bytes → Option Bytes
  | _, 0 => some
  | smallest, n + 1 =>
    follow varint? fun gap => require (gap + 2 ≤ smallest) <|
      follow varint? fun block => require (block ≤ smallest - (gap + 2)) <|
        blocksEnd (smallest - (gap + 2) - block) n

/-- The blocks of an ACK frame, from `largest` down. -/
def scanEnd (largest n : ℕ) : Bytes → Option Bytes :=
  follow varint? fun block => require (block ≤ largest) <| blocksEnd (largest - block) n

/-- The fields of an ACK frame: largest, delay, number of further blocks, blocks, counts. -/
def ackEnd (counts : List Field) : Bytes → Option Bytes :=
  follow varint? fun largest => follow varint? fun _ => follow varint? fun n b =>
    (scanEnd largest n b).bind (skipAll counts)

/-- The first byte. -/
def byte? : Bytes → Option (ℕ × Bytes)
  | [] => none
  | x :: b => some (x.toNat, b)

/-- The id and the token of a NEW_CONNECTION_ID frame. -/
def cidEnd (len : ℕ) : Bytes → Option Bytes :=
  require (len ≠ 0 ∧ len ≤ maxCidSize) <| skipAll [.fixed len, .fixed resetTokenSize]

/-- The fields of a NEW_CONNECTION_ID frame. -/
def ncidEnd : Bytes → Option Bytes :=
  follow varint? fun sequence => follow varint? fun retirePriorTo =>
    require (retirePriorTo ≤ sequence) <| follow byte? cidEnd

/-- The fields of a frame of type `ty`. -/
def bodyEnd (ty : ℕ) : Bytes → Option Bytes :=
  if ty = 0x02 then ackEnd []
  else if ty = 0x03 then ackEnd [.varint, .varint, .varint]
  else if ty = 0x18 then ncidEnd
  else fun b => (layout ty).bind fun fs => skipAll fs b

/-- What follows the first frame, if it is well formed. -/
def frameEnd : Bytes → Option Bytes := follow varint? bodyEnd

/-- Well-formed frames lead from `b` to `s`. -/
inductive Reaches : Bytes → Bytes → Prop
  | refl (b : Bytes) : Reaches b b
  | step {b b' s : Bytes} (h : frameEnd b = some b') (hs : Reaches b' s) : Reaches b s

/-- The fields of a NEW_CONNECTION_ID frame are well formed up to the length byte of the id, which
is above 20. -/
def LongCid (b : Bytes) : Prop :=
  ∃ sequence b₁ retirePriorTo b₂ len b₃, varint? b = some (sequence, b₁) ∧
    varint? b₁ = some (retirePriorTo, b₂) ∧ retirePriorTo ≤ sequence ∧
    byte? b₂ = some (len, b₃) ∧ maxCidSize < len

/-- `b` begins with such a NEW_CONNECTION_ID frame. -/
def LongCidFrame (b : Bytes) : Prop := ∃ b', varint? b = some (0x18, b') ∧ LongCid b'

/-- `b` has the fixed bit set, the long form and clear reserved bits, and the length byte of its
destination id, or that of its source id after the destination id, is above 20. -/
def LongCidHeader (b : Bytes) : Prop :=
  ∃ first l, b[0]? = some first ∧ first &&& fixedBit ≠ 0 ∧ first &&& longHeaderForm ≠ 0 ∧
    first &&& longReservedBits = 0 ∧ b[5]? = some l ∧
    (maxCidSize < l.toNat ∨ ∃ m : UInt8, b[6 + l.toNat]? = some m ∧ maxCidSize < m.toNat)

/-! ## The reader follows the layout -/

section Skips

theorem reads_tryGetVarint : Reads tryGetVarint varint? := by
  intro b
  cases b with
  | nil => exact ⟨_, _, tryGetVarint_nil⟩
  | cons x b =>
      rw [tryGetVarint_eq, varintParseLen_eq]
      unfold varint?
      dsimp only
      by_cases h : 2 ^ (x.toNat / 64) ≤ (x :: b).length
      · simp only [if_pos h]
      · simp only [if_neg h]
        exact ⟨_, _, rfl⟩

theorem reads_getVarint : Reads getVarint varint? := reads_tryGetVarint.mapError

theorem skips_slice {ε : Type} (g : TryGetError → ε) (n : ℕ) :
    Skips (Get.mapError g (Get.tryGetSlice n)) (Field.fixed n).skip := by
  intro b
  by_cases h : n ≤ b.length
  · exact .of_some (if_pos h) (by simp only [Get.mapError, Get.tryGetSlice, if_pos h]; rfl)
  · exact .of_none (if_neg h) (by simp only [Get.mapError, Get.tryGetSlice, if_neg h]; rfl)

theorem skips_uint {ε : Type} (g : TryGetError → ε) (n : ℕ) :
    Skips (Get.mapError g (Get.tryGetUint n)) (Field.fixed n).skip := by
  intro b
  by_cases h : n ≤ b.length
  · exact .of_some (if_pos h) (by simp only [Get.mapError, Get.tryGetUint, if_pos h]; rfl)
  · exact .of_none (if_neg h) (by simp only [Get.mapError, Get.tryGetUint, if_neg h]; rfl)

variable {α β : Type}

/-- A reader of one field and then of the others. -/
theorem skips_cons {x : Get FrameParseError α} {f : α → Get FrameParseError β} {d : Field}
    {ds : List Field} (hx : Skips x d.skip) (hf : ∀ a, Skips (f a) (skipAll ds)) :
    Skips (x >>= f) (skipAll (d :: ds)) := hx.bind hf

theorem skips_varint : Skips getVarint Field.varint.skip := reads_getVarint.skips

theorem skips_takeAll : Skips (Get.takeAll : Get FrameParseError Bytes) Field.rest.skip :=
  fun b => ⟨b, rfl⟩

theorem skips_bytes : Skips getBytes Field.bytes.skip := by
  unfold getBytes tryGetBytesWithVarintLength
  rw [mapError_bind]
  exact reads_getVarint.bind fun n => skips_slice _ n

/-- The reader of every type in the table takes the fields in the table. -/
theorem frameBody_skips {ty : ℕ} {fs : List Field} (h : layout ty = some fs) :
    Skips (frameBody ⟨ty⟩) (skipAll fs) := by
  have V {f : ℕ → Get FrameParseError Frame} {ds : List Field} (hf : ∀ a, Skips (f a) (skipAll ds)) :
      Skips (getVarint >>= f) (skipAll (.varint :: ds)) := skips_cons skips_varint hf
  have B {f : Bytes → Get FrameParseError Frame} {ds : List Field}
      (hf : ∀ a, Skips (f a) (skipAll ds)) :
      Skips (getBytes >>= f) (skipAll (.bytes :: ds)) := skips_cons skips_bytes hf
  have R {f : Bytes → Get FrameParseError Frame} {ds : List Field}
      (hf : ∀ a, Skips (f a) (skipAll ds)) :
      Skips (Get.takeAll >>= f) (skipAll (.rest :: ds)) := skips_cons skips_takeAll hf
  have U {f : ℕ → Get FrameParseError Frame} {ds : List Field} (hf : ∀ a, Skips (f a) (skipAll ds)) :
      Skips (getU64 >>= f) (skipAll (.fixed 8 :: ds)) := skips_cons (skips_uint _ 8) hf
  have E (x : Frame) : Skips (pure x : Get FrameParseError Frame) (skipAll []) := Skips.pure x
  unfold layout at h
  split at h <;> cases h
  · exact E _
  · exact E _
  · exact E _
  · exact E _
  · exact V fun _ => V fun _ => V fun _ => E _
  · exact V fun _ => V fun _ => E _
  · exact V fun _ => B fun _ => E _
  · exact B fun _ => E _
  · exact V fun _ => R fun _ => E _
  · exact V fun _ => R fun _ => E _
  · exact V fun _ => B fun _ => E _
  · exact V fun _ => B fun _ => E _
  · exact V fun _ => V fun _ => R fun _ => E _
  · exact V fun _ => V fun _ => R fun _ => E _
  · exact V fun _ => V fun _ => B fun _ => E _
  · exact V fun _ => V fun _ => B fun _ => E _
  · exact V fun _ => E _
  · exact V fun _ => E _
  · exact V fun _ => E _
  · exact V fun _ => E _
  · exact V fun _ => E _
  · exact V fun _ => E _
  · exact V fun _ => E _
  · exact V fun _ => V fun _ => E _
  · exact V fun _ => V fun _ => E _
  · exact U fun _ => E _
  · exact U fun _ => E _
  · exact V fun _ => V fun _ => B fun _ => E _
  · exact V fun _ => B fun _ => E _
  · exact R fun _ => E _
  · exact B fun _ => E _

/-- Types that are not in the table, and have no layout of their own, are invalid. -/
theorem frameBody_invalid {ty : ℕ} (h : layout ty = none) (h2 : ty ≠ 0x02) (h3 : ty ≠ 0x03)
    (h18 : ty ≠ 0x18) : frameBody ⟨ty⟩ = Get.fail .invalidFrameId := by
  have hs : (FrameType.mk ty).stream = none := by
    refine if_neg fun ⟨h1, h2⟩ => ?_
    simp only [streamTysStart] at h1 h2
    interval_cases ty <;> cases h
  have hd : (FrameType.mk ty).datagram = none := by
    refine if_neg fun ⟨h1, h2⟩ => ?_
    simp only at h1 h2
    interval_cases ty <;> cases h
  unfold frameBody
  split
  all_goals first
    | rw [hs, hd]
    | rename_i heq
      cases heq
      first
        | exact absurd rfl h2
        | exact absurd rfl h3
        | exact absurd rfl h18
        | cases h

theorem skips_checkedSub (x y : ℕ) {f : ℕ → Get FrameParseError α} {t : Bytes → Option Bytes}
    (hf : Skips (f (x - y)) t) :
    Skips (checkedSub x y >>= f) (require (y ≤ x) t) := by
  intro b
  unfold checkedSub
  by_cases h : y ≤ x
  · rw [if_pos h]
    exact (hf b).of_eq (if_pos h) rfl
  · rw [if_neg h]
    exact .of_none (if_neg h) rfl

theorem skips_scanBlocks (smallest n : ℕ) : Skips (scanBlocks smallest n) (blocksEnd smallest n) := by
  induction n generalizing smallest with
  | zero => exact Skips.pure ()
  | succ n ih =>
      exact reads_getVarint.bind fun gap => skips_checkedSub _ _
        (reads_getVarint.bind fun block => skips_checkedSub _ _ (ih _))

theorem skips_scanAll (largest n : ℕ) : Skips (scanAll largest n) (scanEnd largest n) :=
  reads_getVarint.bind fun _ => skips_checkedSub _ _ (skips_scanBlocks _ n)

theorem suffix_of_varint? {b b' : Bytes} {n : ℕ} (h : varint? b = some (n, b')) :
    b' <:+ b ∧ b'.length < b.length := by
  cases b with
  | nil => cases h
  | cons x b =>
      unfold varint? at h
      dsimp only at h
      split_ifs at h with hl
      cases h
      have : 1 ≤ 2 ^ (x.toNat / 64) := Nat.one_le_two_pow
      refine ⟨List.drop_suffix _ _, ?_⟩
      rw [List.length_drop]
      omega

theorem suffix_of_blocksEnd {smallest n : ℕ} {b b' : Bytes} (h : blocksEnd smallest n b = some b') :
    b' <:+ b := by
  induction n generalizing smallest b with
  | zero => cases h; exact List.suffix_refl _
  | succ n ih =>
      obtain ⟨p, hp, h⟩ := Option.bind_eq_some_iff.mp h
      obtain ⟨-, h⟩ := require_eq_some.mp h
      obtain ⟨q, hq, h⟩ := Option.bind_eq_some_iff.mp h
      obtain ⟨-, h⟩ := require_eq_some.mp h
      exact (ih h).trans ((suffix_of_varint? hq).1.trans (suffix_of_varint? hp).1)

theorem suffix_of_scanEnd {largest n : ℕ} {b b' : Bytes} (h : scanEnd largest n b = some b') :
    b' <:+ b := by
  obtain ⟨p, hp, h⟩ := Option.bind_eq_some_iff.mp h
  obtain ⟨-, h⟩ := require_eq_some.mp h
  exact (suffix_of_blocksEnd h).trans (suffix_of_varint? hp).1

/-- The scan accepts what the grammar accepts, and returns its length. -/
theorem scanAckBlocks_accepts {largest n : ℕ} {buf rest : Bytes} (h : scanEnd largest n buf = some rest) :
    ∃ pre, buf = pre ++ rest ∧ scanAckBlocks largest n buf = .ok (.ok pre.length, buf) := by
  obtain ⟨u, hb⟩ := (skips_scanAll largest n buf).returns h
  obtain ⟨pre, rfl⟩ := suffix_of_scanEnd h
  refine ⟨pre, rfl, ?_⟩
  simp only [scanAckBlocks, hb]
  rw [Checked.sub_of_le (by simp), List.length_append, Nat.add_sub_cancel]
  rfl

theorem scanAckBlocks_rejects {largest n : ℕ} {buf : Bytes} (h : scanEnd largest n buf = none) :
    ∃ e, scanAckBlocks largest n buf = .ok (.error e, buf) := by
  obtain ⟨e, b', hb⟩ := (skips_scanAll largest n buf).fails h
  exact ⟨e, by simp only [scanAckBlocks, hb]⟩

/-- Scanning the blocks and cutting them off leaves what follows the blocks. -/
theorem skips_scanAckBlocks (largest n : ℕ) {f : Bytes → Get FrameParseError α}
    {t : Bytes → Option Bytes} (hf : ∀ a, Skips (f a) t) :
    Skips (scanAckBlocks largest n >>= fun k => Get.splitTo k >>= f)
      fun b => (scanEnd largest n b).bind t := by
  intro b
  cases hs : scanEnd largest n b with
  | none =>
      obtain ⟨e, hb⟩ := scanAckBlocks_rejects hs
      exact .of_none (by rw [hs]; rfl) (bind_fail hb)
  | some b' =>
      obtain ⟨pre, rfl, h1⟩ := scanAckBlocks_accepts hs
      have h2 : (Get.splitTo pre.length : Get FrameParseError Bytes) (pre ++ b') =
          .ok (.ok pre, b') := by
        simp [Get.splitTo]
      refine (hf pre b').of_eq (by rw [hs, Option.bind_some]) ?_
      rw [bind_ok h1, bind_ok h2]

/-- The three ECN counts. -/
theorem skips_counts {f : Option EcnCounts → Get FrameParseError α} (hf : ∀ c, Skips (f c) some) :
    Skips ((do
      let ect0 ← getVarint
      let ect1 ← getVarint
      let ce ← getVarint
      return some ⟨ect0, ect1, ce⟩ : Get FrameParseError (Option EcnCounts)) >>= f)
      (skipAll [.varint, .varint, .varint]) := by
  rw [Get.bind_assoc]
  refine skips_cons skips_varint fun _ => ?_
  rw [Get.bind_assoc]
  refine skips_cons skips_varint fun _ => ?_
  rw [Get.bind_assoc]
  exact skips_cons skips_varint fun _ => hf _

theorem skips_ack : Skips (frameBody .ack) (ackEnd []) :=
  reads_getVarint.bind fun _ => reads_getVarint.bind fun _ => reads_getVarint.bind fun _ =>
    skips_scanAckBlocks _ _ fun _ => Skips.pure _

theorem skips_ackEcn : Skips (frameBody .ackEcn) (ackEnd [.varint, .varint, .varint]) :=
  reads_getVarint.bind fun _ => reads_getVarint.bind fun _ => reads_getVarint.bind fun _ =>
    skips_scanAckBlocks _ _ fun _ => skips_counts fun _ => Skips.pure _

theorem reads_byte {ε : Type} (g : TryGetError → ε) :
    Reads (Get.mapError g (Get.tryGetUint 1)) byte? := by
  intro b
  cases b with
  | nil => exact ⟨_, _, rfl⟩
  | cons x b =>
      have : beNat [x] = x.toNat := by simp [beNat]
      show Get.mapError g (Get.tryGetUint 1) (x :: b) = .ok (.ok x.toNat, b)
      simp [Get.mapError, Get.tryGetUint, this]

/-- The rest of a NEW_CONNECTION_ID frame after the length byte of its id. -/
def cidBody (sequence retirePriorTo len : ℕ) : Get FrameParseError Frame := do
  let id ← Get.mapError .unexpectedEnd (ConnectionId.fromBuf len)
  if id.bytes.isEmpty then Get.fail .malformed
  else do
    let resetToken ← Get.mapError .unexpectedEnd (Get.tryGetSlice resetTokenSize)
    return .newConnectionId ⟨sequence, retirePriorTo, id, resetToken⟩

theorem skips_cidBody (sequence retirePriorTo : ℕ) {len : ℕ} (h : len ≤ maxCidSize) :
    Skips (cidBody sequence retirePriorTo len) (cidEnd len) := by
  intro b
  by_cases hb : len ≤ b.length
  · have hid : Get.mapError FrameParseError.unexpectedEnd (ConnectionId.fromBuf len) b =
        .ok (.ok ⟨b.take len, by rw [List.length_take]; omega⟩, b.drop len) := by
      simp only [Get.mapError, ConnectionId.fromBuf, dif_pos h, if_pos hb]
    unfold cidBody
    by_cases h0 : len = 0
    · refine .of_none (if_neg (by omega))
        (show _ = Except.ok (Except.error FrameParseError.malformed, b.drop len) from ?_)
      rw [bind_ok hid, if_pos (by simp [h0])]
      rfl
    · have hne : (b.take len).isEmpty = false := by
        rw [List.isEmpty_eq_false_iff, ne_eq, List.take_eq_nil_iff]
        intro h'
        rcases h' with h' | h'
        · exact h0 h'
        · rw [h', List.length_nil] at hb; omega
      have htok : Skips (Get.mapError FrameParseError.unexpectedEnd (Get.tryGetSlice resetTokenSize)
          >>= fun t => (pure (.newConnectionId ⟨sequence, retirePriorTo,
            ⟨b.take len, by rw [List.length_take]; omega⟩, t⟩) : Get FrameParseError Frame))
          (skipAll [.fixed resetTokenSize]) := skips_cons (skips_slice _ _) fun _ => Skips.pure _
      refine (htok (b.drop len)).of_eq ?_ (by rw [bind_ok hid, if_neg (by simp [hne])])
      rw [cidEnd, require, if_pos ⟨h0, h⟩, skipAll, Field.skip, if_pos hb, Option.bind_some]
  · have hid : Get.mapError FrameParseError.unexpectedEnd (ConnectionId.fromBuf len) b =
        .ok (.error (.unexpectedEnd ⟨len, b.length⟩), b) := by
      simp only [Get.mapError, ConnectionId.fromBuf, dif_pos h, if_neg hb]
    refine .of_none ?_ (bind_fail hid)
    unfold cidEnd require
    split_ifs
    · rw [skipAll, Field.skip, if_neg hb, Option.bind_none]
    · rfl

theorem cidBody_panics (sequence retirePriorTo : ℕ) {len : ℕ} (h : maxCidSize < len) (b : Bytes) :
    cidBody sequence retirePriorTo len b = .error .assertion := by
  refine bind_panic ?_
  simp only [Get.mapError, ConnectionId.fromBuf, dif_neg (not_le.mpr h)]

/-- The fields of a NEW_CONNECTION_ID frame up to the length byte of its id. -/
theorem frameBody_ncid : frameBody .newConnectionId = getVarint >>= fun sequence =>
    getVarint >>= fun retirePriorTo =>
      if retirePriorTo > sequence then Get.fail .malformed
      else Get.mapError .unexpectedEnd (Get.tryGetUint 1) >>= cidBody sequence retirePriorTo := by
  show (getVarint >>= fun sequence => getVarint >>= fun retirePriorTo =>
    if retirePriorTo > sequence then Get.fail .malformed
    else Get.mapError .unexpectedEnd ConnectionId.decode >>= fun id =>
      if id.bytes.isEmpty then Get.fail .malformed
      else Get.mapError .unexpectedEnd (Get.tryGetSlice resetTokenSize) >>= fun resetToken =>
        pure (Frame.newConnectionId ⟨sequence, retirePriorTo, id, resetToken⟩)) = _
  simp only [ConnectionId.decode, mapError_bind, Get.bind_assoc]
  rfl

theorem ncid_panics {b : Bytes} (h : LongCid b) :
    frameBody .newConnectionId b = .error .assertion ∧ ncidEnd b = none := by
  obtain ⟨sequence, b₁, retirePriorTo, b₂, len, b₃, h1, h2, hle, h3, hlen⟩ := h
  constructor
  · rw [frameBody_ncid, bind_ok (reads_getVarint.returns h1), bind_ok (reads_getVarint.returns h2),
      if_neg (by omega), bind_ok ((reads_byte _).returns h3)]
    exact cidBody_panics _ _ hlen b₃
  · simp only [ncidEnd, follow, h1, h2, Option.bind_some, require, if_pos hle, h3, cidEnd]
    exact if_neg (by omega)

theorem skips_ncid {b : Bytes} (h : ¬ LongCid b) : SkipsAt (frameBody .newConnectionId) ncidEnd b := by
  rw [frameBody_ncid]
  refine reads_getVarint.bind_at fun sequence b₁ h1 => reads_getVarint.bind_at
    fun retirePriorTo b₂ h2 => ?_
  by_cases hle : retirePriorTo ≤ sequence
  · rw [if_neg (by omega)]
    have hk := (reads_byte FrameParseError.unexpectedEnd).bind_at (b := b₂) (t := cidEnd)
      (f := cidBody sequence retirePriorTo) fun len b₃ h3 => skips_cidBody _ _ (by
        by_contra hlen
        exact h ⟨_, _, _, _, _, _, h1, h2, hle, h3, not_le.mp hlen⟩) b₃
    exact hk.of_eq (if_pos hle) rfl
  · rw [if_pos (by omega)]
    exact .of_none (if_neg hle) rfl

/-- **The reader follows the layout**, unless it meets an id that is too long. -/
theorem frameBody_skipsAt {ty : ℕ} {b : Bytes} (h : ty = 0x18 → ¬ LongCid b) :
    SkipsAt (frameBody ⟨ty⟩) (bodyEnd ty) b := by
  unfold bodyEnd
  split_ifs with h2 h3 h18
  · subst h2; exact skips_ack b
  · subst h3; exact skips_ackEcn b
  · subst h18; exact skips_ncid (h rfl)
  · cases hl : layout ty with
    | none =>
        rw [frameBody_invalid hl h2 h3 h18]
        exact .of_none (by rw [Option.bind_none]) rfl
    | some fs => exact (frameBody_skips hl b).of_eq (by rw [Option.bind_some]) rfl

end Skips

/-! ## Iterating the parser -/

theorem suffix_of_skip {f : Field} {b b' : Bytes} (h : f.skip b = some b') : b' <:+ b := by
  cases f with
  | varint =>
      obtain ⟨p, hp, rfl⟩ := Option.map_eq_some_iff.mp h
      exact (suffix_of_varint? hp).1
  | bytes =>
      obtain ⟨p, hp, h⟩ := Option.bind_eq_some_iff.mp h
      split_ifs at h
      cases h
      exact (List.drop_suffix _ _).trans (suffix_of_varint? hp).1
  | fixed n =>
      simp only [Field.skip] at h
      split_ifs at h
      cases h
      exact List.drop_suffix _ _
  | rest => cases h; exact List.nil_suffix

theorem suffix_of_skipAll {fs : List Field} {b b' : Bytes} (h : skipAll fs b = some b') :
    b' <:+ b := by
  induction fs generalizing b with
  | nil => cases h; exact List.suffix_refl _
  | cons f fs ih =>
      obtain ⟨c, hc, h⟩ := Option.bind_eq_some_iff.mp h
      exact (ih h).trans (suffix_of_skip hc)

theorem suffix_of_bodyEnd {ty : ℕ} {b b' : Bytes} (h : bodyEnd ty b = some b') : b' <:+ b := by
  have hack : ∀ {fs : List Field}, ackEnd fs b = some b' → b' <:+ b := by
    intro fs h
    obtain ⟨p, hp, h⟩ := Option.bind_eq_some_iff.mp h
    obtain ⟨q, hq, h⟩ := Option.bind_eq_some_iff.mp h
    obtain ⟨r, hr, h⟩ := Option.bind_eq_some_iff.mp h
    obtain ⟨c, hc, h⟩ := Option.bind_eq_some_iff.mp h
    exact (suffix_of_skipAll h).trans ((suffix_of_scanEnd hc).trans ((suffix_of_varint? hr).1.trans
      ((suffix_of_varint? hq).1.trans (suffix_of_varint? hp).1)))
  unfold bodyEnd at h
  split_ifs at h
  · exact hack h
  · exact hack h
  · obtain ⟨p, hp, h⟩ := Option.bind_eq_some_iff.mp h
    obtain ⟨q, hq, h⟩ := Option.bind_eq_some_iff.mp h
    obtain ⟨-, h⟩ := require_eq_some.mp h
    obtain ⟨r, hr, h⟩ := Option.bind_eq_some_iff.mp h
    obtain ⟨-, h⟩ := require_eq_some.mp h
    have hb : r.2 <:+ q.2 := by
      cases hq2 : q.2 with
      | nil => rw [hq2] at hr; cases hr
      | cons x c => rw [hq2] at hr; cases hr; exact List.suffix_cons _ _
    exact (suffix_of_skipAll h).trans (hb.trans ((suffix_of_varint? hq).1.trans (suffix_of_varint? hp).1))
  · obtain ⟨fs, -, h⟩ := Option.bind_eq_some_iff.mp h
    exact suffix_of_skipAll h

theorem length_of_frameEnd {b b' : Bytes} (h : frameEnd b = some b') : b'.length < b.length := by
  obtain ⟨p, hp, h⟩ := Option.bind_eq_some_iff.mp h
  exact lt_of_le_of_lt (suffix_of_bodyEnd h).length_le (suffix_of_varint? hp).2

namespace FrameParser

variable {p : FrameParser}

theorem tryNext_ok {b' : Bytes} (h : frameEnd p.bytes = some b') :
    ∃ x p', p.tryNext = .ok (.ok x, p') ∧ p'.bytes = b' := by
  obtain ⟨⟨ty, b⟩, hty, h⟩ := Option.bind_eq_some_iff.mp h
  have hl : ty = 0x18 → ¬ LongCid b := by
    rintro rfl hl
    have := (ncid_panics hl).2
    dsimp only at h
    rw [show bodyEnd 0x18 = ncidEnd from rfl, this] at h
    cases h
  obtain ⟨x, hx⟩ := (frameBody_skipsAt hl).returns h
  refine ⟨x, ⟨b', some ⟨ty⟩⟩, ?_, rfl⟩
  unfold tryNext
  rw [reads_getVarint.returns hty, Checked.ok_bind]
  dsimp only
  rw [hx]
  rfl

theorem tryNext_fail (h : frameEnd p.bytes = none) (hl : ¬ LongCidFrame p.bytes) :
    ∃ e p', p.tryNext = .ok (.error e, p') := by
  unfold tryNext
  cases hty : varint? p.bytes with
  | none =>
      obtain ⟨e, b', hb⟩ := reads_getVarint.fails hty
      rw [hb]
      exact ⟨_, _, rfl⟩
  | some q =>
      obtain ⟨ty, b⟩ := q
      have hl' : ty = 0x18 → ¬ LongCid b := by
        rintro rfl hl'
        exact hl ⟨b, hty, hl'⟩
      rw [frameEnd, follow, hty, Option.bind_some] at h
      obtain ⟨e, b', hb⟩ := (frameBody_skipsAt hl').fails h
      rw [reads_getVarint.returns hty, Checked.ok_bind]
      dsimp only
      rw [hb]
      exact ⟨_, _, rfl⟩

theorem tryNext_panic (h : LongCidFrame p.bytes) :
    p.tryNext = .error .assertion ∧ frameEnd p.bytes = none := by
  obtain ⟨b, hty, hl⟩ := h
  obtain ⟨h1, h2⟩ := ncid_panics hl
  constructor
  · unfold tryNext
    rw [reads_getVarint.returns hty, Checked.ok_bind]
    dsimp only
    rw [show frameBody ⟨0x18⟩ = frameBody .newConnectionId from rfl, h1]
    rfl
  · rw [frameEnd, follow, hty, Option.bind_some]
    exact h2

/-- What the iteration gives: it ends, in at most `n` items, each frame took a byte, and an error
comes last. -/
structure Exhausts (n : ℕ) (items : List (Except TransportError Frame × ℕ)) : Prop where
  length_le : items.length ≤ n
  progress : ∀ x k, (.ok x, k) ∈ items → 1 ≤ k
  error_last : ∀ i e k, items[i]? = some (.error e, k) → i + 1 = items.length

/-- A payload with no id that is too long is read to its end. -/
theorem exhaust_ok (n : ℕ) (hn : p.bytes.length < n)
    (h : ∀ s, Reaches p.bytes s → ¬ LongCidFrame s) :
    ∃ items, p.exhaust n = .ok (items, true) ∧ Exhausts p.bytes.length items := by
  -- by induction on the fuel; each item that is not the last takes at least one byte
  induction n generalizing p with
  | zero => omega
  | succ n ih =>
      unfold exhaust next
      by_cases hb : p.bytes.isEmpty = true
      · rw [if_pos hb]
        exact ⟨[], rfl, ⟨Nat.zero_le _, (by simp), (by simp)⟩⟩
      rw [if_neg hb]
      have hpos : 0 < p.bytes.length := List.length_pos_iff.mpr fun h => hb (List.isEmpty_iff.mpr h)
      cases hf : frameEnd p.bytes with
      | none =>
          obtain ⟨e, p', he⟩ := tryNext_fail hf (h _ (.refl _))
          rw [he]
          simp only [Checked.ok_bind, Checked.pure_eq]
          obtain ⟨items, hi, hx⟩ := ih (p := { p' with bytes := [] }) (by simp only [List.length_nil]; omega)
            (fun s hs hl => by
              cases hs with
              | refl => obtain ⟨b', h', _⟩ := hl; cases h'
              | step h' _ => cases h')
          have hnil : items = [] := List.eq_nil_of_length_eq_zero (Nat.le_zero.mp hx.length_le)
          rw [hi, hnil]
          refine ⟨_, rfl, ⟨hpos, (by simp), fun i e k hi => ?_⟩⟩
          cases i with
          | zero => rfl
          | succ i => cases hi
      | some b' =>
          obtain ⟨x, p', he, rfl⟩ := tryNext_ok hf
          have hlt := length_of_frameEnd hf
          rw [he]
          simp only [Checked.ok_bind, Checked.pure_eq]
          obtain ⟨items, hi, hx⟩ := ih (p := p') (by omega) fun s hs => h s (.step hf hs)
          rw [hi]
          refine ⟨_, rfl, ⟨?_, ?_, ?_⟩⟩
          · have := hx.length_le
            simp only [List.length_cons]
            omega
          · intro y k hy
            rcases List.mem_cons.mp hy with hy | hy
            · cases hy; omega
            · exact hx.progress y k hy
          · intro i e k hi
            cases i with
            | zero => cases hi
            | succ i =>
                rw [List.getElem?_cons_succ] at hi
                rw [List.length_cons, hx.error_last i e k hi]

/-- An id that is too long is met on the way. -/
theorem exhaust_panic (n : ℕ) (hn : p.bytes.length < n) {s : Bytes} (hs : Reaches p.bytes s)
    (hl : LongCidFrame s) : p.exhaust n = .error .assertion := by
  induction n generalizing p with
  | zero => omega
  | succ n ih =>
      have hb : ¬ p.bytes.isEmpty = true := by
        intro hb
        rw [List.isEmpty_iff.mp hb] at hs
        cases hs with
        | refl => obtain ⟨b', h', _⟩ := hl; cases h'
        | step h' _ => cases h'
      unfold exhaust next
      rw [if_neg hb]
      generalize hpb : p.bytes = b at hs
      cases hs with
      | refl =>
          rw [← hpb] at hl
          rw [(tryNext_panic hl).1]
          rfl
      | step hf hs =>
          rw [← hpb] at hf
          obtain ⟨x, p', he, rfl⟩ := tryNext_ok hf
          have hlt := length_of_frameEnd hf
          rw [he]
          simp only [Checked.ok_bind, Checked.pure_eq]
          rw [ih (p := p') (by omega) hs]
          rfl

end FrameParser

/-! ## Headers -/

theorem total_decodeNumber (first : UInt8) :
    Get.Total (PacketNumber.decode (PacketNumber.decodeLen first)) := by
  have hle : (first &&& 0x03).toNat ≤ 3 := by
    rw [UInt8.toNat_and]; exact Nat.and_le_right
  unfold PacketNumber.decodeLen
  generalize (first &&& 0x03).toNat = k at hle
  interval_cases k <;> exact (Get.total_tryGetUint _).mapError.bind fun _ => Get.Total.pure _

theorem get_decode_nil : Header.get ConnectionId.decode [] =
    .ok (.error (.unexpectedEndOfHeader ⟨1, 0⟩), []) := rfl

theorem get_decode_cons (l : UInt8) (b : Bytes) : Header.get ConnectionId.decode (l :: b) =
    Header.get (ConnectionId.fromBuf l.toNat) b := by
  unfold Header.get ConnectionId.decode
  rw [Get.mapError_bind, bind_ok ((reads_byte _).returns (b := l :: b) rfl)]

theorem get_fromBuf_panics {len : ℕ} (h : maxCidSize < len) (b : Bytes) :
    Header.get (ConnectionId.fromBuf len) b = .error .assertion := by
  simp only [Header.get, Get.mapError, ConnectionId.fromBuf, dif_neg (not_le.mpr h)]

/-- Reading a connection id: it returns and leaves what follows the id, fails, or panics. -/
theorem get_decode_cases (b : Bytes) :
    ((∃ e b', Header.get ConnectionId.decode b = .ok (.error e, b')) ∧
      ∀ l c, b = l :: c → l.toNat ≤ maxCidSize ∧ c.length < l.toNat) ∨
    (∃ l b', b = l :: b' ∧ l.toNat ≤ maxCidSize ∧ l.toNat ≤ b'.length ∧
      ∃ cid, Header.get ConnectionId.decode b = .ok (.ok cid, b'.drop l.toNat)) ∨
    ∃ l b', b = l :: b' ∧ maxCidSize < l.toNat ∧
      Header.get ConnectionId.decode b = .error .assertion := by
  cases b with
  | nil => exact .inl ⟨⟨_, _, get_decode_nil⟩, fun l c h => by cases h⟩
  | cons l b =>
      rw [get_decode_cons]
      by_cases hl : l.toNat ≤ maxCidSize
      · by_cases hb : l.toNat ≤ b.length
        · exact .inr (.inl ⟨l, b, rfl, hl, hb, ⟨b.take l.toNat, by rw [List.length_take]; omega⟩,
            by simp only [Header.get, Get.mapError, ConnectionId.fromBuf, dif_pos hl, if_pos hb]⟩)
        · refine .inl ⟨⟨.unexpectedEndOfHeader ⟨l.toNat, b.length⟩, b,
            by simp only [Header.get, Get.mapError, ConnectionId.fromBuf, dif_pos hl, if_neg hb]⟩,
            fun l' c h => ?_⟩
          cases h
          exact ⟨hl, not_le.mp hb⟩
      · exact .inr (.inr ⟨l, b, rfl, not_le.mp hl, get_fromBuf_panics (not_le.mp hl) b⟩)

theorem total_decodeLong (ty : LongHeaderType) (first : UInt8) (version : ℕ)
    (dstCid srcCid : ConnectionId) : Get.Total (Header.decodeLong ty first version dstCid srcCid) := by
  cases ty with
  | initial =>
      exact total_tryGetBytesWithVarintLength.mapError.bind fun _ =>
        total_tryGetVarint.mapError.bind fun _ => (total_decodeNumber first).bind fun _ => Get.Total.pure _
  | retry => exact Get.Total.pure _
  | standard ty =>
      exact total_tryGetVarint.mapError.bind fun _ =>
        (total_decodeNumber first).bind fun _ => Get.Total.pure _

/-- The part of `Header::decode` for long headers, after the type has been checked. -/
def decodeCids (supportedVersions : List ℕ) (ty : LongHeaderType) (first : UInt8) (version : ℕ) :
    Get PacketDecodeError Header := do
  let dstCid ← Header.get ConnectionId.decode
  let srcCid ← Header.get ConnectionId.decode
  if version = 0 then return .versionNegotiate (first &&& ~~~longHeaderForm) srcCid dstCid
  else if version ∉ supportedVersions then Get.fail (.unsupportedVersion srcCid dstCid version)
  else Header.decodeLong ty first version dstCid srcCid

/-- Reading the two ids of a long header and what follows them. -/
theorem decodeCids_cases (supportedVersions : List ℕ) (ty : LongHeaderType) (first : UInt8)
    (version : ℕ) (b : Bytes) :
    (∃ r b', decodeCids supportedVersions ty first version b = .ok (r, b')) ∧
      (∀ l, b[0]? = some l → l.toNat ≤ maxCidSize ∧
        ∀ m, b[1 + l.toNat]? = some m → m.toNat ≤ maxCidSize) ∨
    decodeCids supportedVersions ty first version b = .error .assertion ∧
      ∃ l : UInt8, b[0]? = some l ∧ (maxCidSize < l.toNat ∨
        ∃ m : UInt8, b[1 + l.toNat]? = some m ∧ maxCidSize < m.toNat) := by
  rcases get_decode_cases b with ⟨⟨e, b', h⟩, hb⟩ | ⟨l, c, rfl, hl, hlen, cid, h⟩ | ⟨l, c, rfl, hl, h⟩
  · refine .inl ⟨⟨_, _, bind_fail h⟩, fun l h0 => ?_⟩
    obtain ⟨c, rfl⟩ : ∃ c, b = l :: c := by
      cases b with
      | nil => cases h0
      | cons x c => cases h0; exact ⟨c, rfl⟩
    obtain ⟨h1, h2⟩ := hb l c rfl
    refine ⟨h1, fun m hm => ?_⟩
    rw [List.getElem?_eq_none (by rw [List.length_cons]; omega)] at hm
    cases hm
  · have hidx : (l :: c)[1 + l.toNat]? = (c.drop l.toNat)[0]? := by
      rw [Nat.add_comm, List.getElem?_cons_succ, List.getElem?_drop, Nat.add_zero]
    unfold decodeCids
    rw [bind_ok h]
    rcases get_decode_cases (c.drop l.toNat) with
      ⟨⟨e, b', h2⟩, hb⟩ | ⟨m, d, hd, hm, -, cid2, h2⟩ | ⟨m, d, hd, hm, h2⟩
    · refine .inl ⟨⟨_, _, bind_fail h2⟩, fun l' h0 => ?_⟩
      cases h0
      refine ⟨hl, fun m hm => ?_⟩
      rw [hidx] at hm
      cases hd : c.drop l.toNat with
      | nil => rw [hd] at hm; cases hm
      | cons x d => rw [hd] at hm; cases hm; exact (hb m d hd).1
    · refine .inl ⟨?_, fun l' h0 => ?_⟩
      · rw [bind_ok h2]
        have ht : Get.Total (if version = 0 then
              return Header.versionNegotiate (first &&& ~~~longHeaderForm) cid2 cid
            else if version ∉ supportedVersions then
              Get.fail (.unsupportedVersion cid2 cid version)
            else Header.decodeLong ty first version cid cid2 : Get PacketDecodeError Header) := by
          split_ifs
          · exact Get.Total.pure _
          · exact total_decodeLong ty first version cid cid2
          · exact Get.Total.fail _
        obtain ⟨r, b', hr, -⟩ := ht (d.drop m.toNat)
        exact ⟨r, b', hr⟩
      · cases h0
        refine ⟨hl, fun m' hm' => ?_⟩
        rw [hidx, hd] at hm'
        cases hm'
        exact hm
    · refine .inr ⟨bind_panic h2, l, rfl, .inr ⟨m, ?_, hm⟩⟩
      rw [hidx, hd]
      rfl
  · exact .inr ⟨bind_panic h, l, rfl, .inl hl⟩

/-- **Header decoding** panics exactly on long headers with an id that is too long. -/
theorem decode_cases (b : Bytes) {cidLen : ℕ} (hc : cidLen ≤ maxCidSize)
    (supportedVersions : List ℕ) :
    ((∃ r b', Header.decode cidLen supportedVersions b = .ok (r, b')) ∧ ¬ LongCidHeader b) ∨
    (Header.decode cidLen supportedVersions b = .error .assertion ∧ LongCidHeader b) := by
  cases b with
  | nil => exact .inl ⟨⟨_, _, rfl⟩, fun ⟨_, _, h, _⟩ => by cases h⟩
  | cons first b =>
      have hu8 : Header.get Get.tryGetU8 (first :: b) = .ok (.ok first, b) := rfl
      unfold Header.decode
      rw [bind_ok hu8]
      by_cases h1 : first &&& fixedBit = 0
      · rw [if_pos h1]
        exact .inl ⟨⟨_, _, rfl⟩, fun ⟨f, _, h, hf, _⟩ => by cases h; exact hf h1⟩
      rw [if_neg h1]
      by_cases h2 : first &&& longHeaderForm = 0
      · rw [if_pos h2]
        refine .inl ⟨?_, fun ⟨f, _, h, _, hf, _⟩ => by cases h; exact hf h2⟩
        split_ifs
        · exact ⟨_, _, rfl⟩
        · have ht : Get.Total (Header.get (ConnectionId.fromBuf cidLen) >>= fun dstCid =>
              PacketNumber.decode (PacketNumber.decodeLen first) >>= fun number =>
                (pure (Header.short (first &&& spinBit ≠ 0) (first &&& keyPhaseBit ≠ 0) dstCid number) :
                  Get PacketDecodeError Header)) :=
            (ConnectionId.total_fromBuf hc).mapError.bind fun _ =>
              (total_decodeNumber first).bind fun _ => Get.Total.pure _
          obtain ⟨r, b', hr, -⟩ := ht b
          exact ⟨r, b', hr⟩
      rw [if_neg h2]
      by_cases h3 : first &&& longReservedBits ≠ 0
      · rw [if_pos h3]
        exact .inl ⟨⟨_, _, rfl⟩, fun ⟨f, _, h, _, _, hf, _⟩ => by cases h; exact h3 hf⟩
      rw [if_neg h3]
      obtain ⟨ty, hty⟩ := LongHeaderType.ofByte_total h2
      have hlift : (Get.lift (LongHeaderType.ofByte first) : Get PacketDecodeError LongHeaderType) b =
          .ok (.ok ty, b) := by
        rw [Get.lift, hty]; rfl
      rw [bind_ok hlift]
      have hidx : ∀ i, (first :: b)[5 + i]? = (b.drop 4)[i]? := by
        intro i
        rw [show 5 + i = (4 + i) + 1 by omega, List.getElem?_cons_succ, List.getElem?_drop]
      by_cases hlen : 4 ≤ b.length
      · have hv : Header.get (Get.tryGetUint 4) b = .ok (.ok (beNat (b.take 4)), b.drop 4) := by
          simp only [Header.get, Get.mapError, Get.tryGetUint, if_pos hlen]
        rw [bind_ok hv]
        rcases decodeCids_cases supportedVersions ty first (beNat (b.take 4)) (b.drop 4) with
          ⟨hr, hl⟩ | ⟨hr, l, hl, hm⟩
        · refine .inl ⟨hr, ?_⟩
          rintro ⟨f, l, -, -, -, -, h5, hm⟩
          rw [hidx 0] at h5
          obtain ⟨hl1, hl2⟩ := hl l h5
          rcases hm with hm | ⟨m, hm, hgt⟩
          · omega
          · rw [show 6 + l.toNat = 5 + (1 + l.toNat) by omega, hidx] at hm
            have := hl2 m hm
            omega
        · refine .inr ⟨hr, first, l, rfl, h1, h2, not_not.mp h3, by rw [hidx 0]; exact hl, ?_⟩
          rcases hm with hm | ⟨m, hm, hgt⟩
          · exact .inl hm
          · refine .inr ⟨m, ?_, hgt⟩
            rw [show 6 + l.toNat = 5 + (1 + l.toNat) by omega, hidx]
            exact hm
      · have hv : Header.get (Get.tryGetUint 4) b =
            .ok (.error (.unexpectedEndOfHeader ⟨4, b.length⟩), b) := by
          simp only [Header.get, Get.mapError, Get.tryGetUint, if_neg hlen]
        refine .inl ⟨⟨_, _, bind_fail hv⟩, ?_⟩
        rintro ⟨f, l, -, -, -, -, h5, -⟩
        rw [List.getElem?_eq_none (by rw [List.length_cons]; omega)] at h5
        cases h5

/-! ## The decoder -/

/-- The header is decoded or rejected. -/
def HeaderSafe (b : Bytes) (cidLen : ℕ) (supportedVersions : List ℕ) : Prop :=
  ∃ r b', Header.decode cidLen supportedVersions b = .ok (r, b')

/-- The frames of a payload are read to the end: every frame takes at least one byte, there are at
most as many items as bytes, and an error is the last item. -/
def FramesSafe (payload : Bytes) : Prop :=
  ∃ items, FrameParser.exhaust (payload.length + 1) ⟨payload, none⟩ = .ok (items, true) ∧
    items.length ≤ payload.length ∧ (∀ x k, (.ok x, k) ∈ items → 1 ≤ k) ∧
    ∀ i e k, items[i]? = some (.error e, k) → i + 1 = items.length

/-- **The decoder and connection ids.** Decoding a header and iterating the frames of a payload never
panics, and the iteration ends as it should, exactly if no long header and no NEW_CONNECTION_ID frame
announces an id of more than 20 bytes. -/
theorem decoder_total_iff (b : Bytes) (cidLen : ℕ) (hc : cidLen ≤ 20) (supportedVersions : List ℕ)
    (payload : Bytes) :
    (HeaderSafe b cidLen supportedVersions ∧ FramesSafe payload) ↔
      (¬ LongCidHeader b ∧ ∀ s, Reaches payload s → ¬ LongCidFrame s) := by
  constructor
  · rintro ⟨⟨r, b', hr⟩, items, hi, -⟩
    constructor
    · rcases decode_cases b hc supportedVersions with ⟨-, h⟩ | ⟨h, -⟩
      · exact h
      · rw [hr] at h; cases h
    · intro s hs hl
      rw [FrameParser.exhaust_panic (p := ⟨payload, none⟩) _ (Nat.lt_succ_self _) hs hl] at hi
      cases hi
  · rintro ⟨hb, hp⟩
    constructor
    · rcases decode_cases b hc supportedVersions with ⟨h, -⟩ | ⟨-, h⟩
      · exact h
      · exact absurd h hb
    · obtain ⟨items, hi, hx⟩ := FrameParser.exhaust_ok (p := ⟨payload, none⟩) _ (Nat.lt_succ_self _) hp
      exact ⟨items, hi, hx.length_le, hx.progress, hx.error_last⟩

/-- A short header, and a payload of a single PING frame. -/
theorem decoder_total_ping : HeaderSafe [0x40, 0x07] 0 [1] ∧ FramesSafe [0x01] := by
  refine (decoder_total_iff [0x40, 0x07] 0 (by decide) [1] [0x01]).mpr ⟨?_, fun s hs hl => ?_⟩
  · rintro ⟨first, l, h, -, hf, -⟩
    cases h
    exact hf (by decide)
  · obtain ⟨b', h, -⟩ := hl
    cases hs with
    | refl => cases h
    | step h1 hs =>
        cases h1
        cases hs with
        | refl => cases h
        | step h2 _ => cases h2

/-- A version 1 Initial header whose destination id has length byte 21, and a NEW_CONNECTION_ID frame
whose id has length byte 21. -/
theorem decoder_panics : (∃ b cidLen supportedVersions, cidLen ≤ 20 ∧
      Header.decode cidLen supportedVersions b = .error .assertion) ∧
    ∃ payload, FrameParser.exhaust (payload.length + 1) ⟨payload, none⟩ = .error .assertion :=
  ⟨⟨[0xc0, 0x00, 0x00, 0x00, 0x01, 0x15], 8, [1], by decide, rfl⟩, [0x18, 0x00, 0x00, 0x15], rfl⟩

end MzQuic
