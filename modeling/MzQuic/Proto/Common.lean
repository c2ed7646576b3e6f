import MzQuic.Proto.Varint

/-!
# Common types (`proto/src/common.rs`, `proto/src/error.rs`)

* `Side`, `Dir` and `StreamId`, whose two low bits hold the initiator and the direction;
* `ConnectionId`, a byte string of at most `maxCidSize` bytes;
* `TransportErrorCode`, `TransportError`.
-/

namespace MzQuic

open Lib

/-! ## Streams -/

/-- `Side`. -/
inductive Side
  | client
  | server
  deriving DecidableEq, Repr

/-- `Dir`. -/
inductive Dir
  | bi
  | uni
  deriving DecidableEq, Repr

/-- The discriminant of a side. -/
def Side.toNat : Side → ℕ
  | .client => 0
  | .server => 1

/-- The discriminant of a direction. -/
def Dir.toNat : Dir → ℕ
  | .bi => 0
  | .uni => 1

/-- `StreamId(u64)`. -/
structure StreamId where
  val : ℕ
  deriving DecidableEq, Repr

namespace StreamId

/-- `StreamId::new`. -/
def new (initiator : Side) (dir : Dir) (index : ℕ) : StreamId :=
  ⟨(index <<< 2) ||| (dir.toNat <<< 1) ||| initiator.toNat⟩

/-- `StreamId::initiator`. -/
def initiator (id : StreamId) : Side := if id.val &&& 0x1 = 0 then .client else .server

/-- `StreamId::dir`. -/
def dir (id : StreamId) : Dir := if id.val &&& 0x2 = 0 then .bi else .uni

/-- `StreamId::index`. -/
def index (id : StreamId) : ℕ := id.val >>> 2

theorem val_new (s : Side) (d : Dir) (i : ℕ) :
    (new s d i).val = 4 * i + 2 * d.toNat + s.toNat := by
  have h1 : (i <<< 2) ||| (d.toNat <<< 1) = i * 2 ^ 2 + d.toNat <<< 1 :=
    shiftLeft_or (by cases d <;> decide)
  have h2 : i * 2 ^ 2 + d.toNat <<< 1 = (2 * i + d.toNat) <<< 1 := by
    rw [Nat.shiftLeft_eq, Nat.shiftLeft_eq]; ring
  have h3 : ((2 * i + d.toNat) <<< 1) ||| s.toNat = (2 * i + d.toNat) * 2 ^ 1 + s.toNat :=
    shiftLeft_or (by cases s <;> decide)
  simp only [new]
  rw [h1, h2, h3]
  ring

theorem initiator_new (s : Side) (d : Dir) (i : ℕ) : (new s d i).initiator = s := by
  have h : (new s d i).val &&& 0x1 = s.toNat := by
    rw [val_new, show (0x1 : ℕ) = 2 ^ 1 - 1 from rfl, Nat.and_two_pow_sub_one_eq_mod]
    cases s <;> simp only [Side.toNat] <;> omega
  unfold initiator
  rw [h]
  cases s <;> rfl

theorem index_new (s : Side) (d : Dir) (i : ℕ) : (new s d i).index = i := by
  unfold index
  rw [val_new, Nat.shiftRight_eq_div_pow]
  cases s <;> cases d <;> simp only [Side.toNat, Dir.toNat] <;> omega

theorem dir_new (s : Side) (d : Dir) (i : ℕ) : (new s d i).dir = d := by
  have hmod : (new s d i).val % 2 ^ 2 = 2 * d.toNat + s.toNat := by
    rw [val_new]
    cases s <;> cases d <;> simp only [Side.toNat, Dir.toNat] <;> omega
  have h : (new s d i).val &&& 0x2 = (2 * d.toNat + s.toNat) &&& 0x2 := by
    rw [← hmod, ← Nat.and_two_pow_sub_one_eq_mod, Nat.and_assoc]
    rfl
  unfold dir
  rw [h]
  cases s <;> cases d <;> rfl

end StreamId

/-! ## Connection ids -/

/-- `MAX_CID_SIZE`. -/
def maxCidSize : ℕ := 20

/-- `RESET_TOKEN_SIZE`. -/
def resetTokenSize : ℕ := 16

/-- `ConnectionId`: the used part of its array. -/
structure ConnectionId where
  bytes : Bytes
  len_le : bytes.length ≤ maxCidSize
  deriving DecidableEq

namespace ConnectionId

/-- `ConnectionId::new`. -/
def new (bytes : Bytes) : Checked ConnectionId :=
  if h : bytes.length ≤ maxCidSize then .ok ⟨bytes, h⟩ else .error .assertion

/-- `ConnectionId::from_buf`: a length above `MAX_CID_SIZE` fails the assertion before anything is
read. -/
def fromBuf (len : ℕ) : Get TryGetError ConnectionId := fun b =>
  if h : len ≤ maxCidSize then
    if len ≤ b.length then
      .ok (.ok ⟨b.take len, by rw [List.length_take]; omega⟩, b.drop len)
    else .ok (.error ⟨len, b.length⟩, b)
  else .error .assertion

/-- `ConnectionId::decode`. -/
def decode : Get TryGetError ConnectionId := do
  let len ← Get.tryGetUint 1
  fromBuf len

/-- `ConnectionId::encode`. -/
def encode (cid : ConnectionId) (out : BufMut) : Checked BufMut := do
  let out ← out.putUint 1 cid.bytes.length
  out.putSlice cid.bytes

theorem total_fromBuf {len : ℕ} (h : len ≤ maxCidSize) : Get.Total (fromBuf len) := by
  intro b
  unfold fromBuf
  rw [dif_pos h]
  split_ifs
  · exact ⟨_, _, rfl, List.drop_suffix _ _⟩
  · exact ⟨_, _, rfl, List.suffix_refl _⟩

theorem appends_encode (cid : ConnectionId) :
    Appends cid.encode (beBytes 1 cid.bytes.length ++ cid.bytes) :=
  (appends_putUint 1 _).seq (appends_putSlice _)

theorem fromBuf_append (cid : ConnectionId) (s : Bytes) :
    fromBuf cid.bytes.length (cid.bytes ++ s) = .ok (.ok cid, s) := by
  simp [fromBuf, cid.len_le]

/-- A connection id is read as it was written. -/
theorem decode_append (cid : ConnectionId) (s : Bytes) :
    decode (beBytes 1 cid.bytes.length ++ (cid.bytes ++ s)) = .ok (.ok cid, s) := by
  have hle : cid.bytes.length ≤ 20 := cid.len_le
  have hlen : Get.tryGetUint 1 (beBytes 1 cid.bytes.length ++ (cid.bytes ++ s)) =
      .ok (.ok cid.bytes.length, cid.bytes ++ s) := by
    rw [Get.tryGetUint_append _ (length_beBytes 1 _), beNat_beBytes, Nat.mod_eq_of_lt (by omega)]
  rw [decode, Get.bind_ok hlen]
  exact cid.fromBuf_append s

end ConnectionId

/-! ## Errors -/

/-- `TransportErrorCode(u64)`. -/
structure TransportErrorCode where
  val : ℕ
  deriving DecidableEq, Repr

namespace TransportErrorCode

def flowControlError : TransportErrorCode := ⟨0x3⟩
def streamStateError : TransportErrorCode := ⟨0x5⟩
def finalSizeError : TransportErrorCode := ⟨0x6⟩
def frameEncodingError : TransportErrorCode := ⟨0x7⟩
def protocolViolation : TransportErrorCode := ⟨0xA⟩

end TransportErrorCode

/-- `FrameType(u64)`. -/
structure FrameType where
  val : ℕ
  deriving DecidableEq, Repr

/-- `TransportError`. -/
structure TransportError where
  code : TransportErrorCode
  frame : Option FrameType
  reason : String
  deriving DecidableEq, Repr

namespace TransportError

def flowControlError (reason : String) : TransportError := ⟨.flowControlError, none, reason⟩
def streamStateError (reason : String) : TransportError := ⟨.streamStateError, none, reason⟩
def finalSizeError (reason : String) : TransportError := ⟨.finalSizeError, none, reason⟩
def frameEncodingError (reason : String) : TransportError := ⟨.frameEncodingError, none, reason⟩
def protocolViolation (reason : String) : TransportError := ⟨.protocolViolation, none, reason⟩

end TransportError

end MzQuic
