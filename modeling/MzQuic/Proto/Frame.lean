import MzQuic.Proto.ArrayRangeSet
import MzQuic.Proto.Common

/-!
# Frames (`proto/src/frame.rs`)

* `FrameType`, `Frame` and the records it carries;
* writers: `ResetStream.encode`, `StopSending.encode`, `Crypto.encode`, `NewToken.encode`,
  `StreamMeta.encode`, `NewConnectionId.encode`, `ConnectionClose.encode`, `Datagram.encode`,
  `Ack.encode`;
* the reader: `FrameParser.next`, which reads a type and then `frameBody`; an error ends the
  iteration (`FrameParser.exhaust`);
* `Ack.iter`: the inclusive ranges of an ACK frame, largest first.
-/

namespace MzQuic

open Lib

/-! ## Types -/

namespace FrameType

@[match_pattern] def padding : FrameType := ⟨0x00⟩
@[match_pattern] def ping : FrameType := ⟨0x01⟩
@[match_pattern] def ack : FrameType := ⟨0x02⟩
@[match_pattern] def ackEcn : FrameType := ⟨0x03⟩
@[match_pattern] def resetStream : FrameType := ⟨0x04⟩
@[match_pattern] def stopSending : FrameType := ⟨0x05⟩
@[match_pattern] def crypto : FrameType := ⟨0x06⟩
@[match_pattern] def newToken : FrameType := ⟨0x07⟩
@[match_pattern] def maxData : FrameType := ⟨0x10⟩
@[match_pattern] def maxStreamData : FrameType := ⟨0x11⟩
@[match_pattern] def maxStreamsBidi : FrameType := ⟨0x12⟩
@[match_pattern] def maxStreamsUni : FrameType := ⟨0x13⟩
@[match_pattern] def dataBlocked : FrameType := ⟨0x14⟩
@[match_pattern] def streamDataBlocked : FrameType := ⟨0x15⟩
@[match_pattern] def streamsBlockedBidi : FrameType := ⟨0x16⟩
@[match_pattern] def streamsBlockedUni : FrameType := ⟨0x17⟩
@[match_pattern] def newConnectionId : FrameType := ⟨0x18⟩
@[match_pattern] def retireConnectionId : FrameType := ⟨0x19⟩
@[match_pattern] def pathChallenge : FrameType := ⟨0x1a⟩
@[match_pattern] def pathResponse : FrameType := ⟨0x1b⟩
@[match_pattern] def transportClose : FrameType := ⟨0x1c⟩
@[match_pattern] def applicationClose : FrameType := ⟨0x1d⟩
@[match_pattern] def handshakeDone : FrameType := ⟨0x1e⟩
@[match_pattern] def immediateAck : FrameType := ⟨0x1f⟩

end FrameType

/-- The first of `STREAM_TYS`, `0x08..=0x0f`. -/
def streamTysStart : ℕ := 0x08

/-- `StreamInfo(u8)`: the flags in the type of a STREAM frame. -/
structure StreamInfo where
  val : ℕ

def StreamInfo.fin (s : StreamInfo) : Bool := s.val &&& 0x01 ≠ 0
def StreamInfo.len (s : StreamInfo) : Bool := s.val &&& 0x02 ≠ 0
def StreamInfo.off (s : StreamInfo) : Bool := s.val &&& 0x04 ≠ 0

/-- `DatagramInfo(u8)`: the flag in the type of a DATAGRAM frame. -/
structure DatagramInfo where
  val : ℕ

def DatagramInfo.len (d : DatagramInfo) : Bool := d.val &&& 0x01 ≠ 0

/-- `FrameType::stream`. -/
def FrameType.stream (ty : FrameType) : Option StreamInfo :=
  if streamTysStart ≤ ty.val ∧ ty.val ≤ 0x0f then some ⟨ty.val⟩ else none

/-- `FrameType::datagram`. -/
def FrameType.datagram (ty : FrameType) : Option DatagramInfo :=
  if 0x30 ≤ ty.val ∧ ty.val ≤ 0x31 then some ⟨ty.val⟩ else none

/-- `EcnCounts`. -/
structure EcnCounts where
  ect0 : ℕ
  ect1 : ℕ
  ce : ℕ
  deriving DecidableEq, Repr

/-- `Ack`. -/
structure Ack where
  largest : ℕ
  delay : ℕ
  additional : Bytes
  ecn : Option EcnCounts
  deriving DecidableEq, Repr

/-- `ResetStream`. -/
structure ResetStream where
  id : StreamId
  errorCode : ℕ
  finalOffset : ℕ
  deriving DecidableEq, Repr

/-- `StopSending`. -/
structure StopSending where
  id : StreamId
  errorCode : ℕ
  deriving DecidableEq, Repr

/-- `Stream`. -/
structure Stream where
  id : StreamId
  offset : ℕ
  fin : Bool
  data : Bytes
  deriving DecidableEq, Repr

/-- `StreamMeta`. -/
structure StreamMeta where
  id : StreamId
  offsets : Range
  fin : Bool
  deriving DecidableEq, Repr

/-- `NewConnectionId`. -/
structure NewConnectionId where
  sequence : ℕ
  retirePriorTo : ℕ
  id : ConnectionId
  resetToken : Bytes
  deriving DecidableEq

/-- `TransportClose`. -/
structure TransportClose where
  errorCode : TransportErrorCode
  frameType : Option FrameType
  reason : Bytes
  deriving DecidableEq, Repr

/-- `ApplicationClose`. -/
structure ApplicationClose where
  errorCode : ℕ
  reason : Bytes
  deriving DecidableEq, Repr

/-- `ConnectionClose`. -/
inductive ConnectionClose
  | transport (x : TransportClose)
  | application (x : ApplicationClose)
  deriving DecidableEq, Repr

/-- `Frame`. -/
inductive Frame
  | padding
  | ping
  | ack (a : Ack)
  | resetStream (r : ResetStream)
  | stopSending (s : StopSending)
  | crypto (offset : ℕ) (data : Bytes)
  | newToken (token : Bytes)
  | stream (s : Stream)
  | maxData (limit : ℕ)
  | maxStreamData (id : StreamId) (limit : ℕ)
  | maxStreams (dir : Dir) (count : ℕ)
  | dataBlocked (limit : ℕ)
  | streamDataBlocked (id : StreamId) (limit : ℕ)
  | streamsBlocked (dir : Dir) (limit : ℕ)
  | newConnectionId (n : NewConnectionId)
  | retireConnectionId (sequence : ℕ)
  | pathChallenge (token : ℕ)
  | pathResponse (token : ℕ)
  | close (c : ConnectionClose)
  | datagram (data : Bytes)
  | immediateAck
  | handshakeDone
  deriving DecidableEq

/-- `Frame::is_ack_eliciting`. -/
def Frame.isAckEliciting : Frame → Bool
  | .ack _ | .padding | .close _ => false
  | _ => true

/-! ## Writers -/

/-- `ResetStream::SIZE_BOUND`. -/
def ResetStream.sizeBound : ℕ := 1 + 8 + 8 + 8

/-- `StopSending::SIZE_BOUND`. -/
def StopSending.sizeBound : ℕ := 1 + 8 + 8

/-- `Stream::SIZE_BOUND`. -/
def Stream.sizeBound : ℕ := 1 + 8 + 8 + 8

/-- `ResetStream::encode`. -/
def ResetStream.encode (r : ResetStream) (out : BufMut) : Checked BufMut := do
  let out ← putVarint FrameType.resetStream.val out
  let out ← putVarint r.id.val out
  let out ← putVarint r.errorCode out
  putVarint r.finalOffset out

/-- `StopSending::encode`. -/
def StopSending.encode (s : StopSending) (out : BufMut) : Checked BufMut := do
  let out ← putVarint FrameType.stopSending.val out
  let out ← putVarint s.id.val out
  putVarint s.errorCode out

/-- `Crypto::encode`. -/
def Crypto.encode (offset : ℕ) (data : Bytes) (out : BufMut) : Checked BufMut := do
  let out ← putVarint FrameType.crypto.val out
  let out ← putVarint offset out
  let out ← putVarint data.length out
  out.putSlice data

/-- `NewToken::encode`. -/
def NewToken.encode (token : Bytes) (out : BufMut) : Checked BufMut := do
  let out ← putVarint FrameType.newToken.val out
  let out ← putVarint token.length out
  out.putSlice token

/-- The type byte that `StreamMeta::encode` writes. -/
def StreamMeta.ty (m : StreamMeta) (length : Bool) : ℕ :=
  streamTysStart ||| (if m.offsets.start ≠ 0 then 0x04 else 0) ||| (if length then 0x02 else 0) |||
    (if m.fin then 0x01 else 0)

/-- `StreamMeta::encode`. -/
def StreamMeta.encode (m : StreamMeta) (length : Bool) (out : BufMut) : Checked BufMut := do
  let out ← putVarint (m.ty length) out
  let out ← putVarint m.id.val out
  let out ← (if m.offsets.start ≠ 0 then putVarint m.offsets.start out else pure out)
  if length then
    let n ← Checked.sub m.offsets.end m.offsets.start
    putVarint n out
  else return out

/-- `NewConnectionId::encode`. -/
def NewConnectionId.encode (n : NewConnectionId) (out : BufMut) : Checked BufMut := do
  let out ← putVarint FrameType.newConnectionId.val out
  let out ← putVarint n.sequence out
  let out ← putVarint n.retirePriorTo out
  let out ← n.id.encode out
  out.putSlice n.resetToken

/-- `TransportClose::SIZE_BOUND`. -/
def TransportClose.sizeBound : ℕ := 1 + 8 + 8 + 8

/-- `ApplicationClose::SIZE_BOUND`. -/
def ApplicationClose.sizeBound : ℕ := 1 + 8 + 8

/-- `TransportClose::encode`: the reason is cut to what `max_len` leaves for it. -/
def TransportClose.encode (x : TransportClose) (maxLen : ℕ) (out : BufMut) : Checked BufMut := do
  let out ← putVarint FrameType.transportClose.val out
  let out ← putVarint x.errorCode.val out
  let ty := x.frameType.getD .padding
  let out ← putVarint ty.val out
  let maxLen ← Checked.sub maxLen 3
  let maxLen ← Checked.sub maxLen (← varintLen ty.val)
  let maxLen ← Checked.sub maxLen (← varintLen x.reason.length)
  let actualLen := min x.reason.length maxLen
  putBytesWithVarintLength (x.reason.take actualLen) out

/-- `ApplicationClose::encode`. -/
def ApplicationClose.encode (x : ApplicationClose) (maxLen : ℕ) (out : BufMut) : Checked BufMut := do
  let out ← putVarint FrameType.applicationClose.val out
  let out ← putVarint x.errorCode out
  let maxLen ← Checked.sub maxLen 3
  let maxLen ← Checked.sub maxLen (← varintLen x.reason.length)
  let actualLen := min x.reason.length maxLen
  putBytesWithVarintLength (x.reason.take actualLen) out

/-- `ConnectionClose::encode`. -/
def ConnectionClose.encode (c : ConnectionClose) (maxLen : ℕ) (out : BufMut) : Checked BufMut :=
  match c with
  | .transport x => x.encode maxLen out
  | .application x => x.encode maxLen out

/-- The first of `DATAGRAM_TYS`, `0x30..=0x31`. -/
def datagramTysStart : ℕ := 0x30

/-- `Datagram::encode`. -/
def Datagram.encode (data : Bytes) (length : Bool) (out : BufMut) : Checked BufMut := do
  let out ← putVarint (datagramTysStart ||| length.toNat) out
  let out ← (if length then putVarint data.length out else pure out)
  out.putSlice data

/-- `EcnCounts::encode`. -/
def EcnCounts.encode (x : EcnCounts) (out : BufMut) : Checked BufMut := do
  let out ← putVarint x.ect0 out
  let out ← putVarint x.ect1 out
  putVarint x.ce out

/-- The `for` of `Ack::encode` over the runs below the first, downwards. -/
def encodeBlocks : ℕ → List Range → BufMut → Checked BufMut
  | _, [], out => .ok out
  | prev, block :: rest, out => do
    let size ← Checked.sub block.end block.start
    let gap ← Checked.sub prev block.end
    let gap ← Checked.sub gap 1
    let out ← putVarint gap out
    let size ← Checked.sub size 1
    let out ← putVarint size out
    encodeBlocks block.start rest out

/-- `Ack::encode`. -/
def Ack.encode (delay : ℕ) (ranges : ArrayRangeSet) (ecn : Option EcnCounts) (out : BufMut) :
    Checked BufMut :=
  match ranges.ranges.reverse with
  | [] => .error .unwrap
  | first :: rest => do
    let largest ← Checked.sub first.end 1
    let firstSize ← Checked.sub first.end first.start
    let out ← putVarint (if ecn.isSome then FrameType.ackEcn else FrameType.ack).val out
    let out ← putVarint largest out
    let out ← putVarint delay out
    let n ← Checked.sub ranges.len 1
    let out ← putVarint n out
    let n ← Checked.sub firstSize 1
    let out ← putVarint n out
    let out ← encodeBlocks first.start rest out
    match ecn with
    | some x => x.encode out
    | none => return out

/-! ## The reader -/

/-- `FrameParseError`. -/
inductive FrameParseError
  | unexpectedEnd (e : TryGetError)
  | invalidFrameId
  | malformed
  deriving DecidableEq, Repr

/-- The text of a `FrameParseError`. -/
def FrameParseError.toText : FrameParseError → String
  | .unexpectedEnd _ => "unexpected end"
  | .invalidFrameId => "invalid frame ID"
  | .malformed => "malformed frame"

/-- `buf.try_get_varint()?`. -/
def getVarint : Get FrameParseError ℕ := Get.mapError .unexpectedEnd tryGetVarint

/-- `buf.try_get_bytes_with_varint_length()?`. -/
def getBytes : Get FrameParseError Bytes := Get.mapError .unexpectedEnd tryGetBytesWithVarintLength

/-- `buf.try_get_u64()?`. -/
def getU64 : Get FrameParseError ℕ := Get.mapError .unexpectedEnd (Get.tryGetUint 8)

/-- `x.checked_sub(y).ok_or(FrameParseError::Malformed)?`. -/
def checkedSub (x y : ℕ) : Get FrameParseError ℕ :=
  if y ≤ x then pure (x - y) else Get.fail .malformed

/-- The `for` of `scan_ack_blocks`. -/
def scanBlocks : ℕ → ℕ → Get FrameParseError Unit
  | _, 0 => pure ()
  | smallest, n + 1 => do
    let gap ← getVarint
    let smallest ← checkedSub smallest (gap + 2)
    let block ← getVarint
    let smallest ← checkedSub smallest block
    scanBlocks smallest n

/-- The body of `scan_ack_blocks`, which reads a copy of the buffer. -/
def scanAll (largest n : ℕ) : Get FrameParseError Unit := do
  let firstBlock ← getVarint
  let smallest ← checkedSub largest firstBlock
  scanBlocks smallest n

/-- `scan_ack_blocks`: how many bytes the blocks take. -/
def scanAckBlocks (largest n : ℕ) : Get FrameParseError ℕ := fun buf =>
  match scanAll largest n buf with
  | .error p => .error p
  | .ok (.error e, _) => .ok (.error e, buf)
  | .ok (.ok (), rest) => do
    let k ← Checked.sub buf.length rest.length
    return (.ok k, buf)

/-- The rest of a frame of type `ty`, in `try_next`. -/
def frameBody (ty : FrameType) : Get FrameParseError Frame :=
  match ty with
  | .padding => return .padding
  | .resetStream => do
    let id ← getVarint
    let errorCode ← getVarint
    let finalOffset ← getVarint
    return .resetStream ⟨⟨id⟩, errorCode, finalOffset⟩
  | .transportClose => do
    let errorCode ← getVarint
    let x ← getVarint
    let reason ← getBytes
    return .close (.transport ⟨⟨errorCode⟩, if x = 0 then none else some ⟨x⟩, reason⟩)
  | .applicationClose => do
    let errorCode ← getVarint
    let reason ← getBytes
    return .close (.application ⟨errorCode, reason⟩)
  | .maxData => do
    let limit ← getVarint
    return .maxData limit
  | .maxStreamData => do
    let id ← getVarint
    let limit ← getVarint
    return .maxStreamData ⟨id⟩ limit
  | .maxStreamsBidi => do
    let count ← getVarint
    return .maxStreams .bi count
  | .maxStreamsUni => do
    let count ← getVarint
    return .maxStreams .uni count
  | .ping => return .ping
  | .dataBlocked => do
    let limit ← getVarint
    return .dataBlocked limit
  | .streamDataBlocked => do
    let id ← getVarint
    let limit ← getVarint
    return .streamDataBlocked ⟨id⟩ limit
  | .streamsBlockedBidi => do
    let limit ← getVarint
    return .streamsBlocked .bi limit
  | .streamsBlockedUni => do
    let limit ← getVarint
    return .streamsBlocked .uni limit
  | .stopSending => do
    let id ← getVarint
    let errorCode ← getVarint
    return .stopSending ⟨⟨id⟩, errorCode⟩
  | .retireConnectionId => do
    let sequence ← getVarint
    return .retireConnectionId sequence
  | .ack | .ackEcn => do
    let largest ← getVarint
    let delay ← getVarint
    let extraBlocks ← getVarint
    let n ← scanAckBlocks largest extraBlocks
    let additional ← Get.splitTo n
    let ecn ← (if ty ≠ .ackEcn then pure none else do
      let ect0 ← getVarint
      let ect1 ← getVarint
      let ce ← getVarint
      return some ⟨ect0, ect1, ce⟩)
    return .ack ⟨largest, delay, additional, ecn⟩
  | .pathChallenge => do
    let token ← getU64
    return .pathChallenge token
  | .pathResponse => do
    let token ← getU64
    return .pathResponse token
  | .newConnectionId => do
    let sequence ← getVarint
    let retirePriorTo ← getVarint
    if retirePriorTo > sequence then Get.fail .malformed
    else do
      let id ← Get.mapError .unexpectedEnd ConnectionId.decode
      if id.bytes.isEmpty then Get.fail .malformed
      else do
        let resetToken ← Get.mapError .unexpectedEnd (Get.tryGetSlice resetTokenSize)
        return .newConnectionId ⟨sequence, retirePriorTo, id, resetToken⟩
  | .crypto => do
    let offset ← getVarint
    let data ← getBytes
    return .crypto offset data
  | .newToken => do
    let token ← getBytes
    return .newToken token
  | .handshakeDone => return .handshakeDone
  | .immediateAck => return .immediateAck
  | ty =>
    match ty.stream, ty.datagram with
    | some s, _ => do
      let id ← getVarint
      let offset ← (if s.off then getVarint else pure 0)
      let data ← (if s.len then getBytes else Get.takeAll)
      return .stream ⟨⟨id⟩, offset, s.fin, data⟩
    | none, some d => do
      let data ← (if d.len then getBytes else Get.takeAll)
      return .datagram data
    | none, none => Get.fail .invalidFrameId

/-- `FrameParser`. -/
structure FrameParser where
  bytes : Bytes
  lastTy : Option FrameType
  deriving DecidableEq

namespace FrameParser

/-- `FrameParser::new`. -/
def new (payload : Bytes) : Except TransportError FrameParser :=
  if payload.isEmpty then .error (TransportError.protocolViolation "packet payload is empty")
  else .ok ⟨payload, none⟩

/-- `FrameParser::try_next`. -/
def tryNext (p : FrameParser) : Checked (Except FrameParseError Frame × FrameParser) := do
  match ← getVarint p.bytes with
  | (.error e, bytes) => return (.error e, { p with bytes := bytes })
  | (.ok ty, bytes) =>
    let (r, bytes) ← frameBody ⟨ty⟩ bytes
    return (r, ⟨bytes, some ⟨ty⟩⟩)

/-- `Iterator::next`. -/
def next (p : FrameParser) : Checked (Option (Except TransportError Frame) × FrameParser) :=
  if p.bytes.isEmpty then .ok (none, p)
  else do
    match ← p.tryNext with
    | (.ok x, p) => return (some (.ok x), p)
    | (.error e, p) =>
      return (some (.error { TransportError.frameEncodingError e.toText with frame := p.lastTy }),
        { p with bytes := [] })

/-- Iterate at most `n` times: the items with the number of bytes each took, and whether `next`
has returned `None`. -/
def exhaust : ℕ → FrameParser → Checked (List (Except TransportError Frame × ℕ) × Bool)
  | 0, _ => .ok ([], false)
  | n + 1, p => do
    match ← p.next with
    | (none, _) => return ([], true)
    | (some item, p') =>
      let (items, done) ← exhaust n p'
      return ((item, p.bytes.length - p'.bytes.length) :: items, done)

end FrameParser

/-! ## The ranges of an ACK frame -/

/-- `AckIter`. -/
structure AckIter where
  largest : ℕ
  data : Bytes
  deriving DecidableEq

/-- `AckIter::next`: the first and the last number of the next range. -/
def AckIter.next (it : AckIter) : Checked (Option (ℕ × ℕ) × AckIter) :=
  if it.data.isEmpty then .ok (none, it)
  else do
    match ← tryGetVarint it.data with
    | (.error _, _) => .error .unwrap
    | (.ok block, data) =>
      let (gap, data) ← tryGetVarint data
      let it' ← (match gap with
        | .ok gap => do
          let largest ← Checked.sub it.largest (block + gap + 2)
          pure ⟨largest, data⟩
        | .error _ => pure ⟨it.largest, data⟩)
      let first ← Checked.sub it.largest block
      return (some (first, it.largest), it')

/-- Iterate at most `n` times. -/
def AckIter.collect : ℕ → AckIter → Checked (List (ℕ × ℕ))
  | 0, _ => .ok []
  | n + 1, it => do
    match ← it.next with
    | (none, _) => return []
    | (some r, it) => return r :: (← AckIter.collect n it)

/-- The ranges of an ACK frame; each takes at least one byte of `additional`. -/
def Ack.iter (a : Ack) : Checked (List (ℕ × ℕ)) :=
  AckIter.collect a.additional.length ⟨a.largest, a.additional⟩

end MzQuic
