import MzQuic.Proto.Encode

/-!
# Frame payloads round-trip (`proto/src/frame.rs`)

A payload is the concatenation of frames, and a frame ends where its reader stops. Every frame but the
last must therefore carry its own length.

* `Encoding`: a frame with what its `encode` is given besides it, and `Encoding.write`;
* `Encoding.bytes`: what is written (`Encoding.appends_write`);
* `Encoding.tryNext_bytes`: it is read as the frame, one case per kind;
* **`payload_round_trip`**: `FrameParser` over the encodings of a list of frames yields these frames.
-/

namespace MzQuic

open Lib

/-! ## Encodings -/

/-- The metadata with which a STREAM frame is written. -/
def Stream.toMeta (s : Stream) : StreamMeta := ⟨s.id, ⟨s.offset, s.offset + s.data.length⟩, s.fin⟩

/-- A frame with what its writer is given besides it: whether its length is written, or how long it may
get. -/
inductive Encoding
  | resetStream (r : ResetStream)
  | stopSending (s : StopSending)
  | crypto (offset : ℕ) (data : Bytes)
  | newToken (token : Bytes)
  | stream (s : Stream) (length : Bool)
  | newConnectionId (n : NewConnectionId)
  | close (c : ConnectionClose) (maxLen : ℕ)
  | datagram (data : Bytes) (length : Bool)

namespace ConnectionClose

/-- The error code that is written. -/
def code : ConnectionClose → ℕ
  | .transport x => x.errorCode.val
  | .application x => x.errorCode

/-- The reason. -/
def reason : ConnectionClose → Bytes
  | .transport x => x.reason
  | .application x => x.reason

/-- The bytes that the type of the offending frame takes. -/
def typeSize : ConnectionClose → ℕ
  | .transport x => varintSize (x.frameType.getD .padding).val
  | .application _ => 0

/-- The integers can be written. -/
def Writable : ConnectionClose → Prop
  | .transport x => x.errorCode.val < 2 ^ 62 ∧ (∀ ty ∈ x.frameType, ty.val < 2 ^ 62) ∧ x.reason.length < 2 ^ 62
  | .application x => x.errorCode < 2 ^ 62 ∧ x.reason.length < 2 ^ 62

/-- The frame with its reason cut to `n` bytes. -/
def cut (n : ℕ) : ConnectionClose → ConnectionClose
  | .transport x => .transport { x with reason := x.reason.take n }
  | .application x => .application { x with reason := x.reason.take n }

/-- What `encode` sets aside for everything but the reason: three bytes, the type, and the length. -/
def reserve (c : ConnectionClose) : ℕ := 3 + c.typeSize + varintSize c.reason.length

theorem cut_of_le {c : ConnectionClose} {n : ℕ} (h : c.reason.length ≤ n) : c.cut n = c := by
  cases c with
  | transport x =>
      show ConnectionClose.transport { x with reason := x.reason.take n } = _
      rw [List.take_of_length_le (show x.reason.length ≤ n from h)]
  | application x =>
      show ConnectionClose.application { x with reason := x.reason.take n } = _
      rw [List.take_of_length_le (show x.reason.length ≤ n from h)]

end ConnectionClose

namespace Encoding

/-- The frame. -/
def frame : Encoding → Frame
  | .resetStream r => .resetStream r
  | .stopSending s => .stopSending s
  | .crypto offset data => .crypto offset data
  | .newToken token => .newToken token
  | .stream s _ => .stream s
  | .newConnectionId n => .newConnectionId n
  | .close c _ => .close c
  | .datagram data _ => .datagram data

/-- Write the frame; the data of a STREAM frame follow its metadata. -/
def write : Encoding → BufMut → Checked BufMut
  | .resetStream r, out => r.encode out
  | .stopSending s, out => s.encode out
  | .crypto offset data, out => Crypto.encode offset data out
  | .newToken token, out => NewToken.encode token out
  | .stream s length, out => do
    let out ← s.toMeta.encode length out
    out.putSlice s.data
  | .newConnectionId n, out => n.encode out
  | .close c maxLen, out => c.encode maxLen out
  | .datagram data length, out => Datagram.encode data length out

/-- The frame says where it ends. -/
def delimited : Encoding → Bool
  | .stream _ length | .datagram _ length => length
  | _ => true

/-- The reason fits `max_len`, and the integers can be written. -/
def ValidClose (maxLen : ℕ) : ConnectionClose → Prop
  | .transport x => x.errorCode.val < 2 ^ 62 ∧ (∀ ty ∈ x.frameType, ty.val < 2 ^ 62) ∧
      x.frameType ≠ some .padding ∧ x.reason.length < 2 ^ 62 ∧
      3 + varintSize (x.frameType.getD .padding).val + varintSize x.reason.length + x.reason.length ≤ maxLen
  | .application x => x.errorCode < 2 ^ 62 ∧ x.reason.length < 2 ^ 62 ∧
      3 + varintSize x.reason.length + x.reason.length ≤ maxLen

/-- Every integer is below `2 ^ 62`, and the frame is one that the reader takes for well-formed. -/
def Valid : Encoding → Prop
  | .resetStream r => r.id.val < 2 ^ 62 ∧ r.errorCode < 2 ^ 62 ∧ r.finalOffset < 2 ^ 62
  | .stopSending s => s.id.val < 2 ^ 62 ∧ s.errorCode < 2 ^ 62
  | .crypto offset data => offset < 2 ^ 62 ∧ data.length < 2 ^ 62
  | .newToken token => token.length < 2 ^ 62
  | .stream s _ => s.id.val < 2 ^ 62 ∧ s.offset < 2 ^ 62 ∧ s.data.length < 2 ^ 62
  | .newConnectionId n => n.sequence < 2 ^ 62 ∧ n.retirePriorTo ≤ n.sequence ∧ n.id.bytes ≠ [] ∧
      n.resetToken.length = resetTokenSize
  | .close c maxLen => ValidClose maxLen c
  | .datagram data _ => data.length < 2 ^ 62

/-- What a close frame is written as. -/
def closeBytes : ConnectionClose → Bytes
  | .transport x => varintBytes FrameType.transportClose.val ++ (varintBytes x.errorCode.val ++
      (varintBytes (x.frameType.getD .padding).val ++ (varintBytes x.reason.length ++ x.reason)))
  | .application x => varintBytes FrameType.applicationClose.val ++ (varintBytes x.errorCode ++
      (varintBytes x.reason.length ++ x.reason))

/-- What the frame is written as. -/
def bytes : Encoding → Bytes
  | .resetStream r => varintBytes FrameType.resetStream.val ++ (varintBytes r.id.val ++
      (varintBytes r.errorCode ++ varintBytes r.finalOffset))
  | .stopSending s => varintBytes FrameType.stopSending.val ++ (varintBytes s.id.val ++
      varintBytes s.errorCode)
  | .crypto offset data => varintBytes FrameType.crypto.val ++ (varintBytes offset ++
      (varintBytes data.length ++ data))
  | .newToken token => varintBytes FrameType.newToken.val ++ (varintBytes token.length ++ token)
  | .stream s length => s.toMeta.header length ++ s.data
  | .newConnectionId n => varintBytes FrameType.newConnectionId.val ++ (varintBytes n.sequence ++
      (varintBytes n.retirePriorTo ++ ((beBytes 1 n.id.bytes.length ++ n.id.bytes) ++ n.resetToken)))
  | .close c _ => closeBytes c
  | .datagram data length => varintBytes (datagramTysStart ||| length.toNat) ++
      ((if length then varintBytes data.length else []) ++ data)

/-! ## What is written -/

theorem appends_meta {m : StreamMeta} {length : Bool} (hid : m.id.val < 2 ^ 62) (hs : m.offsets.start < 2 ^ 62)
    (hle : m.offsets.start ≤ m.offsets.end) (hd : m.offsets.end - m.offsets.start < 2 ^ 62) :
    Appends (m.encode length) (m.header length) := by
  have hoff : Appends (fun out => if m.offsets.start ≠ 0 then putVarint m.offsets.start out else pure out)
      (if m.offsets.start ≠ 0 then varintBytes m.offsets.start else []) :=
    .ite (fun _ => appends_putVarint hs) fun _ => appends_nil
  have hlen : Appends (fun out => if length then
        Checked.sub m.offsets.end m.offsets.start >>= fun n => putVarint n out
      else pure out) (if length then varintBytes (m.offsets.end - m.offsets.start) else []) := by
    rw [Checked.sub_of_le hle]
    exact .ite (fun _ => appends_putVarint hd) fun _ => appends_nil
  exact (appends_putVarint ((m.ty_lt length).trans (by norm_num))).seq
    ((appends_putVarint hid).seq (hoff.seq hlen))

/-- The reason is cut to what the limit leaves beside the reserve. -/
theorem appends_close_cut {c : ConnectionClose} {maxLen : ℕ} (hc : c.Writable) (hm : c.reserve ≤ maxLen) :
    Appends (c.encode maxLen) (closeBytes (c.cut (min c.reason.length (maxLen - c.reserve)))) := by
  cases c with
  | transport x =>
      obtain ⟨herr, hty, hreason⟩ := hc
      have hty' : (x.frameType.getD .padding).val < 2 ^ 62 := by
        cases hx : x.frameType with
        | none => decide
        | some ty => exact hty ty hx
      simp only [ConnectionClose.reserve, ConnectionClose.typeSize, ConnectionClose.reason] at hm ⊢
      have h3 : 3 ≤ maxLen := by omega
      have h4 : varintSize (x.frameType.getD .padding).val ≤ maxLen - 3 := by omega
      have h5 : varintSize x.reason.length ≤ maxLen - (3 + varintSize (x.frameType.getD .padding).val) := by omega
      have heq : x.encode maxLen = fun out => putVarint FrameType.transportClose.val out >>= fun out =>
          putVarint x.errorCode.val out >>= fun out => putVarint (x.frameType.getD .padding).val out >>=
          putBytesWithVarintLength (x.reason.take (min x.reason.length (maxLen -
            (3 + varintSize (x.frameType.getD .padding).val + varintSize x.reason.length)))) := by
        funext out
        unfold TransportClose.encode
        simp only [Checked.ok_bind, varintLen_eq hty', varintLen_eq hreason, Checked.sub_of_le h3,
          Checked.sub_of_le h4, Nat.sub_sub, Checked.sub_of_le h5]
      show Appends (x.encode maxLen) _
      rw [heq]
      exact (appends_putVarint (by decide)).seq ((appends_putVarint herr).seq
        ((appends_putVarint hty').seq (appends_putBytesWithVarintLength (by
          rw [List.length_take]
          omega))))
  | application x =>
      obtain ⟨herr, hreason⟩ := hc
      simp only [ConnectionClose.reserve, ConnectionClose.typeSize, ConnectionClose.reason, Nat.add_zero] at hm ⊢
      have h3 : 3 ≤ maxLen := by omega
      have h4 : varintSize x.reason.length ≤ maxLen - 3 := by omega
      have heq : x.encode maxLen = fun out => putVarint FrameType.applicationClose.val out >>= fun out =>
          putVarint x.errorCode out >>= putBytesWithVarintLength (x.reason.take (min x.reason.length
            (maxLen - (3 + varintSize x.reason.length)))) := by
        funext out
        unfold ApplicationClose.encode
        simp only [Checked.ok_bind, varintLen_eq hreason, Checked.sub_of_le h3, Checked.sub_of_le h4, Nat.sub_sub]
      show Appends (x.encode maxLen) _
      rw [heq]
      exact (appends_putVarint (by decide)).seq ((appends_putVarint herr).seq
        (appends_putBytesWithVarintLength (by
          rw [List.length_take]
          omega)))

/-- A reason that fits is not cut. -/
theorem appends_close {c : ConnectionClose} {maxLen : ℕ} (h : ValidClose maxLen c) :
    Appends (c.encode maxLen) (closeBytes c) := by
  have hc : c.Writable ∧ c.reserve + c.reason.length ≤ maxLen := by
    cases c with
    | transport x =>
        obtain ⟨herr, hty, -, hreason, hmax⟩ := h
        exact ⟨⟨herr, hty, hreason⟩, hmax⟩
    | application x =>
        obtain ⟨herr, hreason, hmax⟩ := h
        exact ⟨⟨herr, hreason⟩, hmax⟩
  have hcut := appends_close_cut hc.1 (show c.reserve ≤ maxLen by omega)
  rwa [ConnectionClose.cut_of_le (by omega)] at hcut

/-- **Every writer appends the bytes of its frame.** -/
theorem appends_write {e : Encoding} (h : e.Valid) : Appends e.write e.bytes := by
  cases e with
  | resetStream r =>
      obtain ⟨hid, herr, hfin⟩ := h
      exact (appends_putVarint (by decide)).seq ((appends_putVarint hid).seq
        ((appends_putVarint herr).seq (appends_putVarint hfin)))
  | stopSending s =>
      obtain ⟨hid, herr⟩ := h
      exact (appends_putVarint (by decide)).seq ((appends_putVarint hid).seq (appends_putVarint herr))
  | crypto offset data =>
      obtain ⟨hoff, hdata⟩ := h
      exact (appends_putVarint (by decide)).seq ((appends_putVarint hoff).seq
        ((appends_putVarint hdata).seq (appends_putSlice data)))
  | newToken token =>
      exact (appends_putVarint (by decide)).seq ((appends_putVarint h).seq (appends_putSlice token))
  | stream s length =>
      obtain ⟨hid, hoff, hdata⟩ := h
      have hsub : s.toMeta.offsets.end - s.toMeta.offsets.start = s.data.length := Nat.add_sub_cancel_left _ _
      exact (appends_meta hid hoff (Nat.le_add_right _ _) (by omega)).seq (appends_putSlice s.data)
  | newConnectionId n =>
      obtain ⟨hseq, hretire, -, -⟩ := h
      exact (appends_putVarint (by decide)).seq ((appends_putVarint hseq).seq
        ((appends_putVarint (by omega)).seq (n.id.appends_encode.seq (appends_putSlice n.resetToken))))
  | close c maxLen => exact appends_close h
  | datagram data length =>
      have hty : datagramTysStart ||| length.toNat < 2 ^ 62 := by cases length <;> decide
      have hlen : Appends (fun out => if length then putVarint data.length out else pure out)
          (if length then varintBytes data.length else []) :=
        .ite (fun _ => appends_putVarint h) fun _ => appends_nil
      exact (appends_putVarint hty).seq (hlen.seq (appends_putSlice data))

/-! ## What is read -/

theorem frameBody_newConnectionId {n : NewConnectionId} (hv : (newConnectionId n).Valid) (s : Bytes) :
    frameBody .newConnectionId (varintBytes n.sequence ++ (varintBytes n.retirePriorTo ++
      (beBytes 1 n.id.bytes.length ++ (n.id.bytes ++ (n.resetToken ++ s))))) =
        .ok (.ok (.newConnectionId n), s) := by
  obtain ⟨hseq, hretire, hid, htok⟩ := hv
  have hbody : frameBody .newConnectionId = (do
      let sequence ← getVarint
      let retirePriorTo ← getVarint
      if retirePriorTo > sequence then Get.fail .malformed
      else do
        let id ← Get.mapError .unexpectedEnd ConnectionId.decode
        if id.bytes.isEmpty then Get.fail .malformed
        else do
          let resetToken ← Get.mapError .unexpectedEnd (Get.tryGetSlice resetTokenSize)
          return .newConnectionId ⟨sequence, retirePriorTo, id, resetToken⟩) := rfl
  have hcid := Get.mapError_ok (g := FrameParseError.unexpectedEnd) (n.id.decode_append (n.resetToken ++ s))
  have htoken : Get.mapError FrameParseError.unexpectedEnd (Get.tryGetSlice resetTokenSize) (n.resetToken ++ s) =
      .ok (.ok n.resetToken, s) := by
    rw [← htok]
    exact Get.mapError_ok (Get.tryGetSlice_append n.resetToken s)
  rw [hbody, Get.bind_ok (getVarint_append hseq _), Get.bind_ok (getVarint_append (by omega) _),
    if_neg (by omega), Get.bind_ok hcid, if_neg (by simpa using hid), Get.bind_ok htoken]
  rfl

theorem tryNext_close {c : ConnectionClose} {maxLen : ℕ} (hv : ValidClose maxLen c) (s : Bytes)
    (last : Option FrameType) :
    ∃ last', FrameParser.tryNext ⟨closeBytes c ++ s, last⟩ = .ok (.ok (.close c), ⟨s, last'⟩) := by
  cases c with
  | transport x =>
      obtain ⟨herr, hty, hpad, hreason, -⟩ := hv
      -- no type is written as that of PADDING
      have hx : (x.frameType.getD .padding).val < 2 ^ 62 ∧
          (if (x.frameType.getD .padding).val = 0 then none
            else some ⟨(x.frameType.getD .padding).val⟩) = x.frameType := by
        cases hx : x.frameType with
        | none => exact ⟨by decide, rfl⟩
        | some ty =>
            refine ⟨hty ty hx, if_neg fun h0 => hpad ?_⟩
            rw [hx]
            exact congrArg (fun v => some (⟨v⟩ : FrameType)) h0
      refine ⟨some .transportClose, ?_⟩
      simp only [closeBytes, List.append_assoc]
      refine FrameParser.tryNext_append (by decide) ?_ last
      have hbody : frameBody ⟨FrameType.transportClose.val⟩ = (do
          let errorCode ← getVarint
          let x ← getVarint
          let reason ← getBytes
          return .close (.transport ⟨⟨errorCode⟩, if x = 0 then none else some ⟨x⟩, reason⟩)) := rfl
      rw [hbody, Get.bind_ok (getVarint_append herr _), Get.bind_ok (getVarint_append hx.1 _),
        Get.bind_ok (getBytes_append hreason s), hx.2]
      rfl
  | application x =>
      obtain ⟨herr, hreason, -⟩ := hv
      refine ⟨some .applicationClose, ?_⟩
      simp only [closeBytes, List.append_assoc]
      refine FrameParser.tryNext_append (by decide) ?_ last
      have hbody : frameBody ⟨FrameType.applicationClose.val⟩ = (do
          let errorCode ← getVarint
          let reason ← getBytes
          return .close (.application ⟨errorCode, reason⟩)) := rfl
      rw [hbody, Get.bind_ok (getVarint_append herr _), Get.bind_ok (getBytes_append hreason s)]
      rfl

theorem frameBody_datagram (length : Bool) :
    frameBody ⟨datagramTysStart ||| length.toNat⟩ = (do
      let data ← (if length then getBytes else Get.takeAll)
      return .datagram data) := by
  cases length <;> rfl

/-- **Every frame is read from its bytes**, whatever follows it if it says where it ends. -/
theorem tryNext_bytes {e : Encoding} (hv : e.Valid) {s : Bytes} (hs : e.delimited = true ∨ s = [])
    (last : Option FrameType) :
    ∃ last', FrameParser.tryNext ⟨e.bytes ++ s, last⟩ = .ok (.ok e.frame, ⟨s, last'⟩) := by
  cases e with
  | resetStream r =>
      obtain ⟨hid, herr, hfin⟩ := hv
      refine ⟨some .resetStream, ?_⟩
      simp only [bytes, List.append_assoc]
      refine FrameParser.tryNext_append (by decide) ?_ last
      have hbody : frameBody ⟨FrameType.resetStream.val⟩ = (do
          let id ← getVarint
          let errorCode ← getVarint
          let finalOffset ← getVarint
          return .resetStream ⟨⟨id⟩, errorCode, finalOffset⟩) := rfl
      rw [hbody, Get.bind_ok (getVarint_append hid _), Get.bind_ok (getVarint_append herr _),
        Get.bind_ok (getVarint_append hfin _)]
      rfl
  | stopSending x =>
      obtain ⟨hid, herr⟩ := hv
      refine ⟨some .stopSending, ?_⟩
      simp only [bytes, List.append_assoc]
      refine FrameParser.tryNext_append (by decide) ?_ last
      have hbody : frameBody ⟨FrameType.stopSending.val⟩ = (do
          let id ← getVarint
          let errorCode ← getVarint
          return .stopSending ⟨⟨id⟩, errorCode⟩) := rfl
      rw [hbody, Get.bind_ok (getVarint_append hid _), Get.bind_ok (getVarint_append herr _)]
      rfl
  | crypto offset data =>
      obtain ⟨hoff, hdata⟩ := hv
      refine ⟨some .crypto, ?_⟩
      simp only [bytes, List.append_assoc]
      refine FrameParser.tryNext_append (by decide) ?_ last
      have hbody : frameBody ⟨FrameType.crypto.val⟩ = (do
          let offset ← getVarint
          let data ← getBytes
          return .crypto offset data) := rfl
      rw [hbody, Get.bind_ok (getVarint_append hoff _), Get.bind_ok (getBytes_append hdata s)]
      rfl
  | newToken token =>
      refine ⟨some .newToken, ?_⟩
      simp only [bytes, List.append_assoc]
      refine FrameParser.tryNext_append (by decide) ?_ last
      have hbody : frameBody ⟨FrameType.newToken.val⟩ = (do
          let token ← getBytes
          return .newToken token) := rfl
      rw [hbody, Get.bind_ok (getBytes_append hv s)]
      rfl
  | stream x length =>
      obtain ⟨hid, hoff, hdata⟩ := hv
      refine ⟨some ⟨x.toMeta.ty length⟩, ?_⟩
      rw [bytes, List.append_assoc]
      exact FrameParser.tryNext_stream hid hoff hdata (Nat.add_sub_cancel_left _ _) hs last
  | newConnectionId n =>
      refine ⟨some .newConnectionId, ?_⟩
      simp only [bytes, List.append_assoc]
      exact FrameParser.tryNext_append (by decide) (frameBody_newConnectionId hv s) last
  | close c maxLen => exact tryNext_close hv s last
  | datagram data length =>
      refine ⟨some ⟨datagramTysStart ||| length.toNat⟩, ?_⟩
      simp only [bytes, List.append_assoc]
      refine FrameParser.tryNext_append (by cases length <;> decide) ?_ last
      have hs' : length = true ∨ s = [] := hs
      rw [frameBody_datagram, Get.bind_ok (getData_append hv hs')]
      rfl

theorem bytes_ne_nil {e : Encoding} (hv : e.Valid) : e.bytes ≠ [] := by
  intro h
  obtain ⟨last, hr⟩ := tryNext_bytes hv (.inr rfl) none
  rw [h] at hr
  cases hr

/-- Write frames one after the other. -/
def writeAll : List Encoding → BufMut → Checked BufMut
  | [], out => .ok out
  | e :: es, out => do
    let out ← e.write out
    writeAll es out

theorem appends_writeAll {es : List Encoding} (hv : ∀ e ∈ es, e.Valid) :
    Appends (writeAll es) (es.flatMap bytes) := by
  induction es with
  | nil => exact appends_nil
  | cons e es ih =>
      rw [List.flatMap_cons]
      exact (appends_write (hv e List.mem_cons_self)).seq (ih fun e he => hv e (List.mem_cons_of_mem _ he))

/-- Frames all of which but the last say where they end are told apart. -/
theorem spells_bytes {es : List Encoding} (hv : ∀ e ∈ es, e.Valid)
    (hd : ∀ e ∈ es.dropLast, e.delimited = true) :
    FrameParser.Spells (es.map frame) (es.flatMap bytes) := by
  induction es with
  | nil => rfl
  | cons e es ih =>
      have hve := hv e List.mem_cons_self
      have hs : e.delimited = true ∨ es.flatMap bytes = [] := by
        cases es with
        | nil => exact .inr rfl
        | cons e' es => exact .inl (hd e List.mem_cons_self)
      have hd' : ∀ e' ∈ es.dropLast, e'.delimited = true := by
        intro e' he'
        cases es with
        | nil => cases he'
        | cons e'' es => exact hd e' (List.mem_cons_of_mem _ he')
      rw [List.map_cons, List.flatMap_cons]
      refine ⟨es.flatMap bytes, ?_, ih (fun e he => hv e (List.mem_cons_of_mem _ he)) hd',
        fun ty => tryNext_bytes hve hs ty⟩
      have hpos := List.length_pos_iff.mpr (bytes_ne_nil hve)
      rw [List.length_append]
      omega

end Encoding

/-! ## Frames that were written -/

/-- A frame that was written and says where it ends is read back from its place. -/
theorem Encoding.wrote {e : Encoding} (hv : e.Valid) (hd : e.delimited = true) {out out' : BufMut}
    (h : e.write out = .ok out') : FrameParser.Wrote [e.frame] out out' := by
  obtain ⟨hle, rfl⟩ := (appends_write hv).eq_ok h
  exact .single hle fun ty s => tryNext_bytes hv (.inl hd) ty

theorem ResetStream.encode_wrote {r : ResetStream} {out out' : BufMut} (h : r.encode out = .ok out') :
    FrameParser.Wrote [.resetStream r] out out' := by
  have hv : (Encoding.resetStream r).Valid := by
    obtain ⟨o1, -, h⟩ := Checked.bind_eq_ok.mp h
    obtain ⟨o2, hid, h⟩ := Checked.bind_eq_ok.mp h
    obtain ⟨o3, herr, hfin⟩ := Checked.bind_eq_ok.mp h
    exact ⟨(putVarint_ok hid).1, (putVarint_ok herr).1, (putVarint_ok hfin).1⟩
  exact Encoding.wrote hv rfl h

theorem StopSending.encode_wrote {x : StopSending} {out out' : BufMut} (h : x.encode out = .ok out') :
    FrameParser.Wrote [.stopSending x] out out' := by
  have hv : (Encoding.stopSending x).Valid := by
    obtain ⟨o1, -, h⟩ := Checked.bind_eq_ok.mp h
    obtain ⟨o2, hid, herr⟩ := Checked.bind_eq_ok.mp h
    exact ⟨(putVarint_ok hid).1, (putVarint_ok herr).1⟩
  exact Encoding.wrote hv rfl h

/-! ## Round trip -/

/-- **Frame payloads round-trip.** Let the frames of a nonempty list be of the kinds RESET_STREAM,
STOP_SENDING, CRYPTO, NEW_TOKEN, STREAM, NEW_CONNECTION_ID, CONNECTION_CLOSE and DATAGRAM, with integers below
`2 ^ 62`, and let all but the last be written with a length where they have one. Writing them one after the
other appends the same bytes to every buffer with room for them, and `FrameParser` over these bytes yields
exactly these frames, no error, and then ends. -/
theorem payload_round_trip (es : List Encoding) (hne : es ≠ []) (hv : ∀ e ∈ es, e.Valid)
    (hd : ∀ e ∈ es.dropLast, e.delimited = true) :
    ∃ bs : Bytes, Appends (Encoding.writeAll es) bs ∧
      ∃ p, FrameParser.new bs = .ok p ∧
        ∀ n, bs.length < n → ∃ items, p.exhaust n = .ok (items, true) ∧
          items.map Prod.fst = es.map fun e => .ok e.frame := by
  have hs := Encoding.spells_bytes hv hd
  have hbs : es.flatMap Encoding.bytes ≠ [] := hs.ne_nil (by simpa using hne)
  refine ⟨es.flatMap Encoding.bytes, Encoding.appends_writeAll hv, ⟨es.flatMap Encoding.bytes, none⟩, ?_,
    fun n hn => ?_⟩
  · rw [FrameParser.new, if_neg (by simpa using hbs)]
  · obtain ⟨items, he, hm⟩ := FrameParser.exhaust_frames hs hn none
    refine ⟨items, he, ?_⟩
    rw [hm, List.map_map]
    rfl

/-- A close frame, a new connection id and, without a length, the last bytes of a stream. -/
theorem payload_round_trip_three : ∃ es : List Encoding,
    es = [.close (.transport ⟨⟨0xA⟩, some .stopSending, [98, 121, 101]⟩) 20,
      .newConnectionId ⟨3, 1, ⟨[1, 2], by decide⟩, List.replicate 16 7⟩, .stream ⟨⟨4⟩, 70, true, [9, 9]⟩ false] ∧
    ∃ bs : Bytes, Appends (Encoding.writeAll es) bs ∧
      ∃ p, FrameParser.new bs = .ok p ∧
        ∀ n, bs.length < n → ∃ items, p.exhaust n = .ok (items, true) ∧
          items.map Prod.fst = es.map fun e => .ok e.frame := by
  refine ⟨_, rfl, payload_round_trip _ (by decide) ?_ ?_⟩
  · simp only [List.mem_cons, List.not_mem_nil, or_false]
    rintro e (rfl | rfl | rfl)
    · exact ⟨by decide, fun ty hty => (by cases hty; decide), by decide, by decide, by decide⟩
    · exact ⟨by decide, by decide, by decide, rfl⟩
    · exact ⟨by decide, by decide, by decide⟩
  · simp [Encoding.delimited]

end MzQuic
