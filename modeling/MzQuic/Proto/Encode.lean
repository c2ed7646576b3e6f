import MzQuic.Proto.Frame

/-!
# Frames are read as they were written (`proto/src/frame.rs`)

* `StreamMeta.header`: what `StreamMeta::encode` appends (`encode_ok`);
* `FrameParser.tryNext_stream`: a header, followed by the data, is read as that STREAM frame;
* **`FrameParser.exhaust_frames`**: a payload that consists of readable frames is read as these
  frames;
* `FrameParser.Wrote`: a buffer after frames were written to it, each of which is read back.
-/

namespace MzQuic

open Lib

theorem putVarint_ok {v : ℕ} {out out' : BufMut} (h : putVarint v out = .ok out') :
    v < 2 ^ 62 ∧ varintSize v ≤ out.remainingMut ∧ out' = out.append (varintBytes v) := by
  have hv : v < 2 ^ 62 := by
    by_contra hv
    rw [putVarint_eq_error (by omega)] at h
    cases h
  obtain ⟨h1, h2⟩ := (appends_putVarint hv).eq_ok h
  exact ⟨hv, by rwa [length_varintBytes] at h1, h2⟩

theorem getVarint_append {v : ℕ} (h : v < 2 ^ 62) (s : Bytes) :
    getVarint (varintBytes v ++ s) = .ok (.ok v, s) :=
  Get.mapError_ok (tryGetVarint_varintBytes h s)

theorem getBytes_append {bs : Bytes} (h : bs.length < 2 ^ 62) (s : Bytes) :
    getBytes (varintBytes bs.length ++ (bs ++ s)) = .ok (.ok bs, s) := by
  rw [← List.append_assoc]
  exact Get.mapError_ok (tryGetBytesWithVarintLength_append h s)

/-- A type, and then the rest of a frame of that type. -/
theorem FrameParser.tryNext_append {ty : ℕ} {f : Frame} {b s : Bytes} (hty : ty < 2 ^ 62)
    (hb : frameBody ⟨ty⟩ b = .ok (.ok f, s)) (last : Option FrameType) :
    tryNext ⟨varintBytes ty ++ b, last⟩ = .ok (.ok f, ⟨s, some ⟨ty⟩⟩) := by
  unfold tryNext
  dsimp only
  rw [getVarint_append hty, Checked.ok_bind]
  dsimp only
  rw [hb]
  rfl

/-! ## STREAM frames -/

namespace StreamMeta

/-- What `StreamMeta::encode` appends. -/
def header (m : StreamMeta) (length : Bool) : Bytes :=
  varintBytes (m.ty length) ++ (varintBytes m.id.val ++
    ((if m.offsets.start ≠ 0 then varintBytes m.offsets.start else []) ++
      if length then varintBytes (m.offsets.end - m.offsets.start) else []))

/-- The frame that carries the bytes of `W` at the offsets of `m`. -/
def frame (m : StreamMeta) (W : Bytes) : Stream :=
  ⟨m.id, m.offsets.start, m.fin, (W.drop m.offsets.start).take (m.offsets.end - m.offsets.start)⟩

theorem ty_lt (m : StreamMeta) (length : Bool) : m.ty length < 2 ^ 6 := by
  unfold ty
  split_ifs <;> decide

theorem encode_ok {m : StreamMeta} {length : Bool} {out out' : BufMut}
    (h : m.encode length out = .ok out') :
    m.id.val < 2 ^ 62 ∧ m.offsets.start < 2 ^ 62 ∧
      (length = true → m.offsets.end - m.offsets.start < 2 ^ 62) ∧
      (m.header length).length ≤ out.remainingMut ∧ out' = out.append (m.header length) := by
  unfold encode at h
  obtain ⟨b1, h1, h⟩ := Checked.bind_eq_ok.mp h
  obtain ⟨-, r1, rfl⟩ := putVarint_ok h1
  obtain ⟨b2, h2, h⟩ := Checked.bind_eq_ok.mp h
  obtain ⟨hid, r2, rfl⟩ := putVarint_ok h2
  obtain ⟨b3, h3, h⟩ := Checked.bind_eq_ok.mp h
  -- the offset is written unless it is 0
  have hoff : m.offsets.start < 2 ^ 62 ∧
      (if m.offsets.start ≠ 0 then varintBytes m.offsets.start else []).length ≤
        ((out.append (varintBytes (m.ty length))).append (varintBytes m.id.val)).remainingMut ∧
      b3 = ((out.append (varintBytes (m.ty length))).append (varintBytes m.id.val)).append
        (if m.offsets.start ≠ 0 then varintBytes m.offsets.start else []) := by
    split_ifs at h3 with h0
    · obtain ⟨hv, hr, rfl⟩ := putVarint_ok h3
      rw [if_pos h0]
      exact ⟨hv, by rwa [length_varintBytes], rfl⟩
    · cases h3
      rw [if_neg h0]
      exact ⟨by omega, by simp, by simp⟩
  obtain ⟨hs, r3, rfl⟩ := hoff
  have hlast : (length = true → m.offsets.end - m.offsets.start < 2 ^ 62) ∧
      (if length then varintBytes (m.offsets.end - m.offsets.start) else []).length ≤
        (((out.append (varintBytes (m.ty length))).append (varintBytes m.id.val)).append
          (if m.offsets.start ≠ 0 then varintBytes m.offsets.start else [])).remainingMut ∧
      out' = (((out.append (varintBytes (m.ty length))).append (varintBytes m.id.val)).append
          (if m.offsets.start ≠ 0 then varintBytes m.offsets.start else [])).append
        (if length then varintBytes (m.offsets.end - m.offsets.start) else []) := by
    cases length with
    | false => cases h; exact ⟨fun h => (by cases h), by simp, by simp⟩
    | true =>
        obtain ⟨n, h4, h⟩ := Checked.bind_eq_ok.mp h
        obtain ⟨-, rfl⟩ := Checked.sub_eq_ok.mp h4
        obtain ⟨hv, hr, rfl⟩ := putVarint_ok h
        exact ⟨fun _ => hv, by simpa using hr, by simp⟩
  obtain ⟨hl, r4, rfl⟩ := hlast
  refine ⟨hid, hs, hl, ?_, by simp [header]⟩
  simp only [BufMut.append, length_varintBytes, header, List.length_append] at r1 r2 r3 r4 ⊢
  omega

end StreamMeta

theorem frameBody_flags (off len fin : Bool) :
    frameBody ⟨streamTysStart ||| (if off then 0x04 else 0) ||| (if len then 0x02 else 0) |||
        (if fin then 0x01 else 0)⟩ = (do
      let id ← getVarint
      let offset ← (if off then getVarint else pure 0)
      let data ← (if len then getBytes else Get.takeAll)
      return .stream ⟨⟨id⟩, offset, fin, data⟩) := by
  cases off <;> cases len <;> cases fin <;> rfl

/-- An offset is written unless it is 0. -/
theorem getOffset_append {offset : ℕ} (h : offset < 2 ^ 62) (s : Bytes) :
    (if offset ≠ 0 then getVarint else pure 0) ((if offset ≠ 0 then varintBytes offset else []) ++ s) =
      .ok (.ok offset, s) := by
  by_cases h0 : offset ≠ 0
  · rw [if_pos h0, if_pos h0]
    exact getVarint_append h s
  · rw [if_neg h0, if_neg h0, not_not.mp h0]
    rfl

/-- Without a length, data take everything that follows. -/
theorem getData_append {data : Bytes} (hd : data.length < 2 ^ 62) {length : Bool} {s : Bytes}
    (hs : length = true ∨ s = []) :
    (if length then getBytes else Get.takeAll) ((if length then varintBytes data.length else []) ++ (data ++ s)) =
      .ok (.ok data, s) := by
  cases length with
  | true => exact getBytes_append hd s
  | false =>
      obtain rfl : s = [] := hs.resolve_left Bool.false_ne_true
      rw [List.append_nil]
      rfl

namespace FrameParser

/-- **A STREAM frame is read as it was written**, whatever follows it if it has a length. -/
theorem tryNext_stream {m : StreamMeta} {length : Bool} {data : Bytes} (hid : m.id.val < 2 ^ 62)
    (hoff : m.offsets.start < 2 ^ 62) (hd : data.length < 2 ^ 62)
    (hlen : m.offsets.end - m.offsets.start = data.length) {s : Bytes} (hs : length = true ∨ s = [])
    (ty : Option FrameType) :
    tryNext ⟨m.header length ++ (data ++ s), ty⟩ =
      .ok (.ok (.stream ⟨m.id, m.offsets.start, m.fin, data⟩), ⟨s, some ⟨m.ty length⟩⟩) := by
  have hbody := frameBody_flags (decide (m.offsets.start ≠ 0)) length m.fin
  simp only [decide_eq_true_eq] at hbody
  unfold StreamMeta.header
  rw [hlen]
  simp only [List.append_assoc]
  refine tryNext_append ((m.ty_lt length).trans (by norm_num)) ?_ ty
  unfold StreamMeta.ty
  rw [hbody, Get.bind_ok (getVarint_append hid _), Get.bind_ok (getOffset_append hoff _),
    Get.bind_ok (getData_append hd hs)]
  rfl

/-- `b` is the concatenation of encodings of `frames`, each of which is read back from its place. -/
def Spells : List Frame → Bytes → Prop
  | [], b => b = []
  | f :: fs, b => ∃ s, s.length < b.length ∧ Spells fs s ∧
      ∀ ty, ∃ ty', tryNext ⟨b, ty⟩ = .ok (.ok f, ⟨s, ty'⟩)

theorem Spells.ne_nil {fs : List Frame} {b : Bytes} (h : Spells fs b) (hfs : fs ≠ []) : b ≠ [] := by
  cases fs with
  | nil => exact absurd rfl hfs
  | cons f fs =>
      obtain ⟨s, hlt, -⟩ := h
      rintro rfl
      exact absurd hlt (Nat.not_lt_zero _)

/-- **A payload that spells frames is read as these frames.** -/
theorem exhaust_frames {fs : List Frame} {b : Bytes} (h : Spells fs b) {n : ℕ} (hn : b.length < n)
    (ty : Option FrameType) :
    ∃ items, exhaust n ⟨b, ty⟩ = .ok (items, true) ∧ items.map Prod.fst = fs.map .ok := by
  induction fs generalizing b n ty with
  | nil =>
      cases h
      obtain ⟨n, rfl⟩ : ∃ k, n = k + 1 := ⟨n - 1, by omega⟩
      exact ⟨[], rfl, rfl⟩
  | cons f fs ih =>
      obtain ⟨s, hlt, hs, hf⟩ := h
      obtain ⟨n, rfl⟩ : ∃ k, n = k + 1 := ⟨n - 1, by omega⟩
      obtain ⟨ty', he⟩ := hf ty
      obtain ⟨items, hi, hm⟩ := ih hs (show s.length < n by omega) ty'
      have hne : b.isEmpty = false := by
        rw [List.isEmpty_eq_false_iff]
        intro h0
        rw [h0] at hlt
        exact absurd hlt (Nat.not_lt_zero _)
      refine ⟨(.ok f, b.length - s.length) :: items, ?_, by simp [hm]⟩
      rw [exhaust, next]
      simp only [hne, Bool.false_eq_true, if_false, he, Checked.ok_bind, Checked.pure_eq, hi]

/-- What was written to the buffer are encodings of `fs`. -/
def Wrote (fs : List Frame) (out out' : BufMut) : Prop :=
  ∃ bs : Bytes, bs.length ≤ out.remainingMut ∧ out' = out.append bs ∧
    ∀ gs s, Spells gs s → Spells (fs ++ gs) (bs ++ s)

namespace Wrote

variable {fs gs : List Frame} {out out₁ out₂ : BufMut}

theorem nil (out : BufMut) : Wrote [] out out :=
  ⟨[], Nat.zero_le _, (BufMut.append_nil out).symm, fun _ _ h => h⟩

theorem append (h : Wrote fs out out₁) (h' : Wrote gs out₁ out₂) : Wrote (fs ++ gs) out out₂ := by
  obtain ⟨a, ha, rfl, hfs⟩ := h
  obtain ⟨b, hb, rfl, hgs⟩ := h'
  refine ⟨a ++ b, ?_, BufMut.append_append out a b, fun es s hs => ?_⟩
  · simp only [BufMut.append] at hb
    rw [List.length_append]
    omega
  · rw [List.append_assoc, List.append_assoc]
    exact hfs _ _ (hgs _ _ hs)

/-- One frame. -/
theorem single {f : Frame} {bs : Bytes} (hle : bs.length ≤ out.remainingMut)
    (hread : ∀ ty s, ∃ ty', tryNext ⟨bs ++ s, ty⟩ = .ok (.ok f, ⟨s, ty'⟩)) :
    Wrote [f] out (out.append bs) := by
  refine ⟨bs, hle, rfl, fun gs s hs => ⟨s, ?_, hs, fun ty => hread ty s⟩⟩
  have hne : bs ≠ [] := by
    rintro rfl
    obtain ⟨ty, h⟩ := hread none []
    cases h
  have := List.length_pos_iff.mpr hne
  rw [List.length_append]
  omega

theorem toExtends (h : Wrote fs out out₁) : out.Extends out₁ := by
  obtain ⟨bs, hle, he, -⟩ := h
  exact ⟨bs, hle, he⟩

/-- The bytes that were written. -/
theorem spells (h : Wrote fs out out₁) : ∃ bs, out₁ = out.append bs ∧ Spells fs bs := by
  obtain ⟨bs, -, he, hs⟩ := h
  have hbs := hs [] [] rfl
  rw [List.append_nil, List.append_nil] at hbs
  exact ⟨bs, he, hbs⟩

theorem eq_of_nil (h : Wrote [] out out₁) : out₁ = out := by
  obtain ⟨bs, rfl, hbs⟩ := h.spells
  rw [show bs = [] from hbs, BufMut.append_nil]

end Wrote

/-- The frames of a payload, or the first error in it. -/
def frames (payload : Bytes) : Checked (Except TransportError (List Frame)) :=
  match new payload with
  | .error e => .ok (.error e)
  | .ok p => do
    let (items, _) ← p.exhaust (payload.length + 1)
    return items.mapM Prod.fst

/-- The items that make up a list of frames. -/
theorem mapM_fst_eq_ok {items : List (Except TransportError Frame × ℕ)} {fs : List Frame} :
    items.mapM Prod.fst = .ok fs ↔ items.map Prod.fst = fs.map .ok := by
  induction items generalizing fs with
  | nil =>
      cases fs with
      | nil => exact iff_of_true rfl rfl
      | cons f fs => exact iff_of_false (fun h => by cases h) (fun h => by cases h)
  | cons item items ih =>
      obtain ⟨r, n⟩ := item
      rw [List.mapM_cons, List.map_cons]
      cases r with
      | error e =>
          refine iff_of_false (fun h => by cases h) fun h => ?_
          cases fs <;> cases h
      | ok f =>
          cases fs with
          | nil =>
              refine iff_of_false (fun h => ?_) (fun h => by cases h)
              cases hm : items.mapM Prod.fst <;> rw [hm] at h <;> cases h
          | cons f' fs =>
              rw [List.map_cons, List.cons.injEq, ← ih]
              cases items.mapM Prod.fst with
              | error e => exact iff_of_false (fun h => by cases h) (fun h => by cases h.2)
              | ok fs' =>
                  show Except.ok (f :: fs') = Except.ok (f' :: fs) ↔ _
                  simp

/-- **The frames of a payload that spells frames.** -/
theorem frames_of_spells {fs : List Frame} {b : Bytes} (h : Spells fs b) (hb : b ≠ []) :
    frames b = .ok (.ok fs) := by
  obtain ⟨items, he, hm⟩ := exhaust_frames h (Nat.lt_succ_self b.length) none
  unfold frames new
  rw [if_neg (by simpa using hb)]
  dsimp only
  rw [he, Checked.ok_bind]
  exact congrArg Except.ok (mapM_fst_eq_ok.mpr hm)

/-- What is read of a payload that has only frames. -/
theorem frames_ok {payload : Bytes} {fs : List Frame} (h : frames payload = .ok (.ok fs)) :
    ∃ p items done, new payload = .ok p ∧ p.exhaust (payload.length + 1) = .ok (items, done) ∧
      items.map Prod.fst = fs.map .ok := by
  unfold frames at h
  split at h
  · cases h
  · rename_i p hp
    obtain ⟨⟨items, done⟩, he, h⟩ := Checked.bind_eq_ok.mp h
    exact ⟨p, items, done, hp, he, mapM_fst_eq_ok.mp (Except.ok.inj h)⟩

end FrameParser

end MzQuic
