import MzQuic.Connection.Output
import MzQuic.Proto.Ack
import MzQuic.Proto.Payload

/-!
# The frames that a packet is filled with

* `Noted`: frames, with what is noted of them;
* `Controls`: control frames that were written, and `writeControlFrames_controls`,
  `populateHello_controls`: which ones are;
* `populateAnyAcks_wrote`: the ACK frame of a packet.
-/

namespace MzQuic

open Lib

/-! ## Frames and what is noted of them -/

/-- The largest number that an ACK frame acknowledges. -/
def Frame.largestAcked : Frame → Option ℕ
  | .ack a => some a.largest
  | _ => none

/-- What is noted of a STREAM frame. -/
def Frame.streamMeta : Frame → Option StreamMeta
  | .stream s => some ⟨s.id, ⟨s.offset, s.offset + s.data.length⟩, s.fin⟩
  | _ => none

/-- The frames that elicit an ACK and of which nothing else is noted. -/
def Frame.isControl : Frame → Bool
  | .ping | .crypto .. | .resetStream _ | .stopSending _ => true
  | _ => false

/-- What is noted of the frames `fs` is true of them. -/
structure Noted (fs : List Frame) (largestAcked : Option ℕ) (streamFrames : List StreamMeta)
    (ackEliciting : Bool) : Prop where
  acks : fs.filterMap Frame.largestAcked = largestAcked.toList
  streams : fs.filterMap Frame.streamMeta = streamFrames
  eliciting : fs.any Frame.isAckEliciting = ackEliciting

section Noted

variable {fs gs : List Frame} {largest : Option ℕ} {ms ms' : List StreamMeta} {b b' : Bool}

theorem Noted.append (h : Noted fs largest ms b) (h' : Noted gs none ms' b') :
    Noted (fs ++ gs) largest (ms ++ ms') (b || b') where
  acks := by rw [List.filterMap_append, h.acks, h'.acks, Option.toList_none, List.append_nil]
  streams := by rw [List.filterMap_append, h.streams, h'.streams]
  eliciting := by rw [List.any_append, h.eliciting, h'.eliciting]

theorem noted_nil : Noted [] none [] false := ⟨rfl, rfl, rfl⟩

theorem noted_ack (ack : Ack) : Noted [.ack ack] (some ack.largest) [] false := ⟨rfl, rfl, rfl⟩

theorem noted_control (h : ∀ f ∈ fs, f.isControl = true) : Noted fs none [] (!fs.isEmpty) := by
  induction fs with
  | nil => exact noted_nil
  | cons f fs ih =>
      have hf : Noted [f] none [] true := by
        have hc := h f List.mem_cons_self
        cases f with
        | ping | crypto _ _ | resetStream _ | stopSending _ => exact ⟨rfl, rfl, rfl⟩
        | _ => cases hc
      exact hf.append (ih fun g hg => h g (List.mem_cons_of_mem f hg))

theorem noted_streams (wrote : StreamId → Bytes)
    (h : ∀ m ∈ ms, m.offsets.start ≤ m.offsets.end ∧ m.offsets.end ≤ (wrote m.id).length) :
    Noted (ms.map fun m => .stream (m.frame (wrote m.id))) none ms (!ms.isEmpty) := by
  induction ms with
  | nil => exact noted_nil
  | cons m ms ih =>
      have hm : Noted [.stream (m.frame (wrote m.id))] none [m] true := by
        refine ⟨rfl, ?_, rfl⟩
        obtain ⟨h1, h2⟩ := h m List.mem_cons_self
        have hlen : m.offsets.start + (m.frame (wrote m.id)).data.length = m.offsets.end := by
          rw [StreamMeta.frame, List.length_take, List.length_drop]
          omega
        show [StreamMeta.mk m.id ⟨m.offsets.start, m.offsets.start + _⟩ m.fin] = [m]
        rw [hlen]
      exact hm.append (ih fun x hx => h x (List.mem_cons_of_mem m hx))

end Noted

/-! ## Control frames -/

/-- Control frames were written to the buffer; if there was room for one, then at least one exactly if
`b`. -/
def Controls (b : Bool) (out out' : BufMut) : Prop :=
  ∃ fs, FrameParser.Wrote fs out out' ∧ (∀ f ∈ fs, f.isControl = true) ∧
    (ResetStream.sizeBound < out.remainingMut → fs.isEmpty = !b)

namespace Controls

variable {b b' : Bool} {out out₁ out₂ : BufMut}

theorem none (out : BufMut) : Controls false out out := ⟨[], .nil out, by simp, fun _ => rfl⟩

theorem one {f : Frame} (h : FrameParser.Wrote [f] out out₁) (hf : f.isControl = true) :
    Controls true out out₁ := ⟨[f], h, by simpa using hf, fun _ => rfl⟩

/-- If nothing was written, the room is still there. -/
theorem append (h : Controls b out out₁) (h' : Controls b' out₁ out₂) : Controls (b || b') out out₂ := by
  obtain ⟨fs, hw, hf, hb⟩ := h
  obtain ⟨gs, hw', hg, hb'⟩ := h'
  refine ⟨fs ++ gs, hw.append hw', fun f hfg => ?_, fun hroom => ?_⟩
  · rcases List.mem_append.mp hfg with h | h
    · exact hf f h
    · exact hg f h
  · cases b with
    | true =>
        have hne : fs ≠ [] := List.isEmpty_eq_false_iff.mp (hb hroom)
        rw [Bool.true_or, Bool.not_true, List.isEmpty_eq_false_iff]
        exact List.append_ne_nil_of_left_ne_nil hne gs
    | false =>
        have hnil : fs = [] := List.isEmpty_iff.mp (hb hroom)
        subst hnil
        rw [hw.eq_of_nil] at hb'
        rw [List.nil_append, hb' hroom, Bool.false_or]

theorem toExtends (h : Controls b out out₁) : out.Extends out₁ := by
  obtain ⟨fs, hw, -, -⟩ := h
  exact hw.toExtends

/-- What is noted of the frames, and the room if there are none. -/
theorem noted (h : Controls b out out₁) (hroom : ResetStream.sizeBound < out.remainingMut) :
    ∃ fs, FrameParser.Wrote fs out out₁ ∧ Noted fs Option.none [] b ∧ (b = false → out₁ = out) := by
  obtain ⟨fs, hw, hf, hb⟩ := h
  have hn := noted_control hf
  rw [hb hroom, Bool.not_not] at hn
  refine ⟨fs, hw, hn, fun h0 => ?_⟩
  have hnil : fs = [] := List.isEmpty_iff.mp (by rw [hb hroom, h0, Bool.not_false])
  subst hnil
  exact hw.eq_of_nil

end Controls

section Control

variable {s : StreamsState} {buf buf' : BufMut}

/-- The resets of streams that are still there are written. -/
theorem resetLoop_controls {queue rest : List (StreamId × ℕ)} {sent sent' : ThinRetransmits}
    (h : s.resetLoop queue sent buf = .ok (rest, sent', buf')) :
    Controls (queue.any fun p => (s.send p.1).isSome) buf buf' := by
  induction queue generalizing sent buf with
  | nil =>
      cases h
      exact .none _
  | cons x queue ih =>
      obtain ⟨id, errorCode⟩ := x
      unfold StreamsState.resetLoop at h
      split_ifs at h with hroom
      · rw [List.any_cons]
        split at h
        next hs =>
          rw [hs]
          exact ih h
        next stream hs =>
          obtain ⟨buf₁, h1, h⟩ := Checked.bind_eq_ok.mp h
          rw [hs]
          exact (Controls.one (ResetStream.encode_wrote h1) rfl).append (ih h)
      · cases h
        exact ⟨[], .nil _, by simp, fun h => absurd h hroom⟩

theorem stopLoop_controls {queue rest : List StopSending} {sent sent' : ThinRetransmits}
    (h : StreamsState.stopLoop queue sent buf = .ok (rest, sent', buf')) :
    Controls (!queue.isEmpty) buf buf' := by
  induction queue generalizing sent buf with
  | nil =>
      cases h
      exact .none _
  | cons x queue ih =>
      unfold StreamsState.stopLoop at h
      split_ifs at h with hroom
      · obtain ⟨buf₁, h1, h⟩ := Checked.bind_eq_ok.mp h
        exact (Controls.one (StopSending.encode_wrote h1) rfl).append (ih h)
      · cases h
        refine ⟨[], .nil _, by simp, fun h => absurd ?_ hroom⟩
        unfold ResetStream.sizeBound at h
        unfold StopSending.sizeBound
        omega

theorem writeControlFrames_controls {pending pending' : Retransmits} {sent sent' : ThinRetransmits}
    (h : s.writeControlFrames buf pending sent = .ok (buf', pending', sent')) :
    Controls ((pending.resetStream.any fun p => (s.send p.1).isSome) || !pending.stopSending.isEmpty)
      buf buf' := by
  obtain ⟨⟨resets, sent₁, buf₁⟩, h1, h⟩ := Checked.bind_eq_ok.mp h
  obtain ⟨⟨stops, sent₂, buf₂⟩, h2, h⟩ := Checked.bind_eq_ok.mp h
  cases h
  have h12 := (resetLoop_controls h1).append (stopLoop_controls h2)
  rwa [List.any_reverse, List.isEmpty_reverse] at h12

end Control

/-! ## What comes first in a packet -/

namespace Connection

variable {now : Instant} {id : SpaceId} {buf buf' : BufMut}

theorem populateAnyAcks_wrote {space : PacketSpace} {largest : Option ℕ}
    (h : populateAnyAcks now space buf = .ok (largest, buf')) :
    (space.pendingAcks.ranges.isEmpty = true ∧ largest = none ∧ buf' = buf) ∨
      ∃ ack : Ack, largest = some ack.largest ∧ FrameParser.Wrote [.ack ack] buf buf' := by
  unfold populateAnyAcks at h
  split_ifs at h with hr
  · obtain ⟨u, -, h⟩ := Checked.bind_eq_ok.mp h
    obtain ⟨buf₁, he, h⟩ := Checked.bind_eq_ok.mp h
    cases h
    exact .inr (Ack.encode_wrote he)
  · cases h
    exact .inl ⟨by simpa using hr, rfl, rfl⟩

theorem populateAnyAcks_extends {space : PacketSpace} {largest : Option ℕ}
    (h : populateAnyAcks now space buf = .ok (largest, buf')) : buf.Extends buf' := by
  rcases populateAnyAcks_wrote h with ⟨-, -, rfl⟩ | ⟨ack, -, hw⟩
  · exact .refl _
  · exact hw.toExtends

theorem putUint_extends {n v : ℕ} (h : buf.putUint n v = .ok buf') : buf.Extends buf' :=
  .of_appends (appends_putUint n v) h

/-- The hello is a CRYPTO frame of one byte. -/
theorem hello_wrote {b₁ b₂ b₃ b₄ : BufMut} (h1 : buf.putUint 1 0x06 = .ok b₁) (h2 : b₁.putUint 1 0x00 = .ok b₂)
    (h3 : b₂.putUint 1 0x01 = .ok b₃) (h4 : b₃.putUint 1 0x00 = .ok b₄) :
    FrameParser.Wrote [.crypto 0 [0]] buf b₄ := by
  have hx := ((putUint_extends h1).trans (putUint_extends h2)).trans
    ((putUint_extends h3).trans (putUint_extends h4))
  obtain ⟨-, rfl⟩ := (appends_putUint 1 0x06).eq_ok h1
  obtain ⟨-, rfl⟩ := (appends_putUint 1 0x00).eq_ok h2
  obtain ⟨-, rfl⟩ := (appends_putUint 1 0x01).eq_ok h3
  obtain ⟨-, rfl⟩ := (appends_putUint 1 0x00).eq_ok h4
  simp only [BufMut.append_append] at hx ⊢
  have hspell : beBytes 1 0x06 ++ beBytes 1 0x00 ++ beBytes 1 0x01 ++ beBytes 1 0x00 =
      (Encoding.crypto 0 [0]).bytes := by decide
  have hv : (Encoding.crypto 0 [0]).Valid := ⟨by decide, by decide⟩
  refine .single hx.of_append fun ty s => ?_
  rw [hspell]
  exact Encoding.tryNext_bytes hv (.inl rfl) ty

theorem ping_wrote (h : buf.putUint 1 0x01 = .ok buf') : FrameParser.Wrote [.ping] buf buf' := by
  have hx := putUint_extends h
  obtain ⟨-, rfl⟩ := (appends_putUint 1 0x01).eq_ok h
  refine .single hx.of_append fun ty s => ⟨some .ping, ?_⟩
  have hspell : beBytes 1 0x01 = varintBytes FrameType.ping.val := by decide
  rw [hspell]
  exact FrameParser.tryNext_append (by decide) rfl ty

theorem populateHello_controls {sent sent' : SentFrames} {space space' : PacketSpace}
    (h : populateHello id sent space buf = .ok (sent', space', buf')) :
    Controls (space.pending.hello || (id = .data && space.pingPending)) buf buf' ∧
      sent'.largestAcked = sent.largestAcked ∧
      space'.pending.resetStream = space.pending.resetStream ∧
      space'.pending.stopSending = space.pending.stopSending := by
  obtain ⟨⟨sent₁, space₁, buf₁⟩, h1, h⟩ := Checked.bind_eq_ok.mp h
  have hhello : Controls space.pending.hello buf buf₁ ∧ sent₁.largestAcked = sent.largestAcked ∧
      space₁.pending.resetStream = space.pending.resetStream ∧
      space₁.pending.stopSending = space.pending.stopSending ∧
      space₁.pingPending = space.pingPending := by
    split_ifs at h1 with hh
    · obtain ⟨b1, e1, h1⟩ := Checked.bind_eq_ok.mp h1
      obtain ⟨b2, e2, h1⟩ := Checked.bind_eq_ok.mp h1
      obtain ⟨b3, e3, h1⟩ := Checked.bind_eq_ok.mp h1
      obtain ⟨b4, e4, h1⟩ := Checked.bind_eq_ok.mp h1
      cases h1
      rw [hh]
      exact ⟨.one (hello_wrote e1 e2 e3 e4) rfl, rfl, rfl, rfl, rfl⟩
    · cases h1
      rw [Bool.eq_false_iff.mpr hh]
      exact ⟨.none _, rfl, rfl, rfl, rfl⟩
  obtain ⟨hw, hl, hr, hst, hping⟩ := hhello
  dsimp only at h
  rw [← hping]
  split_ifs at h with hp
  · obtain ⟨b, e, h⟩ := Checked.bind_eq_ok.mp h
    cases h
    rw [hp]
    exact ⟨hw.append (.one (ping_wrote e) rfl), hl, hr, hst⟩
  · cases h
    rw [Bool.eq_false_iff.mpr hp]
    exact ⟨hw.append (.none _), hl, hr, hst⟩

end Connection

end MzQuic
