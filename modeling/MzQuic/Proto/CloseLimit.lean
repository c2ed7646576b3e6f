import MzQuic.Proto.Payload

/-!
# Close frames and their size limit (`proto/src/frame.rs`)

`encode` sets aside two bytes for the error code, which takes one to eight.

* `WithinLimit`: the frame is written within the limit, and its reason is cut only if the whole frame would
  not fit; `encode_cut`, `length_closeBytes`: what is written, and how long it is;
* `ReserveFits`: when two bytes do for the error code;
* **`within_limit_iff`**: the limit is kept exactly then; `long_code_exceeds_limit`, `short_code_cut`: a
  code of eight bytes makes the frame too long, a code of one byte loses the last byte of the reason.
-/

namespace MzQuic

open Lib

namespace ConnectionClose

open Encoding

/-- `SIZE_BOUND` of the frame. -/
def sizeBound : ConnectionClose → ℕ
  | .transport _ => TransportClose.sizeBound
  | .application _ => ApplicationClose.sizeBound

/-- The frame is written in at most `maxLen` bytes, and its reason is cut only if the whole frame takes more
than that. -/
def WithinLimit (c : ConnectionClose) (maxLen : ℕ) (out : BufMut) : Prop :=
  ∃ out', c.encode maxLen out = .ok out' ∧ out'.written.length ≤ out.written.length + maxLen ∧
    (out' = out.append (closeBytes c) ∨ maxLen < (closeBytes c).length)

/-- Two bytes do for the error code: it takes two; or it takes one, and the frame with two is not just one byte
too long; or it takes more, and the reason is short enough for these as well, or it is cut and its length takes
as many bytes less. -/
def ReserveFits (c : ConnectionClose) (maxLen : ℕ) : Prop :=
  varintSize c.code = 2 ∨
  (varintSize c.code = 1 ∧ c.reserve + c.reason.length ≠ maxLen + 1) ∨
  (2 < varintSize c.code ∧ (c.reserve + c.reason.length + (varintSize c.code - 2) ≤ maxLen ∨
    (maxLen < c.reserve + c.reason.length ∧
      varintSize (maxLen - c.reserve) + (varintSize c.code - 2) ≤ varintSize c.reason.length)))

variable {c : ConnectionClose} {maxLen : ℕ}

theorem length_closeBytes (c : ConnectionClose) : (closeBytes c).length + 2 =
    c.reserve + varintSize c.code + c.reason.length := by
  cases c with
  | transport x =>
      simp only [closeBytes, List.length_append, length_varintBytes, reserve, typeSize, code, reason]
      have h : varintSize FrameType.transportClose.val = 1 := by decide
      omega
  | application x =>
      simp only [closeBytes, List.length_append, length_varintBytes, reserve, typeSize, code, reason]
      have h : varintSize FrameType.applicationClose.val = 1 := by decide
      omega

@[simp] theorem code_cut (n : ℕ) : (c.cut n).code = c.code := by cases c <;> rfl

@[simp] theorem reason_cut (n : ℕ) : (c.cut n).reason = c.reason.take n := by cases c <;> rfl

theorem reserve_cut {n : ℕ} (hn : n ≤ c.reason.length) :
    (c.cut n).reserve + varintSize c.reason.length = c.reserve + varintSize n := by
  have htype : (c.cut n).typeSize = c.typeSize := by cases c <;> rfl
  rw [reserve, reserve, htype, reason_cut, List.length_take, Nat.min_eq_left hn]
  omega

/-- The size bound leaves room for the reserve. -/
theorem reserve_le (h : c.sizeBound ≤ maxLen) : c.reserve ≤ maxLen := by
  have h1 := varintSize_le c.reason.length
  cases c with
  | transport x =>
      have h2 := varintSize_le (x.frameType.getD .padding).val
      simp only [sizeBound, TransportClose.sizeBound] at h
      simp only [reserve, typeSize]
      omega
  | application x =>
      simp only [sizeBound, ApplicationClose.sizeBound] at h
      simp only [reserve, typeSize]
      omega

/-- **The limit is kept exactly if two bytes do for the error code.** For every close frame whose integers can be
written, every limit from its size bound on, and every buffer with that much room: the frame takes at most the
limit, nothing underflows, and its reason is cut only if the whole frame would not fit, if and only if
`ReserveFits`. -/
theorem within_limit_iff (c : ConnectionClose) (hc : c.Writable) (maxLen : ℕ) (hm : c.sizeBound ≤ maxLen)
    (out : BufMut) (hout : maxLen ≤ out.remainingMut) : c.WithinLimit maxLen out ↔ c.ReserveFits maxLen := by
  have hres := reserve_le hm
  set L := c.reason.length with hL
  set n := min L (maxLen - c.reserve) with hn
  have hwrites : c.encode maxLen out = _ := appends_close_cut hc hres out
  rw [← hL, ← hn] at hwrites
  have hwhole := length_closeBytes c
  have hcut := length_closeBytes (c.cut n)
  have hcutres := reserve_cut (c := c) (show n ≤ c.reason.length by omega)
  have hcutlen : (c.cut n).reason.length = n := by rw [reason_cut, List.length_take]; omega
  rw [code_cut, hcutlen] at hcut
  rw [← hL] at hwhole hcutres
  have hsizes := varintSize_cases c.code
  have hpos := varintSize_pos n
  -- the limit is kept if what is written fits, and the whole frame is written or would not
  have hiff : c.WithinLimit maxLen out ↔ (closeBytes (c.cut n)).length ≤ maxLen ∧
      (n = L ∨ maxLen < (closeBytes c).length) := by
    unfold WithinLimit
    rw [hwrites]
    constructor
    · rintro ⟨out', h, hlen, hwhole'⟩
      split_ifs at h with hroom
      cases h
      simp only [BufMut.append, List.length_append] at hlen
      refine ⟨by omega, hwhole'.imp_left fun h => ?_⟩
      have heq : closeBytes (c.cut n) = closeBytes c := List.append_cancel_left (congrArg BufMut.written h)
      have hmono := varintSize_mono (show n ≤ L by omega)
      rw [heq] at hcut
      omega
    · rintro ⟨hfits, hwhole'⟩
      refine ⟨_, if_pos (hfits.trans hout), ?_, hwhole'.imp_left fun h => ?_⟩
      · simp only [BufMut.append, List.length_append]
        omega
      · rw [cut_of_le (by omega)]
  rw [hiff]
  unfold ReserveFits
  rw [← hL]
  by_cases hle : c.reserve + L ≤ maxLen
  · have hnL : n = L := by omega
    rw [hnL] at hcut hcutres ⊢
    omega
  · have hnR : n = maxLen - c.reserve := by omega
    have hmono := varintSize_mono (show n ≤ L by omega)
    rw [← hnR]
    omega

/-- A code of two bytes, with a reason that is cut. -/
theorem within_limit_iff_cut :
    (application ⟨300, List.replicate 40 7⟩).WithinLimit 17 (BufMut.withCapacity 17) ↔
      (application ⟨300, List.replicate 40 7⟩).ReserveFits 17 :=
  within_limit_iff (application ⟨300, List.replicate 40 7⟩) ⟨by decide, by decide⟩ 17 (by decide) _ (by decide)

/-- A code of eight bytes makes a frame of 23 bytes where the limit is 17; with a code of one byte, a reason of 14
bytes is cut to 13, although the whole frame takes 17. -/
theorem limit_not_kept :
    ¬ (application ⟨2 ^ 30, List.replicate 13 7⟩).WithinLimit 17 (BufMut.withCapacity 30) ∧
      ¬ (application ⟨0, List.replicate 14 7⟩).WithinLimit 17 (BufMut.withCapacity 30) := by
  constructor
  · rintro ⟨out', h, hlen, -⟩
    have hwritten : ((application ⟨2 ^ 30, List.replicate 13 7⟩).encode 17 (BufMut.withCapacity 30)).toOption.map
        (fun out => out.written.length) = some 23 := by decide
    rw [h] at hwritten
    have h23 : out'.written.length = 23 := Option.some.inj hwritten
    rw [h23] at hlen
    exact absurd hlen (by decide)
  · rintro ⟨out', h, -, hwhole⟩
    have hwritten : ((application ⟨0, List.replicate 14 7⟩).encode 17 (BufMut.withCapacity 30)).toOption.map
        (fun out => out.written.length) = some 16 := by decide
    rw [h] at hwritten
    have h16 : out'.written.length = 16 := Option.some.inj hwritten
    rcases hwhole with rfl | hlt
    · exact absurd h16 (by decide)
    · exact absurd hlt (by decide)

end ConnectionClose

end MzQuic
