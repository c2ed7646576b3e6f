import MzQuic.Proto.Header

/-!
# Expanded packet numbers and the number space (`proto/src/packet.rs`)

Packet numbers are below `2 ^ 62`. `expand` takes the number closest to the expected one, wherever that is.

* `candidate_split`: the candidate of `expand`, whose bits above the width are those of both numbers;
* `StaysBelow`, **`expand_lt_iff`**: exactly when the expanded number is below `2 ^ 62`; `expandU64_eq`: nothing
  overflows on the way;
* `staysBelow_iff`: the condition for a number that fits its width; `Header.decode_fits`: such numbers are read.
-/

namespace MzQuic

open Lib

namespace PacketNumber

variable {p : PacketNumber} {expected : ℕ}

/-- The high bits of the candidate are those of either number, the low ones those of the truncated number. -/
theorem candidate_split (p : PacketNumber) (expected : ℕ) :
    (expected - expected % (1 <<< (p.len * 8))) ||| p.truncated =
      2 ^ (8 * p.len) * (expected / 2 ^ (8 * p.len) ||| p.truncated / 2 ^ (8 * p.len)) +
        p.truncated % 2 ^ (8 * p.len) := by
  have hw : 0 < 2 ^ (8 * p.len) := by positivity
  have hlow := Nat.mod_lt p.truncated hw
  have hexp : expected - expected % (1 <<< (p.len * 8)) = (expected / 2 ^ (8 * p.len)) <<< (8 * p.len) := by
    have := Nat.div_add_mod expected (2 ^ (8 * p.len))
    rw [Nat.one_shiftLeft, Nat.mul_comm p.len, Nat.shiftLeft_eq,
      Nat.mul_comm (expected / 2 ^ (8 * p.len))]
    omega
  have htrunc : p.truncated =
      (p.truncated / 2 ^ (8 * p.len)) <<< (8 * p.len) ||| p.truncated % 2 ^ (8 * p.len) := by
    rw [shiftLeft_or hlow, Nat.mul_comm]
    exact (Nat.div_add_mod _ _).symm
  rw [hexp]
  conv_lhs => rw [htrunc]
  rw [← Nat.or_assoc, ← Nat.shiftLeft_or_distrib, shiftLeft_or hlow, Nat.mul_comm]

/-- When the expanded number is below `2 ^ 62`. If the truncated number has no bits above its width but those of
the expected number, the first number from `2 ^ 62` on with its low bits is more than half a window above the
expected number; otherwise the expected number is below `2 ^ 62`. -/
def StaysBelow (p : PacketNumber) (expected : ℕ) : Prop :=
  if expected / 2 ^ (8 * p.len) ||| p.truncated / 2 ^ (8 * p.len) = expected / 2 ^ (8 * p.len) then
    expected + p.hwin < 2 ^ 62 + p.truncated % 2 ^ (8 * p.len)
  else expected < 2 ^ 62

instance (p : PacketNumber) (expected : ℕ) : Decidable (p.StaysBelow expected) := by
  unfold StaysBelow
  infer_instance

/-- The high bits of the candidate. -/
theorem high_bounds (p : PacketNumber) {expected : ℕ} (ht : p.truncated < 2 ^ 62) (he : expected ≤ 2 ^ 62) :
    expected / 2 ^ (8 * p.len) ≤ expected / 2 ^ (8 * p.len) ||| p.truncated / 2 ^ (8 * p.len) ∧
      (expected / 2 ^ (8 * p.len) ||| p.truncated / 2 ^ (8 * p.len)) < 2 ^ (63 - 8 * p.len) ∧
      (expected < 2 ^ 62 →
        (expected / 2 ^ (8 * p.len) ||| p.truncated / 2 ^ (8 * p.len)) < 2 ^ (62 - 8 * p.len)) := by
  have hlen : 8 * p.len ≤ 62 := by cases p <;> norm_num [len]
  have hdiv : ∀ {n k : ℕ}, 8 * p.len ≤ k → n < 2 ^ k → n / 2 ^ (8 * p.len) < 2 ^ (k - 8 * p.len) :=
    fun hk hn => Nat.div_lt_of_lt_mul (by rwa [← pow_add, Nat.add_sub_cancel' hk])
  refine ⟨Nat.left_le_or, ?_, fun he => ?_⟩
  · exact Nat.or_lt_two_pow (hdiv (by omega) (by omega)) (hdiv (by omega) (by omega))
  · exact Nat.or_lt_two_pow (hdiv hlen he) (hdiv hlen ht)

/-- **Exactly when the expanded number is below `2 ^ 62`.** -/
theorem expand_lt_iff (ht : p.truncated < 2 ^ 62) (he : expected ≤ 2 ^ 62) :
    p.expand expected < 2 ^ 62 ↔ p.StaysBelow expected := by
  obtain ⟨hle, hlt, hbelow⟩ := p.high_bounds ht he
  unfold expand StaysBelow
  dsimp only
  rw [candidate_split, win_eq, Nat.mul_div_cancel_left _ (by norm_num : 0 < 2)]
  generalize expected / 2 ^ (8 * p.len) ||| p.truncated / 2 ^ (8 * p.len) = high at *
  -- the candidate is `high` windows and the low bits, and for each width the windows are numerals
  cases p with
  | u8 x | u16 x | u24 x | u32 x =>
      simp only [len, truncated, hwin] at *
      norm_num at *
      split_ifs <;> omega

/-- Nothing overflows. -/
theorem expandU64_eq (ht : p.truncated < 2 ^ 62) (he : expected ≤ 2 ^ 62) :
    p.expandU64 expected = .ok (p.expand expected) := by
  obtain ⟨-, hlt, -⟩ := p.high_bounds ht he
  obtain ⟨-, h31⟩ := hwin_bounds p
  obtain ⟨c, hc, hmax⟩ : ∃ c, (expected - expected % (1 <<< (p.len * 8))) ||| p.truncated = c ∧ c ≤ 2 ^ 63 := by
    refine ⟨_, p.candidate_split expected, ?_⟩
    generalize expected / 2 ^ (8 * p.len) ||| p.truncated / 2 ^ (8 * p.len) = high at *
    cases p with
    | u8 x | u16 x | u24 x | u32 x =>
        simp only [len] at *
        norm_num at *
        omega
  unfold expand expandU64
  dsimp only
  rw [hc, win_eq, Nat.mul_div_cancel_left _ (by norm_num : 0 < 2)]
  split_ifs with h1 h2
  · exact Checked.add_of_lt (by omega)
  · rw [Checked.add_of_lt (by omega), Checked.ok_bind, if_pos h2, Checked.sub_of_le (by omega)]
  · rw [Checked.add_of_lt (by omega), Checked.ok_bind, if_neg h2]
    rfl

theorem Fits.lt (h : p.Fits) : p.truncated < 2 ^ 32 := by
  refine lt_of_lt_of_le h (Nat.pow_le_pow_right (by norm_num) ?_)
  cases p <;> norm_num [len]

/-- The condition for a number that fits its width. -/
theorem staysBelow_iff (h : p.Fits) :
    p.StaysBelow expected ↔ expected + p.hwin < 2 ^ 62 + p.truncated := by
  unfold StaysBelow
  rw [Nat.div_eq_of_lt h, Nat.or_zero, if_pos rfl, Nat.mod_eq_of_lt h]

/-- A number without an expected one is at most the truncated one. -/
theorem expand_zero_le (p : PacketNumber) : p.expand 0 ≤ p.truncated := by
  have h2 := (hwin_bounds p).1
  unfold expand
  dsimp only
  rw [win_eq, Nat.mul_div_cancel_left _ (by norm_num : 0 < 2), Nat.zero_mod, Nat.sub_zero, Nat.zero_or]
  split_ifs <;> omega

/-- **Numbers are read that fit their width.** -/
theorem yields_decode (n : ℕ) : Get.Yields (decode n) Fits := by
  have hget : ∀ (k : ℕ) (f : ℕ → PacketNumber), (∀ x < 256 ^ k, (f x).Fits) → Get.Yields (do
      return f (← Get.mapError .unexpectedEndOfHeader (Get.tryGetUint k)) : Get PacketDecodeError PacketNumber) Fits :=
    fun k f hf => (Get.yields_tryGetUint k).mapError.bind fun x hx => .pure (hf x hx)
  unfold decode
  split
  · exact hget 1 u8 fun x hx => hx
  · exact hget 2 u16 fun x hx => hx
  · exact hget 3 u24 fun x hx => hx
  · exact hget 4 u32 fun x hx => hx
  · intro b p b' h
    cases h

end PacketNumber

namespace Header

/-- The number of a header that is read fits its width. -/
theorem yields_decode (cidLen : ℕ) (versions : List ℕ) :
    Get.Yields (decode cidLen versions) fun h => ∀ p ∈ h.number, p.Fits := by
  have hnumber : ∀ (first : UInt8) (f : PacketNumber → Header), (∀ p, (f p).number = some p) →
      Get.Yields (do return f (← PacketNumber.decode (PacketNumber.decodeLen first)) : Get PacketDecodeError Header)
        fun h => ∀ p ∈ h.number, p.Fits := fun first f hf =>
    (PacketNumber.yields_decode _).bind fun p hp => .pure fun q hq => by
      rw [hf p] at hq
      cases hq
      exact hp
  have hlong : ∀ ty first version dstCid srcCid, Get.Yields (decodeLong ty first version dstCid srcCid)
      fun h => ∀ p ∈ h.number, p.Fits := by
    intro ty first version dstCid srcCid
    unfold decodeLong
    split
    · exact (Get.Yields.any _).bind fun token _ => (Get.Yields.any _).bind fun _ _ => hnumber first _ fun _ => rfl
    · exact .pure nofun
    · exact (Get.Yields.any _).bind fun _ _ => hnumber first _ fun _ => rfl
  refine (Get.Yields.any _).bind fun first _ => .ite (fun _ => .fail _) fun _ => .ite (fun _ => ?_) fun _ => ?_
  · exact .ite (fun _ => .fail _) fun _ => (Get.Yields.any _).bind fun dstCid _ => hnumber first _ fun _ => rfl
  · refine .ite (fun _ => .fail _) fun _ => (Get.Yields.any _).bind fun ty _ => (Get.Yields.any _).bind
      fun version _ => (Get.Yields.any _).bind fun dstCid _ => (Get.Yields.any _).bind fun srcCid _ => ?_
    exact .ite (fun _ => .pure nofun) fun _ => .ite (fun _ => .fail _) fun _ => hlong ty first version dstCid srcCid

end Header

end MzQuic
