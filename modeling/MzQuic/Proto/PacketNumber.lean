import MzQuic.Proto.Packet

/-!
# Truncated packet numbers (`proto/src/packet.rs`)

A packet carries the low bits of its number. The receiver takes the number with these bits that is
closest to the one it expects.

* `wire`: a packet number as it is read (`decode_append`);
* `candidate_cases`: the candidate of `expand`, or a neighbour of it, is the number;
* `expand_of_near`: a number within half a window of the expected one is found;
* **`packetNumber_round_trip`**: what the sender truncates, the receiver expands.
-/

namespace MzQuic

open Lib

namespace PacketNumber

/-- The number that is read where this one was written: only its low bytes are. -/
def wire : PacketNumber → PacketNumber
  | u8 x => u8 (x % 256 ^ 1)
  | u16 x => u16 (x % 256 ^ 2)
  | u24 x => u24 (x % 256 ^ 3)
  | u32 x => u32 (x % 256 ^ 4)

@[simp] theorem len_wire (p : PacketNumber) : p.wire.len = p.len := by cases p <;> rfl

@[simp] theorem truncated_wire (p : PacketNumber) : p.wire.truncated = p.truncated % 2 ^ (8 * p.len) := by
  cases p <;> norm_num [wire, truncated, len]

@[simp] theorem decodeLen_tag (p : PacketNumber) : decodeLen p.tag = p.len := by
  cases p <;> simp only [tag, len] <;> decide

theorem appends_encode (p : PacketNumber) : Appends p.encode (beBytes p.len p.truncated) := appends_putUint _ _

/-- **A packet number is read up to its low bytes.** -/
theorem decode_append (p : PacketNumber) (s : Bytes) :
    decode p.len (beBytes p.len p.truncated ++ s) = .ok (.ok p.wire, s) := by
  have hget : ∀ k x, Get.mapError PacketDecodeError.unexpectedEndOfHeader (Get.tryGetUint k)
      (beBytes k x ++ s) = .ok (.ok (x % 256 ^ k), s) := fun k x => by
    rw [← beNat_beBytes]
    exact Get.mapError_ok (Get.tryGetUint_append s (length_beBytes k x))
  cases p with
  | u8 x => exact Get.bind_ok (hget 1 x)
  | u16 x => exact Get.bind_ok (hget 2 x)
  | u24 x => exact Get.bind_ok (hget 3 x)
  | u32 x => exact Get.bind_ok (hget 4 x)

/-! ## Truncation -/

/-- Half the window of a packet number. -/
def hwin (p : PacketNumber) : ℕ := 2 ^ (8 * p.len - 1)

theorem two_mul_hwin (p : PacketNumber) : 2 * p.hwin = 2 ^ (8 * p.len) := by
  cases p <;> norm_num [hwin, len]

theorem hwin_bounds (p : PacketNumber) : 2 ≤ p.hwin ∧ p.hwin ≤ 2 ^ 31 := by
  cases p <;> norm_num [hwin, len]

/-- The number carries the low bits of `n`, and `n` is within half a window of `largestAcked`. -/
theorem new_spec {n largestAcked : ℕ} (h : largestAcked ≤ n) (hd : n - largestAcked < 2 ^ 31) :
    ∃ p, new n largestAcked = .ok p ∧ newU64 n largestAcked = .ok p ∧
      p.truncated % 2 ^ (8 * p.len) = n % 2 ^ (8 * p.len) ∧ n - largestAcked < p.hwin := by
  unfold new newU64
  rw [Checked.sub_of_le h, Checked.ok_bind, Checked.ok_bind, Checked.mul_of_lt (by omega), Checked.ok_bind]
  dsimp only
  split_ifs with h1 h2 h3 h4
  · exact ⟨_, rfl, rfl, Nat.mod_mod _ _, by simp only [hwin, len]; omega⟩
  · exact ⟨_, rfl, rfl, Nat.mod_mod _ _, by simp only [hwin, len]; omega⟩
  · exact ⟨_, rfl, rfl, Nat.mod_mod_of_dvd _ (by norm_num [len]), by simp only [hwin, len]; omega⟩
  · exact ⟨_, rfl, rfl, Nat.mod_mod _ _, by simp only [hwin, len]; omega⟩
  · exact absurd hd (by omega)

/-! ## Expansion -/

section Expand

variable {p : PacketNumber} {n expected : ℕ}

/-- The candidate has the high bits of `expected` and the low bits of the number. -/
theorem candidate_eq (ht : p.truncated < 2 ^ (8 * p.len)) (expected : ℕ) :
    (expected - expected % (1 <<< (p.len * 8))) ||| p.truncated =
      2 ^ (8 * p.len) * (expected / 2 ^ (8 * p.len)) + p.truncated := by
  have hwin : 1 <<< (p.len * 8) = 2 ^ (8 * p.len) := by rw [Nat.one_shiftLeft, Nat.mul_comm]
  have hdiv : expected - expected % 2 ^ (8 * p.len) = 2 ^ (8 * p.len) * (expected / 2 ^ (8 * p.len)) := by
    have := Nat.div_add_mod expected (2 ^ (8 * p.len))
    omega
  rw [hwin, hdiv, Nat.two_pow_add_eq_or_of_lt ht]

theorem win_eq (p : PacketNumber) : 1 <<< (p.len * 8) = 2 * p.hwin := by
  rw [two_mul_hwin, Nat.one_shiftLeft, Nat.mul_comm]

/-- Two numbers less than a window apart have high bits that differ by at most one. -/
theorem div_near {a b w : ℕ} (hw : 0 < w) (h : a ≤ b + w) : a / w ≤ b / w + 1 := by
  rw [← Nat.add_div_right b hw]
  exact Nat.div_le_div_right h

/-- A number within half a window of the expected one is the candidate, or the one a window above or
below it. -/
theorem candidate_cases (ht : p.truncated = n % 2 ^ (8 * p.len)) (hlo : expected < n + p.hwin)
    (hhi : n ≤ expected + p.hwin) :
    ∃ c, (expected - expected % (1 <<< (p.len * 8))) ||| p.truncated = c ∧
      (n = c ∨ n = c + 2 * p.hwin ∨ c = n + 2 * p.hwin ∧ 2 * p.hwin ≤ expected) := by
  have hw : 0 < 2 ^ (8 * p.len) := by positivity
  have hcand := candidate_eq (ht ▸ Nat.mod_lt n hw) expected
  have hwin := two_mul_hwin p
  have hn := Nat.div_add_mod n (2 ^ (8 * p.len))
  have he := Nat.div_add_mod expected (2 ^ (8 * p.len))
  have hle := div_near hw (show n ≤ expected + 2 ^ (8 * p.len) by omega)
  have hge := div_near hw (show expected ≤ n + 2 ^ (8 * p.len) by omega)
  refine ⟨_, hcand, ?_⟩
  rw [← ht] at hn
  rw [hwin]
  generalize 2 ^ (8 * p.len) = w at *
  obtain h | h | h : n / w = expected / w ∨ n / w = expected / w + 1 ∨ expected / w = n / w + 1 := by omega
  · rw [h] at hn
    omega
  · rw [h, Nat.mul_succ] at hn
    omega
  · rw [h, Nat.mul_succ] at he ⊢
    omega

/-- **A number within half a window of the expected one is found**, and nothing overflows. -/
theorem expand_of_near (ht : p.truncated = n % 2 ^ (8 * p.len)) (hn : n < 2 ^ 62)
    (hlo : expected < n + p.hwin) (hhi : n ≤ expected + p.hwin) :
    p.expand expected = n ∧ p.expandU64 expected = .ok n := by
  obtain ⟨c, hc, hcases⟩ := candidate_cases ht hlo hhi
  obtain ⟨h2, h31⟩ := hwin_bounds p
  have hhalf : 2 * p.hwin / 2 = p.hwin := Nat.mul_div_cancel_left _ (by norm_num)
  unfold expand expandU64
  dsimp only
  rw [hc, win_eq, hhalf]
  rcases hcases with rfl | rfl | ⟨rfl, hle⟩
  · -- the candidate itself is within the window
    rw [if_neg (by omega), if_neg (by omega), if_neg (by omega), Checked.add_of_lt (by omega), Checked.ok_bind,
      if_neg (by omega)]
    exact ⟨rfl, rfl⟩
  · rw [if_pos (by omega), if_pos (by omega), Checked.add_of_lt (by omega)]
    exact ⟨rfl, rfl⟩
  · -- a candidate of exactly one window would be for number 0, which is not within half a window
    rw [if_neg (by omega), if_pos (by omega), if_neg (by omega), Checked.add_of_lt (by omega), Checked.ok_bind,
      if_pos (by omega), Checked.sub_of_le (by omega), Nat.add_sub_cancel]
    exact ⟨rfl, rfl⟩

end Expand

end PacketNumber

/-- **Truncated packet numbers decode correctly.** A number less than `2 ^ 31` above the largest acknowledged
one can be truncated, its low bytes are written and read with the length that its tag gives, and expanding what
was read gives the number back whenever it is within half a window of the expected one, in particular when the
expected one is between the largest acknowledged one and its successor. None of this overflows `u64`. -/
theorem packetNumber_round_trip (n largestAcked : ℕ) (hle : largestAcked ≤ n) (hn : n < 2 ^ 62)
    (hd : n - largestAcked < 2 ^ 31) :
    ∃ (p p' : PacketNumber) (bs : Bytes), PacketNumber.new n largestAcked = .ok p ∧
      PacketNumber.newU64 n largestAcked = .ok p ∧ Appends p.encode bs ∧
      (∀ s, PacketNumber.decode (PacketNumber.decodeLen p.tag) (bs ++ s) = .ok (.ok p', s)) ∧
      (∀ e, e < n + 2 ^ (8 * p.len - 1) → n ≤ e + 2 ^ (8 * p.len - 1) →
        p'.expand e = n ∧ p'.expandU64 e = .ok n) ∧
      ∀ e, largestAcked ≤ e → e ≤ n + 1 → p'.expand e = n ∧ p'.expandU64 e = .ok n := by
  obtain ⟨p, hp, hp64, ht, hnear⟩ := PacketNumber.new_spec hle hd
  have hwire : p.wire.truncated = n % 2 ^ (8 * p.wire.len) := by
    rw [PacketNumber.truncated_wire, PacketNumber.len_wire, ht]
  have hhwin : p.wire.hwin = p.hwin := by
    unfold PacketNumber.hwin
    rw [PacketNumber.len_wire]
  have hexpand : ∀ e, e < n + p.hwin → n ≤ e + p.hwin → p.wire.expand e = n ∧ p.wire.expandU64 e = .ok n :=
    fun e hlo hhi => PacketNumber.expand_of_near hwire hn (hhwin ▸ hlo) (hhwin ▸ hhi)
  refine ⟨p, p.wire, beBytes p.len p.truncated, hp, hp64, p.appends_encode, fun s => ?_, hexpand, fun e he he' => ?_⟩
  · rw [PacketNumber.decodeLen_tag]
    exact p.decode_append s
  · have := p.hwin_bounds.1
    exact hexpand e (by omega) (by omega)

/-- A number `2 ^ 22` above the largest acknowledged one takes three bytes. -/
theorem packetNumber_round_trip_three_bytes :
    ∃ (p p' : PacketNumber) (bs : Bytes), PacketNumber.new (2 ^ 40 + 5) (2 ^ 40 + 5 - 2 ^ 22) = .ok p ∧
      PacketNumber.newU64 (2 ^ 40 + 5) (2 ^ 40 + 5 - 2 ^ 22) = .ok p ∧ Appends p.encode bs ∧
      (∀ s, PacketNumber.decode (PacketNumber.decodeLen p.tag) (bs ++ s) = .ok (.ok p', s)) ∧
      (∀ e, e < 2 ^ 40 + 5 + 2 ^ (8 * p.len - 1) → 2 ^ 40 + 5 ≤ e + 2 ^ (8 * p.len - 1) →
        p'.expand e = 2 ^ 40 + 5 ∧ p'.expandU64 e = .ok (2 ^ 40 + 5)) ∧
      ∀ e, 2 ^ 40 + 5 - 2 ^ 22 ≤ e → e ≤ 2 ^ 40 + 5 + 1 → p'.expand e = 2 ^ 40 + 5 ∧
        p'.expandU64 e = .ok (2 ^ 40 + 5) :=
  packetNumber_round_trip (2 ^ 40 + 5) (2 ^ 40 + 5 - 2 ^ 22) (by norm_num) (by norm_num) (by norm_num)

end MzQuic
