import MzQuic.Connection.Space

/-!
# The window of received packet numbers (`core/src/connection/space.rs`)

The window holds the highest number received and a bit for each of the 128 numbers below it.

* `Seen`: the numbers that the window rejects; `insert_fst`, `seen_insert`, `Seen.insert`: a number that was
  received is rejected, and stays so wherever the window moves;
* `Tracks`: the window holds what was received of the numbers it reaches, which every `insert` keeps
  (`Tracks.insert`);
* **`dedup_exact`**: what `insert` and `smallest_missing_in_interval` return after any numbers were received.
-/

namespace MzQuic

open Lib

/-! ## The window -/

namespace Dedup

/-- The window rejects the number: it is the highest one, or in the window, or left of it. -/
def Seen (d : Dedup) (n : ℕ) : Prop :=
  n + 1 = d.next ∨ (n + 2 ≤ d.next ∧ d.window.getLsbD (d.next - (n + 2)) = true) ∨ n + 130 ≤ d.next

/-- The mask of a number has one bit. -/
theorem mask_eq (i : ℕ) : (1 <<< i : BitVec 128) = BitVec.twoPow 128 i := rfl

theorem and_mask_ne_zero (w : BitVec 128) {i : ℕ} (hi : i < 128) :
    w &&& 1 <<< i ≠ 0 ↔ w.getLsbD i = true := by
  rw [mask_eq, BitVec.and_twoPow]
  cases w.getLsbD i with
  | false => simp
  | true =>
      simp only [if_true, ne_eq, iff_true]
      intro h
      have := congrArg (fun x : BitVec 128 => x.getLsbD i) h
      simp [hi] at this

theorem insert_fst (d : Dedup) (n : ℕ) : (d.insert n).1 = true ↔ d.Seen n := by
  unfold insert Seen highest windowSize
  dsimp only
  split_ifs with h1 h2 h3
  · simp only [false_iff]
    omega
  · have hbit : d.next - 1 - n - 1 = d.next - (n + 2) := by omega
    rw [decide_eq_true_eq, and_mask_ne_zero _ (by omega), hbit]
    constructor
    · intro h
      exact .inr (.inl ⟨by omega, h⟩)
    · rintro (h | ⟨-, h⟩ | h)
      · omega
      · exact h
      · omega
  · simp only [true_iff]
    omega
  · simp only [true_iff]
    omega

/-- The bits of a window that has moved to the right. -/
theorem getLsbD_moved (w : BitVec 128) (diff : ℕ) {i : ℕ} (hi : i < 128) :
    (checkedShl (w <<< 1 ||| 1) (min diff (2 ^ 32 - 1))).getLsbD i =
      (decide (i = diff) || decide (diff < i) && w.getLsbD (i - (diff + 1))) := by
  by_cases hd : diff ≤ i
  · have hmin : min diff (2 ^ 32 - 1) = diff := by omega
    rw [hmin, checkedShl, if_pos (by omega), BitVec.getLsbD_shiftLeft, BitVec.getLsbD_or,
      BitVec.getLsbD_shiftLeft, BitVec.ofNat_eq_ofNat, BitVec.getLsbD_one]
    have h1 : ¬ i < diff := by omega
    have h2 : i - diff < 128 := by omega
    rcases Nat.eq_or_lt_of_le hd with rfl | hlt
    · simp [hi]
    · have h3 : ¬ i - diff < 1 := by omega
      have h4 : ¬ i - diff = 0 := by omega
      have h5 : ¬ i = diff := by omega
      simp [hi, h1, h2, h3, h4, h5, hlt, Nat.sub_sub]
  · -- the numbers that were skipped
    rw [decide_eq_false (show ¬ i = diff by omega), decide_eq_false (show ¬ diff < i by omega),
      Bool.false_and, Bool.or_false, checkedShl]
    split_ifs with hlt
    · rw [BitVec.getLsbD_shiftLeft, decide_eq_true (show i < min diff (2 ^ 32 - 1) by omega), Bool.not_true,
        Bool.and_false, Bool.false_and]
    · exact BitVec.getLsbD_zero

/-- What a number to the right of the window does to the others. -/
theorem insert_right {d : Dedup} {m : ℕ} (hm : d.next ≤ m) : (d.insert m).2 =
    ⟨checkedShl (d.window <<< 1 ||| 1) (min (m - d.next) (2 ^ 32 - 1)), m + 1⟩ := by
  unfold Dedup.insert
  rw [if_pos hm]

/-- What any other number does: at most it sets its bit. -/
theorem insert_left {d : Dedup} {m : ℕ} (hm : m < d.next) : (d.insert m).2.next = d.next ∧
    ∀ i < 128, (d.insert m).2.window.getLsbD i = true ↔ d.window.getLsbD i = true ∨ i + (m + 2) = d.next := by
  unfold Dedup.insert highest windowSize
  rw [if_neg (by omega)]
  split_ifs with h2 h3
  · have hlt : d.next - 1 - m - 1 < 128 := by omega
    refine ⟨rfl, fun i hi => ?_⟩
    dsimp only
    rw [BitVec.getLsbD_or, mask_eq, BitVec.getLsbD_twoPow, Bool.or_eq_true, Bool.and_eq_true, decide_eq_true_eq,
      decide_eq_true_eq]
    exact or_congr_right (by omega)
  · exact ⟨rfl, fun i hi => (or_iff_left (by omega)).symm⟩
  · exact ⟨rfl, fun i hi => (or_iff_left (by omega)).symm⟩

/-- **A number is rejected once it was received.** -/
theorem seen_insert (d : Dedup) (n : ℕ) : (d.insert n).2.Seen n := by
  unfold Seen
  rcases Nat.lt_or_ge n d.next with hn | hn
  · obtain ⟨hnext, hbit⟩ := insert_left hn
    rw [hnext]
    by_cases h1 : n + 1 = d.next
    · exact .inl h1
    · by_cases h2 : n + 130 ≤ d.next
      · exact .inr (.inr h2)
      · exact .inr (.inl ⟨by omega, (hbit _ (by omega)).mpr (.inr (by omega))⟩)
  · rw [insert_right hn]
    exact .inl rfl

/-- **A number that is rejected stays so.** -/
theorem Seen.insert {d : Dedup} {n : ℕ} (h : d.Seen n) (m : ℕ) : (d.insert m).2.Seen n := by
  rcases Nat.lt_or_ge m d.next with hm | hm
  · obtain ⟨hnext, hbit⟩ := insert_left hm
    unfold Seen
    rw [hnext]
    by_cases hfar : n + 130 ≤ d.next
    · exact .inr (.inr hfar)
    · exact h.imp_right (Or.imp_left fun h => ⟨h.1, (hbit _ (by omega)).mpr (.inl h.2)⟩)
  · -- the bits move to the left by as much as the window moves to the right
    rw [insert_right hm]
    have hlt : n < d.next := by
      rcases h with h | ⟨h, -⟩ | h <;> omega
    by_cases hfar : n + 130 ≤ m + 1
    · exact .inr (.inr hfar)
    · refine .inr (.inl ⟨by dsimp only; omega, ?_⟩)
      dsimp only
      rw [getLsbD_moved _ _ (by omega), Bool.or_eq_true, Bool.and_eq_true, decide_eq_true_eq,
        decide_eq_true_eq]
      rcases h with h | ⟨h, hbit⟩ | h
      · exact .inl (by omega)
      · refine .inr ⟨by omega, ?_⟩
        rwa [show m + 1 - (n + 2) - (m - d.next + 1) = d.next - (n + 2) by omega]
      · omega

/-! ## What the window holds -/

/-- The window holds what was received: `next` is after the highest number, and the bits are those of the
numbers below it, as far as they reach. -/
structure Tracks (d : Dedup) (S : Set ℕ) : Prop where
  lt : ∀ n ∈ S, n < d.next
  highest : d.next ≠ 0 → d.next - 1 ∈ S
  bit : ∀ n, n + 2 ≤ d.next → d.next < n + 130 → (d.window.getLsbD (d.next - (n + 2)) = true ↔ n ∈ S)

namespace Tracks

variable {d : Dedup} {S : Set ℕ}

theorem new : Tracks .new ∅ where
  lt _ h := absurd h (Set.notMem_empty _)
  highest h := absurd rfl h
  bit _ h := absurd h (Nat.not_succ_le_zero _)

/-- **`insert` adds a number to what was received**, whatever it returns. -/
theorem insert (h : Tracks d S) (m : ℕ) : Tracks (d.insert m).2 (S ∪ {m}) := by
  rcases Nat.lt_or_ge m d.next with hm | hm
  · obtain ⟨hnext, hbit⟩ := insert_left hm
    refine ⟨fun n hn => ?_, fun h0 => ?_, fun n h1 h2 => ?_⟩
    · rw [hnext]
      rcases hn with hn | rfl
      · exact h.lt n hn
      · exact hm
    · rw [hnext] at h0 ⊢
      exact .inl (h.highest h0)
    · rw [hnext] at h1 h2 ⊢
      rw [hbit _ (by omega), h.bit n h1 h2, Set.mem_union, Set.mem_singleton_iff]
      exact or_congr_right (by omega)
  · rw [insert_right hm]
    refine ⟨fun n hn => ?_, fun _ => .inr rfl, fun n h1 h2 => ?_⟩
    · rcases hn with hn | rfl
      · exact Nat.lt_succ_of_lt (lt_of_lt_of_le (h.lt n hn) hm)
      · exact Nat.lt_succ_self n
    · dsimp only at h1 h2 ⊢
      rw [getLsbD_moved _ _ (by omega), Bool.or_eq_true, Bool.and_eq_true, decide_eq_true_eq, decide_eq_true_eq,
        Set.mem_union, Set.mem_singleton_iff, or_iff_left (show n ≠ m by omega)]
      -- the bit that was the implicit one of the old highest number, one that was there, or a skipped number
      rcases Nat.lt_trichotomy (n + 1) d.next with hlt | he | hgt
      · rw [show m + 1 - (n + 2) - (m - d.next + 1) = d.next - (n + 2) by omega, h.bit n hlt (by omega)]
        exact ⟨fun h' => h'.elim (fun h' => absurd h' (by omega)) And.right, fun h' => .inr ⟨by omega, h'⟩⟩
      · have hn : n ∈ S := by
          have := h.highest (by omega)
          rwa [show d.next - 1 = n by omega] at this
        exact iff_of_true (.inl (by omega)) hn
      · refine iff_of_false ?_ fun hn => ?_
        · rintro (h' | ⟨h', -⟩) <;> omega
        · have := h.lt n hn
          omega

/-- The greatest number received. -/
theorem isGreatest_iff (h : Tracks d S) (H : ℕ) : IsGreatest S H ↔ H + 1 = d.next := by
  have key : d.next ≠ 0 → IsGreatest S (d.next - 1) := fun h0 =>
    ⟨h.highest h0, fun n hn => by have := h.lt n hn; omega⟩
  constructor
  · intro hH
    have hlt := h.lt H hH.1
    have := (key (by omega)).unique hH
    omega
  · intro he
    have := key (by omega)
    rwa [show d.next - 1 = H by omega] at this

/-- What the window rejects. -/
theorem seen_iff (h : Tracks d S) (n : ℕ) :
    d.Seen n ↔ n ∈ S ∨ ∃ H, IsGreatest S H ∧ 129 ≤ H - n := by
  have hfar : (∃ H, IsGreatest S H ∧ 129 ≤ H - n) ↔ n + 130 ≤ d.next := by
    constructor
    · rintro ⟨H, hH, hn⟩
      have := (h.isGreatest_iff H).mp hH
      omega
    · exact fun hn => ⟨d.next - 1, (h.isGreatest_iff _).mpr (by omega), by omega⟩
  rw [hfar]
  unfold Seen
  constructor
  · rintro (he | ⟨h1, hb⟩ | hn)
    · refine .inl ?_
      have := h.highest (by omega)
      rwa [show d.next - 1 = n by omega] at this
    · by_cases h2 : n + 130 ≤ d.next
      · exact .inr h2
      · exact .inl ((h.bit n h1 (by omega)).mp hb)
    · exact .inr hn
  · rintro (hn | hn)
    · have hlt := h.lt n hn
      by_cases h1 : n + 1 = d.next
      · exact .inl h1
      · by_cases h2 : n + 130 ≤ d.next
        · exact .inr (.inr h2)
        · exact .inr (.inl ⟨by omega, (h.bit n (by omega) (by omega)).mpr hn⟩)
    · exact .inr (.inr hn)

end Tracks

/-- `smallest_missing_in_interval` takes as received what `insert` rejects. -/
theorem isReceived_iff (d : Dedup) (n : ℕ) : d.isReceived n = true ↔ d.Seen n := by
  unfold isReceived Seen highest windowSize
  dsimp only
  split_ifs with h1 h2 h3
  · exact iff_of_false id (by omega)
  · exact iff_of_true rfl (by omega)
  · exact iff_of_true rfl (by omega)
  · have hbit : d.next - 1 - n - 1 = d.next - (n + 2) := by omega
    rw [decide_eq_true_eq, and_mask_ne_zero _ (by omega), hbit]
    constructor
    · exact fun h => .inr (.inl ⟨by omega, h⟩)
    · rintro (h | ⟨-, h⟩ | h)
      · omega
      · exact h
      · omega

/-- The first number of an interval that passes a test is the least one. -/
theorem find_range_iff (p : ℕ → Bool) (lo len n : ℕ) : (List.range' lo len).find? p = some n ↔
    IsLeast {x | lo ≤ x ∧ x < lo + len ∧ p x = true} n := by
  induction len generalizing lo with
  | zero =>
      refine iff_of_false (fun h => by cases h) fun h => ?_
      have := h.1
      simp only [Set.mem_ofPred_eq] at this
      omega
  | succ len ih =>
      rw [List.range'_succ, List.find?_cons]
      cases hp : p lo with
      | true =>
          have hleast : IsLeast {x | lo ≤ x ∧ x < lo + (len + 1) ∧ p x = true} lo :=
            ⟨⟨le_rfl, by omega, hp⟩, fun x hx => hx.1⟩
          exact ⟨fun h => Option.some.inj h ▸ hleast, fun h => congrArg some (hleast.unique h)⟩
      | false =>
          have hset : {x | lo ≤ x ∧ x < lo + (len + 1) ∧ p x = true} =
              {x | lo + 1 ≤ x ∧ x < lo + 1 + len ∧ p x = true} := by
            ext x
            simp only [Set.mem_ofPred_eq]
            constructor
            · rintro ⟨h1, h2, h3⟩
              have hne : x ≠ lo := by
                rintro rfl
                rw [hp] at h3
                cases h3
              exact ⟨by omega, by omega, h3⟩
            · exact fun ⟨h1, h2, h3⟩ => ⟨by omega, by omega, h3⟩
          rw [hset]
          exact ih (lo + 1)

/-! ## Nothing overflows -/

theorem insertU64_eq (d : Dedup) {n : ℕ} (hn : n < 2 ^ 62) : d.insertU64 n = .ok (d.insert n) := by
  unfold insertU64 Dedup.insert highestU64 highest
  by_cases h : d.next ≤ n
  · rw [if_pos h, if_pos h, Checked.add_of_lt (by omega)]
    rfl
  · rw [if_neg h, if_neg h, Checked.sub_of_le (by omega), Checked.ok_bind, Checked.sub_of_le (by omega),
      Checked.ok_bind]
    split_ifs <;> rfl

theorem isReceivedU64_eq (d : Dedup) (n : ℕ) : d.isReceivedU64 n = .ok (d.isReceived n) := by
  unfold isReceivedU64 isReceived highestU64 highest
  by_cases h : d.next ≤ n
  · rw [if_pos h, if_pos h]
  · rw [if_neg h, if_neg h, Checked.sub_of_le (by omega), Checked.ok_bind]
    by_cases he : d.next - 1 = n
    · rw [if_pos he, if_pos he]
      rfl
    · rw [if_neg he, if_neg he, Checked.sub_of_le (by omega), Checked.ok_bind, Checked.sub_of_le (by omega)]
      rfl

theorem smallestMissingInIntervalU64_eq (d : Dedup) (lo hi : ℕ) :
    d.smallestMissingInIntervalU64 lo hi = .ok (d.smallestMissingInInterval lo hi) := by
  unfold smallestMissingInIntervalU64 smallestMissingInInterval
  induction List.range' lo (hi - lo) with
  | nil => rfl
  | cons pn rest ih =>
      rw [missingLoop, isReceivedU64_eq, Checked.ok_bind, List.find?_cons]
      cases d.isReceived pn with
      | true => exact ih
      | false => rfl

/-- `insert` numbers one after the other. -/
def insertAll : Dedup → List ℕ → Checked Dedup
  | d, [] => .ok d
  | d, p :: ps => do
    let (_, d) ← d.insertU64 p
    d.insertAll ps

theorem insertAll_tracks {d : Dedup} {S : Set ℕ} (h : Tracks d S) {ps : List ℕ} (hps : ∀ p ∈ ps, p < 2 ^ 62) :
    ∃ d', d.insertAll ps = .ok d' ∧ Tracks d' (S ∪ {x | x ∈ ps}) := by
  induction ps generalizing d S with
  | nil =>
      refine ⟨d, rfl, ?_⟩
      simpa using h
  | cons p ps ih =>
      obtain ⟨d', he, ht⟩ := ih (h.insert p) fun q hq => hps q (List.mem_cons_of_mem _ hq)
      refine ⟨d', ?_, ?_⟩
      · rw [insertAll, insertU64_eq d (hps p List.mem_cons_self), Checked.ok_bind]
        exact he
      · have hset : S ∪ {p} ∪ {x | x ∈ ps} = S ∪ {x | x ∈ p :: ps} := by
          ext x
          simp only [Set.mem_union, Set.mem_singleton_iff, Set.mem_ofPred_eq, List.mem_cons, or_assoc]
        rwa [hset] at ht

end Dedup

/-- **The window is exact within its size.** After `insert` of any numbers below `2 ^ 62`, with `H` the
greatest of them, the next `insert` returns true if and only if the number is one of them or is 129 or more
below `H`, and `smallest_missing_in_interval` returns the least number of the interval that is not one of them
and is above `H` or at most 128 below it, if there is one. No subtraction underflows. -/
theorem dedup_exact (ps : List ℕ) (hps : ∀ p ∈ ps, p < 2 ^ 62) :
    ∃ d, Dedup.insertAll .new ps = .ok d ∧
      (∀ p < 2 ^ 62, ∃ r, d.insertU64 p = .ok r ∧
        (r.1 = true ↔ p ∈ ps ∨ ∃ H, IsGreatest {x | x ∈ ps} H ∧ 129 ≤ H - p)) ∧
      ∀ lo hi, ∃ r, d.smallestMissingInIntervalU64 lo hi = .ok r ∧ ∀ p, r = some p ↔
        IsLeast {p | (lo ≤ p ∧ p < hi) ∧ p ∉ ps ∧ ∀ H, IsGreatest {x | x ∈ ps} H → H < p ∨ H - p ≤ 128} p := by
  obtain ⟨d, he, ht⟩ := Dedup.insertAll_tracks .new hps
  rw [Set.empty_union] at ht
  refine ⟨d, he, fun p hp => ⟨d.insert p, d.insertU64_eq hp, ?_⟩, fun lo hi =>
    ⟨_, d.smallestMissingInIntervalU64_eq lo hi, fun p => ?_⟩⟩
  · rw [Dedup.insert_fst, ht.seen_iff]
    rfl
  · have hset : {x | lo ≤ x ∧ x < lo + (hi - lo) ∧ (!d.isReceived x) = true} =
        {p | (lo ≤ p ∧ p < hi) ∧ p ∉ ps ∧ ∀ H, IsGreatest {x | x ∈ ps} H → H < p ∨ H - p ≤ 128} := by
      ext x
      simp only [Set.mem_ofPred_eq]
      rw [Bool.not_eq_true', ← Bool.not_eq_true, d.isReceived_iff, ht.seen_iff, not_or, not_exists, ← and_assoc]
      refine and_congr (by omega) (and_congr Iff.rfl (forall_congr' fun H => ?_))
      rw [not_and]
      exact forall_congr' fun _ => by omega
    rw [Dedup.smallestMissingInInterval, Dedup.find_range_iff, hset]

/-- A jump of more than the window, and then a number left of it. -/
theorem dedup_exact_jump : ∃ d, Dedup.insertAll .new [3, 200, 5] = .ok d ∧
    (∀ p < 2 ^ 62, ∃ r, d.insertU64 p = .ok r ∧
      (r.1 = true ↔ p ∈ [3, 200, 5] ∨ ∃ H, IsGreatest {x | x ∈ [3, 200, 5]} H ∧ 129 ≤ H - p)) ∧
    ∀ lo hi, ∃ r, d.smallestMissingInIntervalU64 lo hi = .ok r ∧ ∀ p, r = some p ↔
      IsLeast {p | (lo ≤ p ∧ p < hi) ∧ p ∉ [3, 200, 5] ∧
        ∀ H, IsGreatest {x | x ∈ [3, 200, 5]} H → H < p ∨ H - p ≤ 128} p :=
  dedup_exact [3, 200, 5] (by decide)

end MzQuic
