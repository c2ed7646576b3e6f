import MzQuic.Proto.Wire

/-!
# What `scan_ack_blocks` accepts can be iterated (`proto/src/frame.rs`)

The scan keeps the smallest number so far and counts blocks, the iterator keeps the largest number of the
next block and stops at the end of its bytes. Both are compared with the integers that the bytes spell, in
whatever lengths these are written.

* `varints k b`: the first `k` integers of `b`, as many as there are; `descent`: how far down they lead;
* `Spells vs b`: `b` is the integers `vs` and nothing else; `spells_of_blocksEnd`, `blocksEnd_of_le`: what
  the scan accepts;
* `blockRanges`, `RunsDown`: the ranges of the blocks, each at least two below the one before;
  `collect_spells`: the iterator returns them;
* **`ack_blocks_safe`**: the scan accepts exactly the blocks that are there and stay at or above 0, and
  these are iterated to the end.
-/

namespace MzQuic

open Lib Lib.Get

/-! ## The integers of a byte string -/

/-- The first `k` integers of `b`, as many as there are. -/
def varints : ℕ → Bytes → List ℕ
  | 0, _ => []
  | k + 1, b =>
    match varint? b with
    | none => []
    | some (v, b') => v :: varints k b'

/-- How far below the largest number the integers of the blocks lead: the sizes, the gaps, and two for
each gap. -/
def descent (vs : List ℕ) : ℕ := vs.sum + 2 * (vs.length / 2)

theorem varints_succ_none {k : ℕ} {b : Bytes} (h : varint? b = none) : varints (k + 1) b = [] := by
  rw [varints, h]

theorem varints_succ {k v : ℕ} {b b' : Bytes} (h : varint? b = some (v, b')) :
    varints (k + 1) b = v :: varints k b' := by
  rw [varints, h]

theorem length_varints_le (k : ℕ) (b : Bytes) : (varints k b).length ≤ k := by
  induction k generalizing b with
  | zero => exact le_rfl
  | succ k ih =>
      cases h : varint? b with
      | none => rw [varints_succ_none h]; exact Nat.zero_le _
      | some q =>
          obtain ⟨v, b'⟩ := q
          rw [varints_succ h]
          exact Nat.succ_le_succ (ih _)

theorem descent_cons_cons (v w : ℕ) (vs : List ℕ) : descent (v :: w :: vs) = v + w + 2 + descent vs := by
  simp only [descent, List.sum_cons, List.length_cons]
  omega

/-- An integer is read off the bytes that spell it, whatever follows them. -/
theorem varint?_prefix {b b' : Bytes} {v : ℕ} (h : varint? b = some (v, b')) :
    ∃ a, a ≠ [] ∧ b = a ++ b' ∧ ∀ s, varint? (a ++ s) = some (v, s) := by
  cases b with
  | nil => cases h
  | cons x b =>
      unfold varint? at h
      dsimp only at h
      split_ifs at h with hl
      obtain ⟨rfl, rfl⟩ : _ = v ∧ _ = b' := by simpa using h
      obtain ⟨n, hn⟩ : ∃ n, 2 ^ (x.toNat / 64) = n + 1 :=
        ⟨_, (Nat.succ_pred_eq_of_pos (Nat.two_pow_pos _)).symm⟩
      rw [hn] at hl ⊢
      simp only [List.length_cons, Nat.add_le_add_iff_right] at hl
      refine ⟨x :: b.take n, List.cons_ne_nil _ _, by simp, fun s => ?_⟩
      have hlen : (b.take n).length = n := by rw [List.length_take, Nat.min_eq_left hl]
      unfold varint?
      dsimp only [List.cons_append]
      rw [hn, if_pos (by simp [hlen])]
      simp only [List.take_succ_cons, List.drop_succ_cons, List.take_left' hlen, List.drop_left' hlen]

/-- `b` consists of the integers `vs`. -/
def Spells : List ℕ → Bytes → Prop
  | [], b => b = []
  | v :: vs, b => ∃ a b', a ≠ [] ∧ b = a ++ b' ∧ (∀ s, varint? (a ++ s) = some (v, s)) ∧ Spells vs b'

theorem Spells.varint? {v : ℕ} {vs : List ℕ} {b : Bytes} (h : Spells (v :: vs) b) :
    b ≠ [] ∧ ∃ b', MzQuic.varint? b = some (v, b') ∧ Spells vs b' := by
  obtain ⟨a, b', ha, rfl, hr, hs⟩ := h
  exact ⟨by simp [ha], b', hr b', hs⟩

theorem Spells.length_le {vs : List ℕ} {b : Bytes} (h : Spells vs b) : vs.length ≤ b.length := by
  induction vs generalizing b with
  | nil => exact Nat.zero_le _
  | cons v vs ih =>
      obtain ⟨a, b', ha, rfl, -, hs⟩ := h
      have h1 := ih hs
      have h2 := List.length_pos_of_ne_nil ha
      simp only [List.length_append, List.length_cons]
      omega

/-! ## What the scan accepts -/

/-- The bytes that a scan has passed over, with the integers that it has read in them. -/
def Scanned (bound k : ℕ) (b b' : Bytes) : Prop :=
  ∃ pre, b = pre ++ b' ∧ Spells (varints k b) pre ∧ (varints k b).length = k ∧
    descent (varints k b) ≤ bound

theorem blocksEnd_eq_some {smallest n : ℕ} {b b' : Bytes} (h : blocksEnd smallest n b = some b') :
    Scanned smallest (2 * n) b b' := by
  induction n generalizing smallest b with
  | zero =>
      cases h
      exact ⟨[], rfl, rfl, rfl, by simp [varints, descent]⟩
  | succ n ih =>
      obtain ⟨⟨gap, b₁⟩, hgap, h⟩ := Option.bind_eq_some_iff.mp h
      obtain ⟨h2, h⟩ := require_eq_some.mp h
      obtain ⟨⟨block, b₂⟩, hblock, h⟩ := Option.bind_eq_some_iff.mp h
      obtain ⟨h3, h⟩ := require_eq_some.mp h
      obtain ⟨pre, rfl, hsp, hlen, hle⟩ := ih h
      obtain ⟨a, ha, rfl, hra⟩ := varint?_prefix hgap
      obtain ⟨c, hc, rfl, hrc⟩ := varint?_prefix hblock
      dsimp only at h2 h3 hle
      have hvs : varints (2 * (n + 1)) (a ++ (c ++ (pre ++ b'))) =
          gap :: block :: varints (2 * n) (pre ++ b') := by
        rw [show 2 * (n + 1) = 2 * n + 1 + 1 by ring, varints_succ hgap, varints_succ hblock]
      refine ⟨a ++ (c ++ pre), by simp, ?_, ?_, ?_⟩
      · rw [hvs]
        exact ⟨a, c ++ pre, ha, rfl, hra, c, pre, hc, rfl, hrc, hsp⟩
      · rw [hvs, List.length_cons, List.length_cons, hlen]
        ring
      · rw [hvs, descent_cons_cons]
        omega

/-- Blocks that are there and stay at or above 0 pass. -/
theorem blocksEnd_of_le {smallest n : ℕ} {b : Bytes} (hl : (varints (2 * n) b).length = 2 * n)
    (hd : descent (varints (2 * n) b) ≤ smallest) : ∃ b', blocksEnd smallest n b = some b' := by
  induction n generalizing smallest b with
  | zero => exact ⟨b, rfl⟩
  | succ n ih =>
      rw [show 2 * (n + 1) = 2 * n + 1 + 1 by ring] at hl hd
      cases hgap : varint? b with
      | none =>
          rw [varints_succ_none hgap] at hl
          cases hl
      | some q =>
          obtain ⟨gap, b₁⟩ := q
          rw [varints_succ hgap] at hl hd
          cases hblock : varint? b₁ with
          | none =>
              rw [varints_succ_none hblock] at hl
              simp at hl
          | some q =>
              obtain ⟨block, b₂⟩ := q
              rw [varints_succ hblock] at hl hd
              rw [descent_cons_cons] at hd
              have hle : descent (varints (2 * n) b₂) ≤ smallest - (gap + 2) - block := by omega
              obtain ⟨b', hb'⟩ := ih (by simpa using hl) hle
              refine ⟨b', ?_⟩
              rw [blocksEnd, follow, hgap, Option.bind_some, require, if_pos (by dsimp only; omega), follow,
                hblock, Option.bind_some, require, if_pos (by dsimp only; omega)]
              exact hb'

theorem scanEnd_eq_some {largest n : ℕ} {b b' : Bytes} (h : scanEnd largest n b = some b') :
    Scanned largest (2 * n + 1) b b' := by
  obtain ⟨⟨block, b₁⟩, hblock, h⟩ := Option.bind_eq_some_iff.mp h
  obtain ⟨h2, h⟩ := require_eq_some.mp h
  obtain ⟨pre, rfl, hsp, hlen, hle⟩ := blocksEnd_eq_some h
  obtain ⟨a, ha, rfl, hra⟩ := varint?_prefix hblock
  dsimp only at h2 hle
  have hvs := varints_succ (k := 2 * n) hblock
  refine ⟨a ++ pre, by simp, ?_, ?_, ?_⟩
  · rw [hvs]
    exact ⟨a, pre, ha, rfl, hra, hsp⟩
  · rw [hvs, List.length_cons, hlen]
  · rw [hvs]
    simp only [descent, List.sum_cons, List.length_cons, hlen] at hle ⊢
    omega

theorem scanEnd_of_le {largest n : ℕ} {b : Bytes} (hl : (varints (2 * n + 1) b).length = 2 * n + 1)
    (hd : descent (varints (2 * n + 1) b) ≤ largest) : ∃ b', scanEnd largest n b = some b' := by
  cases hblock : varint? b with
  | none =>
      rw [varints_succ_none hblock] at hl
      cases hl
  | some q =>
      obtain ⟨block, b₁⟩ := q
      rw [varints_succ hblock] at hl hd
      have hl' : (varints (2 * n) b₁).length = 2 * n := by simpa using hl
      simp only [descent, List.sum_cons, List.length_cons, hl'] at hd
      have hle : descent (varints (2 * n) b₁) ≤ largest - block := by
        simp only [descent, hl']
        omega
      obtain ⟨b', hb'⟩ := blocksEnd_of_le hl' hle
      refine ⟨b', ?_⟩
      rw [scanEnd, follow, hblock, Option.bind_some, require, if_pos (by dsimp only; omega)]
      exact hb'

/-! ## What the iterator returns -/

/-- The ranges of the blocks with the integers `vs`, from `largest` down. -/
def blockRanges : ℕ → List ℕ → List (ℕ × ℕ)
  | _, [] => []
  | largest, [block] => [(largest - block, largest)]
  | largest, block :: gap :: vs => (largest - block, largest) :: blockRanges (largest - (block + gap + 2)) vs

/-- Inclusive ranges from `largest` down, each of which ends at least two below the start of the one
before it. -/
structure RunsDown (largest : ℕ) (ranges : List (ℕ × ℕ)) : Prop where
  first : ∃ r rest, ranges = r :: rest ∧ r.2 = largest
  ordered : ∀ r ∈ ranges, r.1 ≤ r.2
  apart : ranges.IsChain fun r s => s.2 + 2 ≤ r.1

theorem RunsDown.single {block largest : ℕ} : RunsDown largest [(largest - block, largest)] where
  first := ⟨_, [], rfl, rfl⟩
  ordered r hr := by
    rw [List.mem_singleton.mp hr]
    exact Nat.sub_le _ _
  apart := .singleton _

theorem RunsDown.cons {block gap largest : ℕ} {ranges : List (ℕ × ℕ)}
    (h : RunsDown (largest - (block + gap + 2)) ranges) (hle : block + gap + 2 ≤ largest) :
    RunsDown largest ((largest - block, largest) :: ranges) where
  first := ⟨_, ranges, rfl, rfl⟩
  ordered r hr := by
    rcases List.mem_cons.mp hr with rfl | hr
    · exact Nat.sub_le _ _
    · exact h.ordered r hr
  apart := by
    obtain ⟨r, rest, rfl, hr⟩ := h.first
    refine .cons_cons ?_ h.apart
    rw [hr]
    dsimp only
    omega

/-- An odd number of integers that do not lead below 0. -/
theorem blockRanges_runsDown {largest n : ℕ} {vs : List ℕ} (hl : vs.length = 2 * n + 1)
    (hd : descent vs ≤ largest) :
    (blockRanges largest vs).length = n + 1 ∧ RunsDown largest (blockRanges largest vs) := by
  induction n generalizing largest vs with
  | zero =>
      obtain ⟨block, rfl⟩ := List.length_eq_one_iff.mp hl
      exact ⟨rfl, .single⟩
  | succ n ih =>
      match vs, hl with
      | block :: gap :: vs, hl =>
          rw [descent_cons_cons] at hd
          have hle : descent vs ≤ largest - (block + gap + 2) := by omega
          obtain ⟨h1, h2⟩ := ih (by simp only [List.length_cons] at hl; omega) hle
          exact ⟨by rw [blockRanges, List.length_cons, h1], h2.cons (by omega)⟩

/-- The last block, after which there is nothing. -/
theorem AckIter.next_single {block largest : ℕ} {b : Bytes} (h : Spells [block] b) (hle : block ≤ largest) :
    AckIter.next ⟨largest, b⟩ = .ok (some (largest - block, largest), ⟨largest, []⟩) := by
  obtain ⟨hne, b', hr, rfl⟩ := h.varint?
  unfold AckIter.next
  rw [if_neg (by simpa using hne)]
  dsimp only
  rw [reads_tryGetVarint.returns hr, Checked.ok_bind]
  dsimp only
  rw [tryGetVarint_nil, Checked.ok_bind]
  dsimp only
  rw [Checked.pure_eq, Checked.ok_bind, Checked.sub_of_le hle]
  rfl

/-- A block and the gap after it. -/
theorem AckIter.next_cons {block gap largest : ℕ} {vs : List ℕ} {b : Bytes}
    (h : Spells (block :: gap :: vs) b) (hle : block + gap + 2 ≤ largest) :
    ∃ b', AckIter.next ⟨largest, b⟩ =
      .ok (some (largest - block, largest), ⟨largest - (block + gap + 2), b'⟩) ∧ Spells vs b' := by
  obtain ⟨hne, b₁, hr, h₁⟩ := h.varint?
  obtain ⟨-, b₂, hr₁, h₂⟩ := h₁.varint?
  refine ⟨b₂, ?_, h₂⟩
  unfold AckIter.next
  rw [if_neg (by simpa using hne)]
  dsimp only
  rw [reads_tryGetVarint.returns hr, Checked.ok_bind]
  dsimp only
  rw [reads_tryGetVarint.returns hr₁, Checked.ok_bind]
  dsimp only
  rw [Checked.sub_of_le hle, Checked.ok_bind, Checked.pure_eq, Checked.ok_bind,
    Checked.sub_of_le (show block ≤ largest by omega)]
  rfl

/-- **The iterator returns the ranges of the blocks** and then ends. -/
theorem AckIter.collect_spells {largest n m : ℕ} {vs : List ℕ} {b : Bytes} (h : Spells vs b)
    (hl : vs.length = 2 * n + 1) (hd : descent vs ≤ largest) :
    AckIter.collect (n + 1 + m) ⟨largest, b⟩ = .ok (blockRanges largest vs) := by
  induction n generalizing largest vs b with
  | zero =>
      obtain ⟨block, rfl⟩ := List.length_eq_one_iff.mp hl
      have hle : block ≤ largest := by simpa [descent] using hd
      rw [Nat.zero_add, Nat.add_comm, AckIter.collect, AckIter.next_single h hle, Checked.ok_bind]
      cases m with
      | zero => rfl
      | succ m => rfl
  | succ n ih =>
      match vs, hl with
      | block :: gap :: vs, hl =>
          rw [descent_cons_cons] at hd
          have hle : block + gap + 2 ≤ largest := by omega
          obtain ⟨b', hnext, h'⟩ := AckIter.next_cons h hle
          rw [show n + 1 + 1 + m = n + 1 + m + 1 by ring, AckIter.collect, hnext, Checked.ok_bind]
          dsimp only
          rw [ih h' (by simp only [List.length_cons] at hl; omega) (by omega)]
          rfl

/-! ## The scan and the iterator -/

/-- The blocks are not all there. -/
def RunPast (n : ℕ) (buf : Bytes) : Prop := (varints (2 * n + 1) buf).length < 2 * n + 1

/-- The blocks that are there describe a number below 0. -/
def Below (largest n : ℕ) (buf : Bytes) : Prop := largest < descent (varints (2 * n + 1) buf)

/-- What the scan accepts is there, stays at or above 0, and is iterated to the end. -/
theorem accepted_iter {largest n : ℕ} {buf rest : Bytes} (hs : scanEnd largest n buf = some rest) :
    ¬ RunPast n buf ∧ ¬ Below largest n buf ∧ ∃ pre ranges, buf = pre ++ rest ∧
      scanAckBlocks largest n buf = .ok (.ok pre.length, buf) ∧
      (∀ delay ecn, Ack.iter ⟨largest, delay, pre, ecn⟩ = .ok ranges) ∧
      (∀ m, AckIter.collect (n + 1 + m) ⟨largest, pre⟩ = .ok ranges) ∧
      ranges.length = n + 1 ∧ RunsDown largest ranges := by
  obtain ⟨pre, hbuf, hsp, hlen, hd⟩ := scanEnd_eq_some hs
  obtain ⟨pre', hbuf', hscan⟩ := scanAckBlocks_accepts hs
  obtain rfl : pre' = pre := List.append_cancel_right (hbuf'.symm.trans hbuf)
  obtain ⟨hcount, hruns⟩ := blockRanges_runsDown hlen hd
  have hcollect : ∀ m, AckIter.collect (n + 1 + m) ⟨largest, pre'⟩ = .ok (blockRanges largest _) :=
    fun m => AckIter.collect_spells hsp hlen hd
  refine ⟨not_lt.mpr hlen.ge, not_lt.mpr hd, pre', _, hbuf, hscan, fun delay ecn => ?_, hcollect, hcount, hruns⟩
  -- each block takes at least one byte
  obtain ⟨m, hm⟩ : ∃ m, pre'.length = n + 1 + m := by
    have := hsp.length_le
    exact ⟨pre'.length - (n + 1), by omega⟩
  unfold Ack.iter
  dsimp only
  rw [hm]
  exact hcollect m

/-- What the scan rejects is not there or goes below 0. -/
theorem rejected_blocks {largest n : ℕ} {buf : Bytes} (hs : scanEnd largest n buf = none) :
    RunPast n buf ∨ Below largest n buf := by
  by_contra hno
  rw [not_or] at hno
  have hlen : (varints (2 * n + 1) buf).length = 2 * n + 1 :=
    le_antisymm (length_varints_le _ _) (not_lt.mp hno.1)
  obtain ⟨b', hb'⟩ := scanEnd_of_le hlen (not_lt.mp hno.2)
  rw [hs] at hb'
  cases hb'

/-- **Validated ACK blocks are safe to iterate.** For every buffer, largest number and number of further blocks:
either the blocks are all there and stay at or above 0, and then the scan accepts them, and the iterator of an ACK
frame with these bytes returns, without a failed read or an underflow and however often it is called, `n + 1`
ranges, the first of which ends at `largest`, and each further one at least two below the start of the one before;
or they run past the buffer or describe a number below 0, and then the scan rejects them. -/
theorem ack_blocks_safe (largest n : ℕ) (buf : Bytes) :
    ((¬ RunPast n buf ∧ ¬ Below largest n buf) ∧ ∃ k ranges, k ≤ buf.length ∧
      scanAckBlocks largest n buf = .ok (.ok k, buf) ∧
      (∀ delay ecn, Ack.iter ⟨largest, delay, buf.take k, ecn⟩ = .ok ranges) ∧
      (∀ m, AckIter.collect (n + 1 + m) ⟨largest, buf.take k⟩ = .ok ranges) ∧
      ranges.length = n + 1 ∧ RunsDown largest ranges) ∨
    ((RunPast n buf ∨ Below largest n buf) ∧ ∃ e, scanAckBlocks largest n buf = .ok (.error e, buf)) := by
  cases hs : scanEnd largest n buf with
  | none => exact .inr ⟨rejected_blocks hs, scanAckBlocks_rejects hs⟩
  | some rest =>
      obtain ⟨hpast, hbelow, pre, ranges, rfl, hscan, hiter, hcollect, hcount, hruns⟩ := accepted_iter hs
      have htake : (pre ++ rest).take pre.length = pre := List.take_left
      refine .inl ⟨⟨hpast, hbelow⟩, pre.length, ranges, by simp, hscan, ?_, ?_, hcount, hruns⟩
      · rw [htake]
        exact hiter
      · rw [htake]
        exact hcollect

/-- An ACK frame that the parser returns can be iterated. -/
theorem frameBody_ack_iter {ty : FrameType} (hty : ty = .ack ∨ ty = .ackEcn) {b b' : Bytes} {f : Frame}
    (h : frameBody ty b = .ok (.ok f, b')) :
    ∃ a ranges, f = .ack a ∧ a.iter = .ok ranges ∧ RunsDown a.largest ranges := by
  have hbody : frameBody ty = (do
      let largest ← getVarint
      let delay ← getVarint
      let extraBlocks ← getVarint
      let n ← scanAckBlocks largest extraBlocks
      let additional ← Get.splitTo n
      let ecn ← (if ty ≠ .ackEcn then pure none else do
        let ect0 ← getVarint
        let ect1 ← getVarint
        let ce ← getVarint
        return some ⟨ect0, ect1, ce⟩)
      return .ack ⟨largest, delay, additional, ecn⟩) := by
    rcases hty with rfl | rfl <;> rfl
  rw [hbody] at h
  obtain ⟨largest, b₁, -, h₁⟩ := bind_returns h
  obtain ⟨delay, b₂, -, h₂⟩ := bind_returns h₁
  obtain ⟨extraBlocks, b₃, -, h₃⟩ := bind_returns h₂
  obtain ⟨n, b₄, hscan, h₄⟩ := bind_returns h₃
  obtain ⟨additional, b₅, hsplit, h₅⟩ := bind_returns h₄
  obtain ⟨ecn, b₆, -, h₆⟩ := bind_returns h₅
  obtain rfl : Frame.ack ⟨largest, delay, additional, ecn⟩ = f :=
    Except.ok.inj (congrArg Prod.fst (Except.ok.inj h₆))
  cases hs : scanEnd largest extraBlocks b₃ with
  | none =>
      obtain ⟨e, he⟩ := scanAckBlocks_rejects hs
      rw [he] at hscan
      cases hscan
  | some rest =>
      obtain ⟨-, -, pre, ranges, rfl, hok, hiter, -, -, hruns⟩ := accepted_iter hs
      rw [hok] at hscan
      cases hscan
      simp only [Get.splitTo, List.length_append, Nat.le_add_right, if_true, List.take_left] at hsplit
      obtain rfl : pre = additional := Except.ok.inj (congrArg Prod.fst (Except.ok.inj hsplit))
      exact ⟨_, ranges, rfl, hiter delay ecn, hruns⟩

end MzQuic
