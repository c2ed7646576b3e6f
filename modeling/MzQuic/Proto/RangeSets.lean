import MzQuic.Proto.ArrayRangeSet
import MzQuic.Proto.RangeSet

/-!
# The two range sets agree (`proto/src/range_set/`)

Both are sets of numbers, kept as their maximal runs, which are determined by the set. What either
returns is therefore a matter of the set alone.

* `RangeOp`: the operations, on an array, on a tree and on a set of numbers (`onArray`, `onTree`,
  `onSet`);
* `Represents`: both hold the numbers of a set, which every operation keeps (`Represents.step`);
* `SameSet`: all that can be asked of the two, in terms of the set;
* **`range_sets_agree`**: it holds after every sequence of operations, and the next one returns what
  it does to the set.
-/

namespace MzQuic

open Lib

/-! ## Runs of a set -/

/-- The lowest maximal run of a set: what is reached from every smaller member without a gap. -/
def lowestRun (S : Set ℕ) : Set ℕ := {x | x ∈ S ∧ ∀ y ∈ S, Set.Icc y x ⊆ S}

/-- Where the maximal runs of a set start. -/
def runStarts (S : Set ℕ) : Set ℕ := {x | x ∈ S ∧ ∀ y, y + 1 = x → y ∉ S}

section Runs

variable {S : Set ℕ} {lo : ℕ} {l : List Range}

theorem Gapped.pairwise (h : Gapped lo l) : l.Pairwise fun r s => r.end < s.start := by
  induction l generalizing lo with
  | nil => exact List.Pairwise.nil
  | cons r rest ih =>
      obtain ⟨-, h2, h3⟩ := h
      refine List.pairwise_cons.mpr ⟨fun s hs => ?_, ih h3⟩
      exact h3.le_of_runs ⟨s, hs, le_rfl, h3.lt_of_mem hs⟩

theorem mem_lowestRun {r : Range} (h : Gapped lo (r :: l)) (hS : ∀ x, Runs (r :: l) x ↔ x ∈ S) (x : ℕ) :
    x ∈ lowestRun S ↔ x ∈ r := by
  obtain ⟨-, h2, h3⟩ := h
  have hg : Gapped r.start (r :: l) := ⟨le_rfl, h2, h3⟩
  have hr : ∀ y ∈ r, y ∈ S := fun y hy => (hS y).mp (runs_cons.mpr (.inl hy))
  constructor
  · rintro ⟨hx, hicc⟩
    have hx1 : r.start ≤ x := hg.le_of_runs ((hS x).mpr hx)
    refine ⟨hx1, ?_⟩
    -- else the gap after the first run would be filled
    by_contra hx2
    have hend : r.end ∈ S := hicc r.start (hr _ ⟨le_rfl, h2⟩) ⟨h2.le, by omega⟩
    rcases runs_cons.mp ((hS _).mpr hend) with h | h
    · omega
    · have := h3.le_of_runs h
      omega
  · rintro ⟨hx1, hx2⟩
    refine ⟨hr x ⟨hx1, hx2⟩, fun y hy z hz => hr z ?_⟩
    have hy1 : r.start ≤ y := hg.le_of_runs ((hS y).mpr hy)
    exact ⟨hy1.trans hz.1, lt_of_le_of_lt hz.2 hx2⟩

theorem mem_runStarts (h : Gapped lo l) (hS : ∀ x, Runs l x ↔ x ∈ S) (x : ℕ) :
    x ∈ runStarts S ↔ x ∈ l.map Range.start := by
  have hlt : ∀ r ∈ l, r.start < r.end := fun r hr => h.lt_of_mem hr
  constructor
  · rintro ⟨hx, hpred⟩
    obtain ⟨r, hr, h1, h2⟩ := (hS x).mpr hx
    refine List.mem_map.mpr ⟨r, hr, ?_⟩
    by_contra hne
    have hx' : x - 1 ∈ S := (hS _).mp ⟨r, hr, by omega, by omega⟩
    exact hpred (x - 1) (by omega) hx'
  · intro hx
    obtain ⟨r, hr, rfl⟩ := List.mem_map.mp hx
    refine ⟨(hS _).mp ⟨r, hr, le_rfl, hlt r hr⟩, fun y hy hyS => ?_⟩
    -- a run that holds the number before `r` touches it
    obtain ⟨q, hq, h1, h2⟩ := (hS y).mpr hyS
    have hqr : q ≠ r := by
      rintro rfl
      omega
    have hr' := hlt r hr
    rcases List.Pairwise.forall_of_forall_of_flip (R := fun r s : Range => r ≠ s → r.end < s.start ∨ s.end < r.start)
      (fun _ _ h => absurd rfl h) (h.pairwise.imp fun h _ => .inl h)
      (h.pairwise.imp fun h _ => .inr h) hq hr hqr with h | h <;> omega

end Runs

/-! ## Operations -/

/-- A call on a range set; the two sets that are subtracted hold the same numbers. -/
inductive RangeOp
  | insert (x : Range)
  | insertOne (x : ℕ)
  | remove (x : Range)
  | subtract (array : ArrayRangeSet) (tree : RangeSet) (same : ∀ x, x ∈ array ↔ x ∈ tree)
  | popMin

/-- What a call returns. -/
inductive RangeOutcome
  | changed (result : Bool)
  | done
  | popped (result : Option Range)

namespace RangeOp

/-- The call on an array. -/
def onArray (s : ArrayRangeSet) : RangeOp → RangeOutcome × ArrayRangeSet
  | insert x => (.changed (s.insert x).1, (s.insert x).2)
  | insertOne x => (.changed (s.insertOne x).1, (s.insertOne x).2)
  | remove x => (.changed (s.remove x).1, (s.remove x).2)
  | subtract array _ _ => (.done, s.subtract array)
  | popMin => (.popped s.popMin.1, s.popMin.2)

/-- The call on a tree. -/
def onTree (s : RangeSet) : RangeOp → RangeOutcome × RangeSet
  | insert x => (.changed (s.insert x).1, (s.insert x).2)
  | insertOne x => (.changed (s.insertOne x).1, (s.insertOne x).2)
  | remove x => (.changed (s.remove x).1, (s.remove x).2)
  | subtract _ tree _ => (.done, s.subtract tree)
  | popMin =>
    match s.popMin with
    | none => (.popped none, s)
    | some (r, s') => (.popped (some r), s')

/-- The call on a set of numbers. -/
def onSet (S : Set ℕ) : RangeOp → Set ℕ
  | insert x => S ∪ {y | y ∈ x}
  | insertOne x => S ∪ {x}
  | remove x => S \ {y | y ∈ x}
  | subtract array _ _ => S \ {y | y ∈ array}
  | popMin => S \ lowestRun S

/-- What the call returns, in terms of the set: whether it changes, or its lowest run. -/
def Returns (S : Set ℕ) (op : RangeOp) : RangeOutcome → Prop
  | .changed result => (result = true ↔ op.onSet S ≠ S)
  | .done => ∃ array tree same, op = subtract array tree same
  | .popped none => op = popMin ∧ S = ∅
  | .popped (some r) => op = popMin ∧ r.start < r.end ∧ {x | x ∈ r} = lowestRun S

end RangeOp

/-! ## What the operations do -/

theorem ArrayRangeSet.mem_subtract {s other : ArrayRangeSet} {y : ℕ} :
    y ∈ s.subtract other ↔ y ∈ s ∧ y ∉ other := by
  have key : ∀ (l : List Range) (s : ArrayRangeSet),
      y ∈ l.foldl (fun s range => (s.remove range).2) s ↔ y ∈ s ∧ ¬ Runs l y := by
    intro l
    induction l with
    | nil => exact fun s => ⟨fun h => ⟨h, runs_nil y⟩, fun h => h.1⟩
    | cons r l ih =>
        intro s
        rw [List.foldl_cons, ih, ArrayRangeSet.mem_remove, runs_cons, Range.mem_iff, not_or, and_assoc]
  exact key other.ranges s

theorem RangeSet.gapped_iter (s : RangeSet) : Gapped 0 s.iter := by
  have key : ∀ (l : List (ℕ × ℕ)) (lo : ℕ), l.Pairwise (fun p q => p.1 < q.1) → (∀ p ∈ l, p.1 < p.2) →
      (∀ p ∈ l, ∀ q ∈ l, p.1 < q.1 → p.2 < q.1) → (∀ p ∈ l, lo ≤ p.1) →
      Gapped lo (l.map fun p => ⟨p.1, p.2⟩) := by
    intro l
    induction l with
    | nil => exact fun _ _ _ _ _ => trivial
    | cons p l ih =>
        intro lo hs hne hap hlo
        obtain ⟨hp, hl⟩ := List.pairwise_cons.mp hs
        have hsub : ∀ q ∈ l, q ∈ p :: l := fun q hq => List.mem_cons_of_mem _ hq
        refine ⟨hlo p List.mem_cons_self, hne p List.mem_cons_self, ih _ hl (fun q hq => hne q (hsub q hq))
          (fun q hq r hr => hap q (hsub q hq) r (hsub r hr)) fun q hq => ?_⟩
        exact hap p List.mem_cons_self q (hsub q hq) (hp q hq)
  exact key _ 0 s.map.sorted s.canon.nonempty s.canon.apart fun p _ => Nat.zero_le _

theorem RangeSet.runs_iter (s : RangeSet) (x : ℕ) : Runs s.iter x ↔ x ∈ s := by
  constructor
  · rintro ⟨r, hr, hx⟩
    obtain ⟨p, hp, rfl⟩ := List.mem_map.mp hr
    exact ⟨p, hp, hx⟩
  · rintro ⟨p, hp, hx⟩
    exact ⟨_, List.mem_map.mpr ⟨p, hp, rfl⟩, hx⟩

theorem RangeSet.mem_subtract {s other : RangeSet} {y : ℕ} : y ∈ s.subtract other ↔ y ∈ s ∧ y ∉ other := by
  have key : ∀ (l : List (ℕ × ℕ)) (s : RangeSet), y ∈ l.foldl (fun s p => (s.remove ⟨p.1, p.2⟩).2) s ↔
      y ∈ s ∧ ¬ Runs (l.map fun p => ⟨p.1, p.2⟩) y := by
    intro l
    induction l with
    | nil => exact fun s => ⟨fun h => ⟨h, runs_nil y⟩, fun h => h.1⟩
    | cons p l ih =>
        intro s
        rw [List.foldl_cons, ih, RangeSet.mem_remove, List.map_cons, runs_cons, Range.mem_iff, not_or, and_assoc]
  rw [← other.runs_iter y]
  exact key other.map.entries s

theorem ArrayRangeSet.changed_insert (s : ArrayRangeSet) (x : Range) :
    (s.insert x).1 = true ↔ ∃ y, y ∈ x ∧ y ∉ s := by
  unfold ArrayRangeSet.insert
  split_ifs with h
  · exact (insertLoop_changed h false s.gapped).trans ⟨fun h => h.resolve_left Bool.false_ne_true, .inr⟩
  · refine iff_of_false id ?_
    rintro ⟨y, ⟨h1, h2⟩, -⟩
    omega

theorem ArrayRangeSet.changed_remove (s : ArrayRangeSet) (x : Range) :
    (s.remove x).1 = true ↔ ∃ y, y ∈ x ∧ y ∈ s := by
  unfold ArrayRangeSet.remove
  split_ifs with h
  · exact (removeLoop_changed h false s.gapped).trans ⟨fun h => h.resolve_left Bool.false_ne_true, .inr⟩
  · refine iff_of_false id ?_
    rintro ⟨y, ⟨h1, h2⟩, -⟩
    omega

theorem RangeSet.insertOne_eq (s : RangeSet) (x : ℕ) : s.insertOne x = s.insert ⟨x, x + 1⟩ := by
  unfold RangeSet.insertOne RangeSet.insert
  simp only [RangeSet.insertOneMap_eq s.canon]

/-! ## Arrays as sets -/

section Arrays

variable {a : ArrayRangeSet} {S : Set ℕ} (hS : ∀ x, x ∈ a ↔ x ∈ S)
include hS

/-- The first run of an array is the lowest one, and the rest of the array is the rest of the set. -/
theorem ArrayRangeSet.mem_popMin (x : ℕ) : x ∈ a.popMin.2 ↔ x ∈ S \ lowestRun S := by
  rw [Set.mem_sdiff, ← hS x]
  show Runs a.ranges.tail x ↔ Runs a.ranges x ∧ x ∉ lowestRun S
  cases hl : a.ranges with
  | nil => exact iff_of_false (fun ⟨r, hr, _⟩ => List.not_mem_nil hr) fun ⟨⟨r, hr, _⟩, _⟩ => List.not_mem_nil hr
  | cons r l =>
      have hg : Gapped 0 (r :: l) := hl ▸ a.gapped
      have hruns : ∀ x, Runs (r :: l) x ↔ x ∈ S := fun x => hl ▸ hS x
      rw [List.tail_cons, runs_cons, mem_lowestRun hg hruns, Range.mem_iff]
      constructor
      · intro hx
        have := hg.2.2.le_of_runs hx
        exact ⟨.inr hx, by omega⟩
      · exact fun hx => hx.1.resolve_left hx.2

/-- The number of runs. -/
theorem ArrayRangeSet.len_eq : a.len = (runStarts S).ncard := by
  have hpair := a.gapped.pairwise
  have hnodup : (a.ranges.map Range.start).Nodup := by
    refine List.pairwise_map.mpr (hpair.imp_of_mem fun {r s} hr _ hrs => ?_)
    have := a.gapped.lt_of_mem hr
    omega
  have hset : runStarts S = ↑(a.ranges.map Range.start).toFinset := by
    ext x
    rw [mem_runStarts a.gapped hS, Finset.mem_coe, List.mem_toFinset]
  rw [hset, Set.ncard_coe_finset, List.toFinset_card_of_nodup hnodup, List.length_map, ArrayRangeSet.len]

/-- The greatest number is not in the lowest of two or more runs. -/
theorem ArrayRangeSet.greatest_notMem {m : ℕ} (hm : IsGreatest S m) (hlen : 1 < a.len) : m ∉ lowestRun S := by
  match hl : a.ranges, a.gapped with
  | [], _ => simp [ArrayRangeSet.len, hl] at hlen
  | [r], _ => simp [ArrayRangeSet.len, hl] at hlen
  | r :: q :: l, hg =>
      have hruns : ∀ x, Runs (r :: q :: l) x ↔ x ∈ S := fun x => hl ▸ hS x
      rw [mem_lowestRun hg hruns, Range.mem_iff]
      obtain ⟨-, -, h1, h2, -⟩ := hg
      have hq : q.start ≤ m := hm.2 ((hruns _).mp ⟨q, by simp, le_rfl, h2⟩)
      omega

end Arrays

/-! ## Representing the same set -/

/-- Both hold the numbers of `S`. -/
structure Represents (a : ArrayRangeSet) (b : RangeSet) (S : Set ℕ) : Prop where
  array : ∀ x, x ∈ a ↔ x ∈ S
  tree : ∀ x, x ∈ b ↔ x ∈ S

namespace Represents

variable {a : ArrayRangeSet} {b : RangeSet} {S : Set ℕ}

theorem new : Represents .new .new ∅ where
  array x := iff_of_false (ArrayRangeSet.notMem_new x) id
  tree x := iff_of_false (RangeSet.notMem_new x) id

/-- **Both iterate over the same runs.** -/
theorem iter_eq (h : Represents a b S) : a.iter = b.iter := by
  refine a.gapped.ext b.gapped_iter fun x => ?_
  rw [b.runs_iter, h.tree]
  exact h.array x

theorem peekMin_eq (h : Represents a b S) : b.peekMin = a.iter.head? := by
  rw [h.iter_eq, RangeSet.iter, List.head?_map]
  rfl

/-- The first run is the lowest one. -/
theorem head_eq (h : Represents a b S) {r : Range} (hr : a.iter.head? = some r) :
    r.start < r.end ∧ {x | x ∈ r} = lowestRun S := by
  obtain ⟨l, hl⟩ := List.head?_eq_some_iff.mp hr
  have hg : Gapped 0 (r :: l) := hl ▸ a.gapped
  have hS : ∀ x, Runs (r :: l) x ↔ x ∈ S := fun x => by
    rw [← hl]
    exact h.array x
  exact ⟨hg.2.1, Set.ext fun x => (mem_lowestRun hg hS x).symm⟩

theorem eq_empty_iff (h : Represents a b S) : a.iter = [] ↔ S = ∅ := by
  constructor
  · intro h0
    refine Set.eq_empty_of_forall_notMem fun x hx => ?_
    obtain ⟨r, hr, -⟩ := (h.array x).mpr hx
    rw [show a.ranges = [] from h0] at hr
    cases hr
  · rintro rfl
    cases hl : a.iter with
    | nil => rfl
    | cons r l =>
        have hr : r ∈ a.ranges := by
          rw [show a.ranges = r :: l from hl]
          exact List.mem_cons_self
        exact absurd ((h.array r.start).mp ⟨r, hr, le_rfl, a.gapped.lt_of_mem hr⟩) (Set.notMem_empty _)

/-- Whether something new is in a union. -/
theorem union_ne_iff {S X : Set ℕ} : S ∪ X ≠ S ↔ ∃ y, y ∈ X ∧ y ∉ S := by
  rw [Ne, Set.union_eq_left, Set.not_subset]

/-- Whether something is missing in a difference. -/
theorem diff_ne_iff {S X : Set ℕ} : S \ X ≠ S ↔ ∃ y, y ∈ X ∧ y ∈ S := by
  rw [Ne, sdiff_eq_left, Set.not_disjoint_iff]
  exact exists_congr fun y => and_comm

theorem changed_insert (h : Represents a b S) (x : Range) :
    ((a.insert x).1 = true ↔ S ∪ {y | y ∈ x} ≠ S) ∧ (a.insert x).1 = (b.insert x).1 := by
  have ha : (a.insert x).1 = true ↔ S ∪ {y | y ∈ x} ≠ S := by
    rw [a.changed_insert, union_ne_iff]
    exact exists_congr fun y => and_congr_right fun _ => not_congr (h.array y)
  have hb : (b.insert x).1 = true ↔ S ∪ {y | y ∈ x} ≠ S := by
    rw [union_ne_iff]
    refine (RangeSet.insertMap_changed b.canon x).trans ?_
    exact exists_congr fun y => and_congr_right fun _ => not_congr (h.tree y)
  exact ⟨ha, Bool.eq_iff_iff.mpr (ha.trans hb.symm)⟩

theorem changed_remove (h : Represents a b S) (x : Range) :
    ((a.remove x).1 = true ↔ S \ {y | y ∈ x} ≠ S) ∧ (a.remove x).1 = (b.remove x).1 := by
  have ha : (a.remove x).1 = true ↔ S \ {y | y ∈ x} ≠ S := by
    rw [a.changed_remove, diff_ne_iff]
    exact exists_congr fun y => and_congr_right fun _ => h.array y
  have hb : (b.remove x).1 = true ↔ S \ {y | y ∈ x} ≠ S := by
    rw [diff_ne_iff]
    refine (RangeSet.removeMap_changed b.canon x).trans ?_
    exact exists_congr fun y => and_congr_right fun _ => h.tree y
  exact ⟨ha, Bool.eq_iff_iff.mpr (ha.trans hb.symm)⟩

theorem singleton_eq (x : ℕ) : ({x} : Set ℕ) = {y | y ∈ (⟨x, x + 1⟩ : Range)} := by
  ext y
  simp only [Set.mem_singleton_iff, Set.mem_ofPred_eq, Range.mem_iff]
  omega

theorem insert (h : Represents a b S) (x : Range) :
    Represents (a.insert x).2 (b.insert x).2 (S ∪ {y | y ∈ x}) where
  array y := by
    rw [ArrayRangeSet.mem_insert, h.array]
    exact or_comm
  tree y := by
    rw [RangeSet.mem_insert, h.tree]
    rfl

/-- Removing the first run of both. -/
theorem popMin (h : Represents a b S) {r : Range} {b' : RangeSet} (hb : b.popMin = some (r, b')) :
    a.popMin.1 = some r ∧ Represents a.popMin.2 b' (S \ lowestRun S) := by
  have hpeek : b.peekMin = some r := by
    obtain ⟨q, hq, he⟩ := Option.map_eq_some_iff.mp hb
    cases he
    exact hq
  rw [h.peekMin_eq] at hpeek
  obtain ⟨-, hrun⟩ := h.head_eq hpeek
  refine ⟨hpeek, ⟨fun x => ?_, fun x => ?_⟩⟩
  · exact ArrayRangeSet.mem_popMin h.array x
  · rw [(RangeSet.popMin_eq_some hb).2.2, h.tree, Set.mem_sdiff, ← hrun]
    rfl

/-- **Every operation keeps both equal to the set, and returns what it does to it.** -/
theorem step (h : Represents a b S) (op : RangeOp) :
    Represents (op.onArray a).2 (op.onTree b).2 (op.onSet S) ∧ (op.onArray a).1 = (op.onTree b).1 ∧
      op.Returns S (op.onArray a).1 := by
  cases op with
  | insert x =>
      obtain ⟨hc, he⟩ := h.changed_insert x
      exact ⟨h.insert x, congrArg RangeOutcome.changed he, hc⟩
  | insertOne x =>
      obtain ⟨hc, he⟩ := h.changed_insert ⟨x, x + 1⟩
      have hi := h.insert ⟨x, x + 1⟩
      rw [← singleton_eq] at hi hc
      simp only [RangeOp.onArray, RangeOp.onTree, RangeOp.onSet, RangeOp.Returns, RangeSet.insertOne_eq,
        ArrayRangeSet.insertOne]
      exact ⟨hi, congrArg RangeOutcome.changed he, hc⟩
  | remove x =>
      obtain ⟨hc, he⟩ := h.changed_remove x
      refine ⟨⟨fun y => ?_, fun y => ?_⟩, congrArg RangeOutcome.changed he, hc⟩
      · exact ArrayRangeSet.mem_remove.trans (and_congr_left' (h.array y))
      · exact RangeSet.mem_remove.trans (and_congr_left' (h.tree y))
  | subtract array tree same =>
      refine ⟨⟨fun y => ?_, fun y => ?_⟩, rfl, ⟨array, tree, same, rfl⟩⟩
      · exact ArrayRangeSet.mem_subtract.trans (and_congr_left' (h.array y))
      · exact RangeSet.mem_subtract.trans (and_congr (h.tree y) (not_congr (same y).symm))
  | popMin =>
      cases hb : b.popMin with
      | none =>
          have hnil : a.iter.head? = none := by
            rw [← h.peekMin_eq]
            exact Option.map_eq_none_iff.mp hb
          have hiter : a.iter = [] := List.head?_eq_none_iff.mp hnil
          have hS : S = ∅ := h.eq_empty_iff.mp hiter
          have htail : a.tail = a := by
            obtain ⟨l, hl⟩ := a
            cases (show l = [] from hiter)
            rfl
          simp only [RangeOp.onArray, RangeOp.onTree, RangeOp.onSet, RangeOp.Returns, hb, ArrayRangeSet.popMin,
            htail, show a.ranges.head? = none from hnil]
          refine ⟨?_, trivial, trivial, hS⟩
          rw [show S \ lowestRun S = S by rw [hS, Set.empty_sdiff]]
          exact h
      | some q =>
          obtain ⟨r, b'⟩ := q
          obtain ⟨hr, hrep⟩ := h.popMin hb
          obtain ⟨hlt, hrun⟩ := h.head_eq (r := r) hr
          simp only [RangeOp.onArray, RangeOp.onTree, RangeOp.onSet, RangeOp.Returns, hb, hr]
          exact ⟨hrep, trivial, trivial, hlt, hrun⟩

/-- What an option is, if a value of it is unique and there is none without it. -/
theorem eq_some_iff {o : Option ℕ} {P : ℕ → Prop} (hsome : ∀ n, o = some n → P n)
    (hnone : o = none → ∀ n, ¬ P n) (huniq : ∀ m n, P m → P n → m = n) (n : ℕ) : o = some n ↔ P n := by
  refine ⟨hsome n, fun hn => ?_⟩
  cases ho : o with
  | none => exact absurd hn (hnone ho n)
  | some m => rw [huniq m n (hsome m ho) hn]

theorem min_iff (h : Represents a b S) (n : ℕ) : a.min = some n ↔ IsLeast S n := by
  refine eq_some_iff (fun n hmin => ?_) (fun hmin n hn => ?_) (fun _ _ h1 h2 => h1.unique h2) n
  · obtain ⟨r, hr, rfl⟩ := Option.map_eq_some_iff.mp hmin
    obtain ⟨l, hl⟩ := List.head?_eq_some_iff.mp hr
    have hg : Gapped 0 (r :: l) := hl ▸ a.gapped
    have hg' : Gapped r.start a.ranges := hl ▸ ⟨le_rfl, hg.2⟩
    exact ⟨(h.array _).mp ⟨r, List.mem_of_mem_head? hr, le_rfl, hg.2.1⟩,
      fun x hx => hg'.le_of_runs ((h.array x).mpr hx)⟩
  · have hnil := List.head?_eq_none_iff.mp (Option.map_eq_none_iff.mp hmin)
    rw [h.eq_empty_iff.mp hnil] at hn
    exact hn.1

theorem max_iff (h : Represents a b S) (n : ℕ) : a.max = some n ↔ IsGreatest S n := by
  refine eq_some_iff (fun n hmax => ?_) (fun hmax n hn => ?_) (fun _ _ h1 h2 => h1.unique h2) n
  · refine ⟨(h.array _).mp (ArrayRangeSet.mem_max hmax), fun x hx => ?_⟩
    obtain ⟨r, hr, rfl⟩ := Option.map_eq_some_iff.mp hmax
    obtain ⟨l, hl⟩ := List.getLast?_eq_some_iff.mp hr
    obtain ⟨q, hq, h1, h2⟩ := (h.array x).mpr hx
    have hpair := a.gapped.pairwise
    rw [hl] at hq hpair
    rcases List.mem_append.mp hq with hq | hq
    · have hqr := (List.pairwise_append.mp hpair).2.2 q hq r (List.mem_singleton.mpr rfl)
      have := a.gapped.lt_of_mem (List.mem_of_getLast? hr)
      omega
    · rw [List.mem_singleton.mp hq] at h2
      omega
  · have hnil := List.getLast?_eq_none_iff.mp (Option.map_eq_none_iff.mp hmax)
    rw [h.eq_empty_iff.mp hnil] at hn
    exact hn.1

/-- The number of runs. -/
theorem len_eq (h : Represents a b S) : a.len = (runStarts S).ncard := ArrayRangeSet.len_eq h.array

end Represents

/-- All that can be asked of the two range sets, in terms of a set: both are it, both iterate over the same
nonempty, ascending runs that do not touch, and the other functions say what is true of the set. -/
structure SameSet (a : ArrayRangeSet) (b : RangeSet) (S : Set ℕ) : Prop where
  array : ∀ x, x ∈ a ↔ x ∈ S
  tree : ∀ x, x ∈ b ↔ x ∈ S
  iter : a.iter = b.iter
  runs : ∀ x, Runs a.iter x ↔ x ∈ S
  nonempty : ∀ r ∈ a.iter, r.start < r.end
  ascending : a.iter.Pairwise fun r s => r.end < s.start
  arrayContains : ∀ x, a.contains x = true ↔ x ∈ S
  treeContains : ∀ x, b.contains x = true ↔ x ∈ S
  arrayMin : ∀ n, a.min = some n ↔ IsLeast S n
  treeMin : ∀ n, b.min = some n ↔ IsLeast S n
  arrayMax : ∀ n, a.max = some n ↔ IsGreatest S n
  treeMax : ∀ n, b.max = some n ↔ IsGreatest S n
  arrayLen : a.len = (runStarts S).ncard
  treeLen : b.len = (runStarts S).ncard
  arrayEmpty : a.isEmpty = true ↔ S = ∅
  treeEmpty : b.isEmpty = true ↔ S = ∅

theorem Represents.sameSet {a : ArrayRangeSet} {b : RangeSet} {S : Set ℕ} (h : Represents a b S) :
    SameSet a b S := by
  have hmin : b.min = a.min := by
    unfold ArrayRangeSet.min
    rw [show a.ranges = b.iter from h.iter_eq, RangeSet.iter, List.head?_map, Option.map_map]
    rfl
  have hmax : b.max = a.max := by
    unfold ArrayRangeSet.max
    rw [show a.ranges = b.iter from h.iter_eq, RangeSet.iter, List.getLast?_map, Option.map_map]
    rfl
  have hlen : b.len = a.len := by
    unfold ArrayRangeSet.len
    rw [show a.ranges = b.iter from h.iter_eq, RangeSet.iter, List.length_map]
    rfl
  have hempty : b.isEmpty = a.isEmpty := by
    unfold ArrayRangeSet.isEmpty
    rw [show a.ranges = b.iter from h.iter_eq, RangeSet.iter, List.isEmpty_map]
    rfl
  have haempty : a.isEmpty = true ↔ S = ∅ := List.isEmpty_iff.trans h.eq_empty_iff
  exact
    { array := h.array
      tree := h.tree
      iter := h.iter_eq
      runs := h.array
      nonempty := fun r hr => a.gapped.lt_of_mem hr
      ascending := a.gapped.pairwise
      arrayContains := fun x => (containsLoop_iff a.gapped).trans (h.array x)
      treeContains := fun x => RangeSet.contains_iff.trans (h.tree x)
      arrayMin := h.min_iff
      treeMin := fun n => hmin ▸ h.min_iff n
      arrayMax := h.max_iff
      treeMax := fun n => hmax ▸ h.max_iff n
      arrayLen := h.len_eq
      treeLen := hlen.trans h.len_eq
      arrayEmpty := haempty
      treeEmpty := hempty ▸ haempty }

/-! ## Runs of operations -/

/-- A sequence of calls on an empty array. -/
def runArray (ops : List RangeOp) : ArrayRangeSet := ops.foldl (fun s op => (op.onArray s).2) .new

/-- The same calls on an empty tree. -/
def runTree (ops : List RangeOp) : RangeSet := ops.foldl (fun s op => (op.onTree s).2) .new

/-- The same calls on the empty set. -/
def runSet (ops : List RangeOp) : Set ℕ := ops.foldl (fun S op => op.onSet S) ∅

theorem represents_run (ops : List RangeOp) : Represents (runArray ops) (runTree ops) (runSet ops) := by
  have key : ∀ (ops : List RangeOp) (a : ArrayRangeSet) (b : RangeSet) (S : Set ℕ), Represents a b S →
      Represents (ops.foldl (fun s op => (op.onArray s).2) a) (ops.foldl (fun s op => (op.onTree s).2) b)
        (ops.foldl (fun S op => op.onSet S) S) := by
    intro ops
    induction ops with
    | nil => exact fun _ _ _ h => h
    | cons op ops ih => exact fun _ _ _ h => ih _ _ _ (h.step op).1
  exact key ops _ _ _ .new

/-- **The two range sets are the same set.** After every sequence of calls on an empty array and, in parallel,
on an empty tree, both are the set of numbers that union, difference and removal of the lowest maximal run
give, both iterate over its maximal runs, and `contains`, `min`, `max`, `len` and `is_empty` say what is true
of it; and the next call, whatever it is, returns the same in both: for `insert`, `insert_one` and `remove`,
whether the set changes, and for `pop_min` the lowest maximal run. -/
theorem range_sets_agree (ops : List RangeOp) :
    SameSet (runArray ops) (runTree ops) (runSet ops) ∧
      ∀ op : RangeOp, (op.onArray (runArray ops)).1 = (op.onTree (runTree ops)).1 ∧
        op.Returns (runSet ops) (op.onArray (runArray ops)).1 :=
  ⟨(represents_run ops).sameSet, fun op => ((represents_run ops).step op).2⟩

end MzQuic
