import MzQuic.Lib.Range

/-!
# Range sets over an array (`proto/src/range_set/array_range_set.rs`)

A set of numbers kept as the list of its runs in ascending order. That the runs are nonempty and do
not touch is a field of the structure.

* `insert` with its loops `insertLoop` and `mergeNext`, `insertOne`, `remove`, `subtract`, `popMin`,
  `contains`, `min`, `max`;
* `insertLoop_changed`, `removeLoop_changed`: whether the set has changed;
* `Gapped.ext`: the runs are determined by the numbers they hold;
* **`mem_insert`**, **`mem_remove`**: union and difference, with what they do to the number of runs
  (`length_insert_le`, `length_remove_le`).
-/

namespace MzQuic

open Lib

/-- The runs are nonempty, ascending and do not touch, and the first starts at or after `lo`. -/
def Gapped : ℕ → List Range → Prop
  | _, [] => True
  | lo, r :: rest => lo ≤ r.start ∧ r.start < r.end ∧ Gapped (r.end + 1) rest

/-- `ArrayRangeSet(TinyVec<[Range<u64>; 2]>)`. -/
structure ArrayRangeSet where
  ranges : List Range
  gapped : Gapped 0 ranges

/-- The inner `while` of `insert`: swallow the runs that `curr` has grown into. -/
def mergeNext (curr : Range) : List Range → List Range
  | [] => [curr]
  | next :: rest =>
    if curr.end ≥ next.start then mergeNext ⟨curr.start, max next.end curr.end⟩ rest
    else curr :: next :: rest

/-- The outer `while` of `insert`; `result` says whether the set has changed so far. -/
def insertLoop (x : Range) : Bool → List Range → Bool × List Range
  | _, [] => (true, [x])
  | result, range :: rest =>
    if range.start > x.end then (true, x :: range :: rest)
    else
      let result := result || range.start > x.start
      let range := if range.start > x.start then ⟨x.start, range.end⟩ else range
      if x.end ≤ range.end then (result, range :: rest)
      else if x.start ≤ range.end then (true, mergeNext ⟨range.start, x.end⟩ rest)
      else
        let r := insertLoop x result rest
        (r.1, range :: r.2)

/-- The `while` of `remove`; `result` says whether the set has changed so far. -/
def removeLoop (x : Range) : Bool → List Range → Bool × List Range
  | result, [] => (result, [])
  | result, range :: rest =>
    if x.end ≤ range.start then (result, range :: rest)
    else if x.start ≥ range.end then
      let r := removeLoop x result rest
      (r.1, range :: r.2)
    else
      let left : Range := ⟨range.start, x.start⟩
      let right : Range := ⟨x.end, range.end⟩
      let r := removeLoop x true rest
      if left.isEmpty && right.isEmpty then r
      else if left.isEmpty then (r.1, right :: r.2)
      else if right.isEmpty then (r.1, left :: r.2)
      else (r.1, left :: right :: r.2)

/-- The `for` of `contains`. -/
def containsLoop (x : ℕ) : List Range → Bool
  | [] => false
  | range :: rest =>
    if range.start > x then false
    else if x ∈ range then true
    else containsLoop x rest

/-! ## What the loops compute -/

/-- Some run holds `x`. -/
def Runs (l : List Range) (x : ℕ) : Prop := ∃ r ∈ l, x ∈ r

theorem runs_nil (x : ℕ) : ¬ Runs [] x := fun ⟨_, h, _⟩ => by cases h

theorem runs_cons {r : Range} {l : List Range} {x : ℕ} :
    Runs (r :: l) x ↔ (r.start ≤ x ∧ x < r.end) ∨ Runs l x := by
  simp [Runs, Range.mem_iff]

theorem Gapped.mono {lo lo' : ℕ} {l : List Range} (h : Gapped lo l) (hl : lo' ≤ lo) :
    Gapped lo' l := by
  cases l with
  | nil => trivial
  | cons r rest => exact ⟨hl.trans h.1, h.2⟩

theorem Gapped.le_of_runs {lo x : ℕ} {l : List Range} (h : Gapped lo l) (hx : Runs l x) :
    lo ≤ x := by
  induction l generalizing lo with
  | nil => exact absurd hx (runs_nil x)
  | cons r rest ih =>
      obtain ⟨h1, h2, h3⟩ := h
      rcases runs_cons.mp hx with hx | hx
      · omega
      · have := ih h3 hx; omega

theorem Gapped.lt_of_mem {lo : ℕ} {l : List Range} (h : Gapped lo l) {r : Range} (hr : r ∈ l) :
    r.start < r.end := by
  induction l generalizing lo with
  | nil => cases hr
  | cons q rest ih =>
      rcases List.mem_cons.mp hr with rfl | hr
      · exact h.2.1
      · exact ih h.2.2 hr

theorem mergeNext_spec {curr : Range} {l : List Range} (hc : curr.start < curr.end) {lo : ℕ}
    (hl : Gapped lo l) (hlo : curr.start < lo) :
    Gapped curr.start (mergeNext curr l) ∧ (mergeNext curr l).length ≤ l.length + 1 ∧
      ∀ y, Runs (mergeNext curr l) y ↔ (curr.start ≤ y ∧ y < curr.end) ∨ Runs l y := by
  induction l generalizing curr lo with
  | nil => exact ⟨⟨le_rfl, hc, trivial⟩, le_rfl, fun y => runs_cons⟩
  | cons next rest ih =>
      obtain ⟨h1, h2, h3⟩ := hl
      unfold mergeNext
      split_ifs with h
      · have hc' : (⟨curr.start, max next.end curr.end⟩ : Range).start < max next.end curr.end := by
          simp only; omega
        obtain ⟨g1, g2, g3⟩ := ih hc' h3 (by simp only; omega)
        refine ⟨g1, by rw [List.length_cons]; omega, fun y => ?_⟩
        rw [g3, runs_cons]
        simp only
        by_cases hr : Runs rest y
        · simp [hr]
        · simp only [hr, or_false]; omega
      · refine ⟨⟨le_rfl, hc, by omega, h2, h3⟩, by simp, fun y => ?_⟩
        rw [runs_cons]

theorem insertLoop_spec {x : Range} (hx : x.start < x.end) {l : List Range} (result : Bool) {lo : ℕ}
    (hl : Gapped lo l) (hlo : lo ≤ x.start) :
    Gapped lo (insertLoop x result l).2 ∧ (insertLoop x result l).2.length ≤ l.length + 1 ∧
      ∀ y, Runs (insertLoop x result l).2 y ↔ (x.start ≤ y ∧ y < x.end) ∨ Runs l y := by
  induction l generalizing result lo with
  | nil => exact ⟨⟨hlo, hx, trivial⟩, le_rfl, fun y => runs_cons⟩
  | cons range rest ih =>
      obtain ⟨h1, h2, h3⟩ := hl
      unfold insertLoop
      by_cases hgt : range.start > x.end
      · rw [if_pos hgt]
        exact ⟨⟨hlo, hx, by omega, h2, h3⟩, by simp, fun y => runs_cons⟩
      rw [if_neg hgt]
      -- the run after it has been extended to the left
      have hr : (if range.start > x.start then (⟨x.start, range.end⟩ : Range) else range) =
          ⟨min x.start range.start, range.end⟩ := by
        split_ifs with h
        · congr 1; omega
        · cases range; congr 1; simp only at h ⊢; omega
      dsimp only
      rw [hr]
      split_ifs with hin htouch
      · refine ⟨⟨by simp only; omega, by simp only; omega, h3⟩, by simp, fun y => ?_⟩
        rw [runs_cons, runs_cons]
        simp only at hin ⊢
        by_cases hy : Runs rest y
        · simp [hy]
        · simp only [hy, or_false]; omega
      · simp only at hin htouch
        have hc : (⟨min x.start range.start, x.end⟩ : Range).start < x.end := by simp only; omega
        obtain ⟨g1, g2, g3⟩ := mergeNext_spec hc h3 (by simp only; omega)
        refine ⟨g1.mono (by simp only; omega), by simp only [List.length_cons]; omega, fun y => ?_⟩
        rw [g3, runs_cons]
        simp only
        by_cases hy : Runs rest y
        · simp [hy]
        · simp only [hy, or_false]; omega
      · simp only at hin htouch
        obtain ⟨g1, g2, g3⟩ := ih (result || decide (range.start > x.start)) h3 (by omega)
        refine ⟨⟨by simp only; omega, by simp only; omega, g1⟩, by simp only [List.length_cons]; omega,
          fun y => ?_⟩
        rw [runs_cons, g3, runs_cons]
        simp only
        have hmin : min x.start range.start = range.start := by omega
        rw [hmin]
        tauto

theorem removeLoop_spec {x : Range} (hx : x.start < x.end) {l : List Range} (result : Bool) {lo : ℕ}
    (hl : Gapped lo l) :
    Gapped lo (removeLoop x result l).2 ∧
      (x.start = 0 → (removeLoop x result l).2.length ≤ l.length) ∧
      ∀ y, Runs (removeLoop x result l).2 y ↔ Runs l y ∧ ¬ (x.start ≤ y ∧ y < x.end) := by
  induction l generalizing result lo with
  | nil =>
      refine ⟨trivial, fun _ => le_rfl, fun y => ?_⟩
      simp [removeLoop, runs_nil]
  | cons range rest ih =>
      obtain ⟨h1, h2, h3⟩ := hl
      unfold removeLoop
      by_cases hb : x.end ≤ range.start
      · rw [if_pos hb]
        refine ⟨⟨h1, h2, h3⟩, fun _ => le_rfl, fun y => ⟨fun h => ⟨h, fun hy => ?_⟩, fun h => h.1⟩⟩
        have hg : Gapped range.start (range :: rest) := ⟨le_rfl, h2, h3⟩
        have := hg.le_of_runs h
        omega
      rw [if_neg hb]
      by_cases ha : x.start ≥ range.end
      · rw [if_pos ha]
        obtain ⟨g1, g2, g3⟩ := ih result h3
        refine ⟨⟨h1, h2, g1⟩, fun h0 => by omega, fun y => ?_⟩
        rw [runs_cons, g3, runs_cons]
        by_cases hy : range.start ≤ y ∧ y < range.end
        · simp only [hy, and_self, true_or, true_and, true_iff]; omega
        · simp only [hy, false_or]
      rw [if_neg ha]
      obtain ⟨g1, g2, g3⟩ := ih true h3
      have hrest : ∀ y, Runs rest y → range.end < y := fun y hy => h3.le_of_runs hy
      dsimp only
      by_cases hleft : (⟨range.start, x.start⟩ : Range).isEmpty = true <;>
        by_cases hright : (⟨x.end, range.end⟩ : Range).isEmpty = true
      all_goals simp only [hleft, hright, Bool.and_self, Bool.and_true, if_true, Bool.false_eq_true,
        if_false, Bool.and_false]
      all_goals rw [Range.isEmpty_iff] at hleft hright
      all_goals simp only at hleft hright
      · refine ⟨g1.mono (by omega), fun h0 => (g2 h0).trans (by simp), fun y => ?_⟩
        rw [g3, runs_cons]
        have := hrest y
        by_cases hy : Runs rest y
        · have := hrest y hy; simp only [hy, true_and, or_true]
        · simp only [hy, false_and, or_false, false_iff]; omega
      · refine ⟨⟨by simp only; omega, by simp only; omega, g1⟩,
          fun h0 => by have := g2 h0; simp only [List.length_cons]; omega, fun y => ?_⟩
        rw [runs_cons, g3, runs_cons]
        simp only
        by_cases hy : Runs rest y
        · have := hrest y hy; simp only [hy, true_and, or_true]; omega
        · simp only [hy, false_and, or_false]; omega
      · refine ⟨⟨h1, by simp only; omega, g1.mono (by simp only; omega)⟩,
          fun h0 => by have := g2 h0; simp only [List.length_cons]; omega, fun y => ?_⟩
        rw [runs_cons, g3, runs_cons]
        simp only
        by_cases hy : Runs rest y
        · have := hrest y hy; simp only [hy, true_and, or_true]; omega
        · simp only [hy, false_and, or_false]; omega
      · refine ⟨⟨h1, by simp only; omega, by simp only; omega, by simp only; omega, g1⟩,
          fun h0 => by omega, fun y => ?_⟩
        rw [runs_cons, runs_cons, g3, runs_cons]
        simp only
        by_cases hy : Runs rest y
        · have := hrest y hy; simp only [hy, true_and, or_true]; omega
        · simp only [hy, false_and, or_false]; omega

theorem containsLoop_iff {x : ℕ} {l : List Range} {lo : ℕ} (hl : Gapped lo l) :
    containsLoop x l = true ↔ Runs l x := by
  induction l generalizing lo with
  | nil => exact iff_of_false Bool.false_ne_true (runs_nil x)
  | cons range rest ih =>
      obtain ⟨h1, h2, h3⟩ := hl
      rw [containsLoop, runs_cons]
      split_ifs with hgt hin
      · -- the runs from here on start after `x`
        have hrest : ¬ Runs rest x := fun h => by
          have := h3.le_of_runs h
          omega
        exact iff_of_false id (not_or.mpr ⟨by omega, hrest⟩)
      · exact iff_of_true rfl (.inl hin)
      · rw [ih h3]
        exact (or_iff_right hin).symm

/-- **`insert` tells whether the range holds anything new.** -/
theorem insertLoop_changed {x : Range} (hx : x.start < x.end) {l : List Range} (result : Bool) {lo : ℕ}
    (hl : Gapped lo l) :
    (insertLoop x result l).1 = true ↔ result = true ∨ ∃ y, y ∈ x ∧ ¬ Runs l y := by
  induction l generalizing result lo with
  | nil => exact iff_of_true rfl (.inr ⟨x.start, ⟨le_rfl, hx⟩, runs_nil _⟩)
  | cons range rest ih =>
      obtain ⟨h1, h2, h3⟩ := hl
      -- what lies before the first run, or right after it, is in no run
      have hbefore : ∀ y, y < range.start → ¬ Runs (range :: rest) y := fun y hy h => by
        have hg : Gapped range.start (range :: rest) := ⟨le_rfl, h2, h3⟩
        have := hg.le_of_runs h
        omega
      have hafter : ∀ y, Runs rest y → range.end < y := fun y h => h3.le_of_runs h
      unfold insertLoop
      by_cases hgt : range.start > x.end
      · rw [if_pos hgt]
        exact iff_of_true rfl (.inr ⟨x.start, ⟨le_rfl, hx⟩, hbefore _ (by omega)⟩)
      rw [if_neg hgt]
      dsimp only
      have hend : (if range.start > x.start then (⟨x.start, range.end⟩ : Range) else range).end = range.end := by
        split_ifs <;> rfl
      rw [hend]
      by_cases hin : x.end ≤ range.end
      · rw [if_pos hin]
        by_cases hstart : range.start > x.start
        · simp only [hstart, decide_true, Bool.or_true, true_iff]
          exact .inr ⟨x.start, ⟨le_rfl, hx⟩, hbefore _ hstart⟩
        · simp only [hstart, decide_false, Bool.or_false]
          refine ⟨.inl, fun h => h.elim id ?_⟩
          rintro ⟨y, ⟨hy1, hy2⟩, hy⟩
          exact absurd (runs_cons.mpr (.inl ⟨by omega, by omega⟩)) hy
      rw [if_neg hin]
      by_cases htouch : x.start ≤ range.end
      · rw [if_pos htouch]
        refine iff_of_true rfl (.inr ⟨range.end, ⟨htouch, by omega⟩, fun h => ?_⟩)
        rcases runs_cons.mp h with h | h
        · omega
        · have := hafter _ h
          omega
      · rw [if_neg htouch, ih _ h3, decide_eq_false (by omega), Bool.or_false]
        refine or_congr Iff.rfl (exists_congr fun y => and_congr_right fun hy => not_congr ?_)
        rw [runs_cons]
        obtain ⟨hy1, hy2⟩ := hy
        exact (or_iff_right (by omega)).symm

/-- **`remove` tells whether the set held anything of the range.** -/
theorem removeLoop_changed {x : Range} (hx : x.start < x.end) {l : List Range} (result : Bool) {lo : ℕ}
    (hl : Gapped lo l) :
    (removeLoop x result l).1 = true ↔ result = true ∨ ∃ y, y ∈ x ∧ Runs l y := by
  induction l generalizing result lo with
  | nil => exact ⟨.inl, fun h => h.elim id fun ⟨y, _, hy⟩ => absurd hy (runs_nil y)⟩
  | cons range rest ih =>
      obtain ⟨h1, h2, h3⟩ := hl
      unfold removeLoop
      by_cases hb : x.end ≤ range.start
      · rw [if_pos hb]
        refine ⟨.inl, fun h => h.elim id ?_⟩
        rintro ⟨y, ⟨hy1, hy2⟩, hy⟩
        have hg : Gapped range.start (range :: rest) := ⟨le_rfl, h2, h3⟩
        have := hg.le_of_runs hy
        omega
      rw [if_neg hb]
      by_cases ha : x.start ≥ range.end
      · rw [if_pos ha, ih _ h3]
        refine or_congr Iff.rfl (exists_congr fun y => and_congr_right fun hy => ?_)
        rw [runs_cons]
        obtain ⟨hy1, hy2⟩ := hy
        exact (or_iff_right (by omega)).symm
      rw [if_neg ha]
      have htrue : (removeLoop x true rest).1 = true := (ih true h3).mpr (.inl rfl)
      have hany : ∃ y, y ∈ x ∧ Runs (range :: rest) y :=
        ⟨Max.max x.start range.start, ⟨by omega, by omega⟩, runs_cons.mpr (.inl ⟨by omega, by omega⟩)⟩
      refine iff_of_true ?_ (.inr hany)
      dsimp only
      split_ifs <;> exact htrue

/-- The runs are determined by the numbers they hold. -/
theorem Gapped.ext {lo lo' : ℕ} {l l' : List Range} (h : Gapped lo l) (h' : Gapped lo' l')
    (hx : ∀ x, Runs l x ↔ Runs l' x) : l = l' := by
  induction l generalizing lo lo' l' with
  | nil =>
      cases l' with
      | nil => rfl
      | cons r' rest' => exact absurd ((hx r'.start).mpr (runs_cons.mpr (.inl ⟨le_rfl, h'.2.1⟩))) (runs_nil _)
  | cons r rest ih =>
      cases l' with
      | nil => exact absurd ((hx r.start).mp (runs_cons.mpr (.inl ⟨le_rfl, h.2.1⟩))) (runs_nil _)
      | cons r' rest' =>
          obtain ⟨-, h2, h3⟩ := h
          obtain ⟨-, h2', h3'⟩ := h'
          have hrest : ∀ y, Runs rest y → r.end < y := fun y hy => h3.le_of_runs hy
          have hrest' : ∀ y, Runs rest' y → r'.end < y := fun y hy => h3'.le_of_runs hy
          -- both start at the least number and end before the first one that is missing
          have hstart : r.start = r'.start := by
            rcases runs_cons.mp ((hx r.start).mp (runs_cons.mpr (.inl ⟨le_rfl, h2⟩))) with ha | ha <;>
              rcases runs_cons.mp ((hx r'.start).mpr (runs_cons.mpr (.inl ⟨le_rfl, h2'⟩))) with hb | hb
            · omega
            · have := hrest _ hb
              omega
            · have := hrest' _ ha
              omega
            · have := hrest _ hb
              have := hrest' _ ha
              omega
          have hend : r.end = r'.end := by
            rcases Nat.lt_trichotomy r.end r'.end with hlt | he | hlt
            · rcases runs_cons.mp ((hx r.end).mpr (runs_cons.mpr (.inl ⟨by omega, hlt⟩))) with ha | ha
              · omega
              · exact absurd (hrest _ ha) (lt_irrefl _)
            · exact he
            · rcases runs_cons.mp ((hx r'.end).mp (runs_cons.mpr (.inl ⟨by omega, hlt⟩))) with ha | ha
              · omega
              · exact absurd (hrest' _ ha) (lt_irrefl _)
          have hr : r = r' := by
            cases r
            cases r'
            exact congrArg₂ Range.mk hstart hend
          subst hr
          have htail : rest = rest' := by
            refine ih h3 h3' fun x => ?_
            have hxx := hx x
            rw [runs_cons, runs_cons] at hxx
            constructor
            · intro hy
              have := hrest x hy
              exact (hxx.mp (.inr hy)).resolve_left (by omega)
            · intro hy
              have := hrest' x hy
              exact (hxx.mpr (.inr hy)).resolve_left (by omega)
          rw [htail]

namespace ArrayRangeSet

instance : Membership ℕ ArrayRangeSet := ⟨fun s x => Runs s.ranges x⟩

instance : DecidableEq ArrayRangeSet := fun s t =>
  decidable_of_iff (s.ranges = t.ranges)
    ⟨fun h => by cases s; cases t; cases h; rfl, fun h => by rw [h]⟩

/-- `ArrayRangeSet::new`. -/
def new : ArrayRangeSet := ⟨[], trivial⟩

/-- `ArrayRangeSet::len`. -/
def len (s : ArrayRangeSet) : ℕ := s.ranges.length

/-- `ArrayRangeSet::is_empty`. -/
def isEmpty (s : ArrayRangeSet) : Bool := s.ranges.isEmpty

/-- `ArrayRangeSet::insert`: whether the set changed, and the new set. -/
def insert (s : ArrayRangeSet) (x : Range) : Bool × ArrayRangeSet :=
  if h : x.start < x.end then
    ((insertLoop x false s.ranges).1,
      ⟨(insertLoop x false s.ranges).2, (insertLoop_spec h false s.gapped (Nat.zero_le _)).1⟩)
  else (false, s)

/-- `ArrayRangeSet::insert_one`. -/
def insertOne (s : ArrayRangeSet) (x : ℕ) : Bool × ArrayRangeSet := s.insert ⟨x, x + 1⟩

/-- `ArrayRangeSet::remove`: whether the set changed, and the new set. -/
def remove (s : ArrayRangeSet) (x : Range) : Bool × ArrayRangeSet :=
  if h : x.start < x.end then
    ((removeLoop x false s.ranges).1,
      ⟨(removeLoop x false s.ranges).2, (removeLoop_spec h false s.gapped).1⟩)
  else (false, s)

/-- The set without its first run. -/
def tail (s : ArrayRangeSet) : ArrayRangeSet where
  ranges := s.ranges.tail
  gapped := by
    obtain ⟨l, h⟩ := s
    cases l with
    | nil => trivial
    | cons r rest => exact h.2.2.mono (Nat.zero_le _)

/-- `ArrayRangeSet::pop_min`. -/
def popMin (s : ArrayRangeSet) : Option Range × ArrayRangeSet := (s.ranges.head?, s.tail)

/-- `ArrayRangeSet::iter`. -/
def iter (s : ArrayRangeSet) : List Range := s.ranges

/-- `ArrayRangeSet::contains`. -/
def contains (s : ArrayRangeSet) (x : ℕ) : Bool := containsLoop x s.ranges

/-- `ArrayRangeSet::subtract`. -/
def subtract (s other : ArrayRangeSet) : ArrayRangeSet :=
  other.ranges.foldl (fun s range => (s.remove range).2) s

/-- `ArrayRangeSet::min`. -/
def min (s : ArrayRangeSet) : Option ℕ := s.ranges.head?.map Range.start

/-- `ArrayRangeSet::max`. -/
def max (s : ArrayRangeSet) : Option ℕ := s.ranges.getLast?.map fun r => r.end - 1

theorem notMem_new (x : ℕ) : x ∉ new := runs_nil x

/-- **`insert` is union.** -/
theorem mem_insert {s : ArrayRangeSet} {x : Range} {y : ℕ} :
    y ∈ (s.insert x).2 ↔ y ∈ x ∨ y ∈ s := by
  unfold insert
  split_ifs with h
  · exact (insertLoop_spec h false s.gapped (Nat.zero_le _)).2.2 y
  · rw [Range.mem_iff]
    exact ⟨.inr, fun hy => hy.resolve_left (by omega)⟩

theorem mem_insertOne {s : ArrayRangeSet} {x y : ℕ} :
    y ∈ (s.insertOne x).2 ↔ y = x ∨ y ∈ s := by
  rw [insertOne, mem_insert, Range.mem_iff]
  simp only
  exact or_congr (by omega) Iff.rfl

/-- **`remove` is difference.** -/
theorem mem_remove {s : ArrayRangeSet} {x : Range} {y : ℕ} :
    y ∈ (s.remove x).2 ↔ y ∈ s ∧ y ∉ x := by
  unfold remove
  split_ifs with h
  · exact (removeLoop_spec h false s.gapped).2.2 y
  · rw [Range.mem_iff]
    exact ⟨fun hy => ⟨hy, by omega⟩, fun hy => hy.1⟩

theorem length_insert_le (s : ArrayRangeSet) (x : Range) :
    (s.insert x).2.ranges.length ≤ s.ranges.length + 1 := by
  unfold insert
  split_ifs with h
  · exact (insertLoop_spec h false s.gapped (Nat.zero_le _)).2.1
  · simp only; omega

/-- Removing a prefix of the numbers splits no run. -/
theorem length_remove_le (s : ArrayRangeSet) (n : ℕ) :
    (s.remove ⟨0, n⟩).2.ranges.length ≤ s.ranges.length := by
  unfold remove
  split_ifs with h
  · exact (removeLoop_spec h false s.gapped).2.1 rfl
  · exact le_rfl

theorem mem_max {s : ArrayRangeSet} {n : ℕ} (h : s.max = some n) : n ∈ s := by
  obtain ⟨r, hr, rfl⟩ := Option.map_eq_some_iff.mp h
  have hmem := List.mem_of_getLast? hr
  have hlt := s.gapped.lt_of_mem hmem
  exact ⟨r, hmem, by rw [Range.mem_iff]; omega⟩

theorem mem_of_mem_tail {s : ArrayRangeSet} {y : ℕ} (h : y ∈ s.tail) : y ∈ s := by
  obtain ⟨r, hr, hy⟩ := h
  exact ⟨r, List.mem_of_mem_tail hr, hy⟩

end ArrayRangeSet

end MzQuic
