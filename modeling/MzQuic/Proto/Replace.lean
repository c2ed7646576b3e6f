import MzQuic.Lib.Run
import MzQuic.Proto.RangeSet

/-!
# `replace` of range sets (`proto/src/range_set/btree_range_set.rs`)

The constructor takes out the run that begins at or before the new range, the iterator takes out one run for
each overlap that it yields, and the destructor does what is left and inserts the union. No guard keeps an
empty range out, so the work is done on the map and not on the structure that carries `Canon`.

* `replaceMap`, `Replace.next`, `Replace.consume`, `Replace.drop`: the call, its iterator, its destructor;
* `overlaps m r`: the nonempty intersections of the runs with a range; `overlaps_erase`: those of a range that
  takes in a run;
* `Working R u`: what the iterator has taken out is in its range, the rest is still in the set;
  `Working.next`: one step yields the first overlap that is left;
* `Fits m r`: the condition on the range of `replace`; `drop_unfit`, `not_replaceRight`: a range that does not
  fit is stored as an empty run, which spoils the next call;
* `SetCall`, `SetCall.step`: runs of calls on a set; `replaceRight_apply_iff`: one call;
* **`replace_right_iff`**: `replace` is right in every state that a run reaches if and only if every call fits.
-/

namespace MzQuic

open Lib

/-- `Replace`: the set, the portion of the intersection from the run that begins at or before the new range,
and the union of the range and of the runs visited so far. -/
structure Replace where
  set : OrdMap ℕ
  pred : Option Range
  range : Range
  deriving DecidableEq

/-- `RangeSet::replace` on the map. -/
def replaceMap (m : OrdMap ℕ) (range : Range) : Replace :=
  match (m.pred range.start).filter fun p => p.2 ≥ range.start with
  | some (prevStart, prevEnd) =>
    let replacedStart := range.start
    let replacedEnd := min range.end prevEnd
    { set := m.erase prevStart
      pred := if replacedStart ≠ replacedEnd then some ⟨replacedStart, replacedEnd⟩ else none
      range := ⟨min range.start prevStart, max range.end prevEnd⟩ }
  | none => ⟨m, none, range⟩

namespace Replace

/-- `Replace::next`. -/
def next (R : Replace) : Option Range × Replace :=
  match R.pred with
  | some pred => (some pred, { R with pred := none })
  | none =>
    match R.set.succ R.range.start with
    | none => (none, R)
    | some (nextStart, nextEnd) =>
      if nextStart > R.range.end then (none, R)
      else
        let replacedEnd := min R.range.end nextEnd
        (if nextStart = replacedEnd then none else some ⟨nextStart, replacedEnd⟩,
          ⟨R.set.erase nextStart, none, ⟨R.range.start, max R.range.end nextEnd⟩⟩)

/-- The `for` loop of the destructor: take what is left until the iterator returns `None`. -/
def drain : ℕ → Replace → Replace
  | 0, R => R
  | n + 1, R =>
    match R.next with
    | (none, R') => R'
    | (some _, R') => drain n R'

/-- How often the iterator may still yield: the fuel of the destructor's loop. -/
def left (R : Replace) : ℕ := R.pred.toList.length + R.set.entries.length

/-- `Replace::drop`: the set after the value has been dropped. -/
def drop (R : Replace) : OrdMap ℕ :=
  let R' := R.drain (R.left + 1)
  R'.set.insert R'.range.start R'.range.end

/-- The results of `calls` calls of `next`, and the iterator after them. -/
def consume : ℕ → Replace → List (Option Range) × Replace
  | 0, R => ([], R)
  | calls + 1, R => (R.next.1 :: (consume calls R.next.2).1, (consume calls R.next.2).2)

/-- A step that yields uses up one of what is left, so the fuel of `drop` is enough. -/
theorem left_next {R : Replace} {r : Range} (h : R.next.1 = some r) : R.next.2.left < R.left := by
  obtain ⟨set, pred, range⟩ := R
  unfold next at h ⊢
  cases pred with
  | some p => simp [left]
  | none =>
      cases hs : set.succ range.start with
      | none =>
          rw [hs] at h
          cases h
      | some q =>
          obtain ⟨nextStart, nextEnd⟩ := q
          simp only [hs] at h ⊢
          by_cases hgt : nextStart > range.end
          · rw [if_pos hgt] at h
            cases h
          · rw [if_neg hgt]
            have := OrdMap.length_erase_lt (OrdMap.succ_eq_some hs).1
            simpa [left] using this

theorem drain_fuel {n : ℕ} {R : Replace} (h : R.left < n) : R.drain (n + 1) = R.drain n := by
  induction n generalizing R with
  | zero => omega
  | succ n ih =>
      rw [drain, drain]
      cases hr : R.next with
      | mk o R' =>
          cases o with
          | none => rfl
          | some r =>
              have := left_next (R := R) (r := r) (by rw [hr])
              rw [hr] at this
              exact ih (by simp only at this; omega)

end Replace

/-! ## Intersections -/

/-- The intersection of a run with a range, unless it is empty. -/
def overlap (r : Range) (p : ℕ × ℕ) : Option Range :=
  if max r.start p.1 < min r.end p.2 then some ⟨max r.start p.1, min r.end p.2⟩ else none

/-- The nonempty intersections of the runs with a range, in ascending order. -/
def overlaps (m : OrdMap ℕ) (r : Range) : List Range := m.entries.filterMap (overlap r)

section Overlap

variable {r r' : Range} {p : ℕ × ℕ} {l : List (ℕ × ℕ)}

theorem overlap_eq_none (h : p.2 ≤ r.start ∨ r.end ≤ p.1) : overlap r p = none := by
  unfold overlap
  exact if_neg (by omega)

theorem filterMap_overlap_nil (h : ∀ p ∈ l, p.2 ≤ r.start ∨ r.end ≤ p.1) : l.filterMap (overlap r) = [] :=
  List.filterMap_eq_nil_iff.mpr fun p hp => overlap_eq_none (h p hp)

/-- For runs after both starts only the ends of the ranges matter, and only if they reach the runs. -/
theorem filterMap_overlap_congr (h : ∀ p ∈ l, r.start ≤ p.1 ∧ r'.start ≤ p.1)
    (he : r.end = r'.end ∨ ∀ p ∈ l, r.end ≤ p.1 ∧ r'.end ≤ p.1) :
    l.filterMap (overlap r) = l.filterMap (overlap r') := by
  rcases he with he | he
  · refine List.filterMap_congr fun p hp => ?_
    have := h p hp
    unfold overlap
    rw [he, max_eq_right this.1, max_eq_right this.2]
  · rw [filterMap_overlap_nil fun p hp => .inr (he p hp).1, filterMap_overlap_nil fun p hp => .inr (he p hp).2]

/-- **A range that takes in a run** `s..e`: it has the overlap with the run, and then those of the grown range
with the other runs. The runs before `s` reach neither range. -/
theorem overlaps_erase {m : OrdMap ℕ} (hm : Canon m) {s e : ℕ} (hq : (s, e) ∈ m.entries)
    (hbefore : ∀ p ∈ m.entries, p.1 < s → p.2 ≤ r.start ∧ p.2 ≤ r'.start) (hr : r.start ≤ e) (hr' : r'.start ≤ e)
    (he : r'.end = max r.end e) :
    overlaps m r = (overlap r (s, e)).toList ++ overlaps (m.erase s) r' := by
  obtain ⟨before, after, hl, hl', hb, ha⟩ := OrdMap.erase_split hq
  dsimp only at hl' hb ha
  have hmem : ∀ p ∈ before, p ∈ m.entries := fun p hp => by rw [hl]; exact List.mem_append_left _ hp
  have hend : ∀ p ∈ after, e < p.1 := fun p hp => hm.apart _ hq p (by rw [hl]; simp [hp]) (ha p hp)
  have hnil : before.filterMap (overlap r) = [] ∧ before.filterMap (overlap r') = [] :=
    ⟨filterMap_overlap_nil fun p hp => .inl (hbefore p (hmem p hp) (hb p hp)).1,
      filterMap_overlap_nil fun p hp => .inl (hbefore p (hmem p hp) (hb p hp)).2⟩
  have hrest : after.filterMap (overlap r) = after.filterMap (overlap r') := by
    refine filterMap_overlap_congr (fun p hp => ?_) ?_
    · have := hend p hp
      omega
    · by_cases hle : e ≤ r.end
      · exact .inl (by omega)
      · refine .inr fun p hp => ?_
        have := hend p hp
        omega
  rw [overlaps, overlaps, hl', hl, List.filterMap_append, List.filterMap_append, hnil.1, hnil.2, List.nil_append,
    List.nil_append, List.filterMap_cons, hrest]
  cases overlap r (s, e) <;> rfl

/-- Taking in a run leaves the union as it is. -/
theorem covers_grow {m : OrdMap ℕ} (hm : Canon m) {s e : ℕ} (hq : (s, e) ∈ m.entries)
    (hr : ∀ y, y ∈ r' ↔ y ∈ r ∨ (s ≤ y ∧ y < e)) (y : ℕ) :
    Covers m y ∨ y ∈ r ↔ Covers (m.erase s) y ∨ y ∈ r' := by
  rw [covers_erase hm hq, hr]
  by_cases hy : s ≤ y ∧ y < e
  · exact iff_of_true (.inl ⟨_, hq, hy⟩) (.inr (.inr hy))
  · rw [and_iff_left hy, or_iff_left hy]

/-- If the last run at or before `x` ends before it, so do the others. -/
theorem before_of_pred {m : OrdMap ℕ} (hm : Canon m) {x : ℕ} (h : ∀ p, m.pred x = some p → p.2 < x) :
    ∀ p ∈ m.entries, p.1 ≤ x → p.2 < x := by
  intro p hp hle
  cases hpred : m.pred x with
  | none => exact absurd (OrdMap.pred_eq_none.mp hpred p hp) (Nat.not_lt.mpr hle)
  | some q =>
      obtain ⟨hq, hqle, hmax⟩ := OrdMap.pred_eq_some hpred
      have hend := h q hpred
      rcases lt_or_eq_of_le (hmax p hp hle) with hlt | he
      · have := hm.apart p hp q hq hlt
        omega
      · rw [OrdMap.eq_of_key hp hq he]
        exact hend

end Overlap

/-! ## The iterator at work -/

namespace Replace

/-- What the iterator still has to yield. -/
def todo (R : Replace) : List Range := R.pred.toList ++ overlaps R.set R.range

/-- The iterator at work on the union `u`: the runs that are left before its range end before it. -/
structure Working (R : Replace) (u : ℕ → Prop) : Prop where
  canon : Canon R.set
  nonempty : R.range.start < R.range.end
  before : ∀ p ∈ R.set.entries, p.1 ≤ R.range.start → p.2 < R.range.start
  union : ∀ y, u y ↔ Covers R.set y ∨ y ∈ R.range

theorem todo_length_le (R : Replace) : R.todo.length ≤ R.left := by
  rw [todo, left, List.length_append]
  exact Nat.add_le_add_left (List.length_filterMap_le _ _) _

namespace Working

variable {R : Replace} {u : ℕ → Prop}

/-- **One step**: the first overlap that is left is yielded, and the others stay. When the iterator returns
`None`, every run that is left after its range lies apart from it. -/
theorem next (h : R.Working u) : R.next.1 = R.todo.head? ∧ R.next.2.todo = R.todo.tail ∧ R.next.2.Working u ∧
    (R.next.1 = none → ∀ p ∈ R.next.2.set.entries, R.next.2.range.start < p.1 → R.next.2.range.end < p.1) := by
  obtain ⟨set, pred, range⟩ := R
  obtain ⟨hc, hne, hb, hu⟩ := h
  dsimp only at hc hne hb hu
  cases pred with
  | some p => exact ⟨rfl, rfl, ⟨hc, hne, hb, hu⟩, fun h => by cases h⟩
  | none =>
      have hbefore : ∀ p ∈ set.entries, p.1 ≤ range.start → p.2 ≤ range.start ∨ range.end ≤ p.1 :=
        fun p hp h => .inl (hb p hp h).le
      have htodo : ∀ (set : OrdMap ℕ) (range : Range), todo ⟨set, none, range⟩ = overlaps set range := fun _ _ => rfl
      unfold Replace.next
      dsimp only
      cases hs : set.succ range.start with
      | none =>
          have hle := OrdMap.succ_eq_none.mp hs
          have hnil : overlaps set range = [] := filterMap_overlap_nil fun p hp => hbefore p hp (hle p hp)
          dsimp only
          rw [htodo, hnil]
          exact ⟨rfl, rfl, ⟨hc, hne, hb, hu⟩, fun _ p hp h => absurd (hle p hp) (by omega)⟩
      | some q =>
          obtain ⟨nextStart, nextEnd⟩ := q
          obtain ⟨hq, hlt, hmin⟩ := OrdMap.succ_eq_some hs
          dsimp only at hlt hmin ⊢
          by_cases hgt : nextStart > range.end
          · have hafter : ∀ p ∈ set.entries, range.start < p.1 → range.end < p.1 := fun p hp h => by
              have := hmin p hp h
              omega
            have hnil : overlaps set range = [] := filterMap_overlap_nil fun p hp => by
              by_cases hp1 : p.1 ≤ range.start
              · exact hbefore p hp hp1
              · exact .inr (hafter p hp (by omega)).le
            rw [if_pos hgt, htodo, hnil]
            exact ⟨rfl, rfl, ⟨hc, hne, hb, hu⟩, fun _ => hafter⟩
          rw [if_neg hgt]
          have hqne : nextStart < nextEnd := hc.nonempty _ hq
          have hsplit : overlaps set range = (overlap range (nextStart, nextEnd)).toList ++
              overlaps (set.erase nextStart) ⟨range.start, max range.end nextEnd⟩ := by
            refine overlaps_erase hc hq (fun p hp h => ?_) (by omega) (by simp only; omega) rfl
            -- a run that begins before the next one begins at or before the range
            have hp1 : p.1 ≤ range.start := by
              by_contra h'
              have := hmin p hp (by omega)
              omega
            exact ⟨(hb p hp hp1).le, (hb p hp hp1).le⟩
          have hafter : ∀ p ∈ (set.erase nextStart).entries, range.start < p.1 → nextEnd < p.1 := by
            intro p hp h
            obtain ⟨hp, hpne⟩ := OrdMap.mem_erase.mp hp
            have := hmin p hp h
            exact hc.apart _ hq p hp (by simp only; omega)
          have hwork : Working ⟨set.erase nextStart, none, ⟨range.start, max range.end nextEnd⟩⟩ u := by
            refine ⟨hc.erase _, by simp only; omega, fun p hp => hb p (OrdMap.mem_erase.mp hp).1, fun y => ?_⟩
            rw [hu]
            refine covers_grow hc hq (fun y => ?_) y
            rw [Range.mem_iff, Range.mem_iff]
            simp only
            omega
          rw [htodo, htodo, hsplit]
          by_cases htouch : nextStart = min range.end nextEnd
          · -- the next run only touches the range, so no later one overlaps it
            have hnone : overlap range (nextStart, nextEnd) = none := overlap_eq_none (.inr (by simp only; omega))
            have hmax : max range.end nextEnd = nextEnd := by omega
            have hnil : overlaps (set.erase nextStart) ⟨range.start, max range.end nextEnd⟩ = [] := by
              refine filterMap_overlap_nil fun p hp => ?_
              by_cases hp1 : p.1 ≤ range.start
              · exact .inl (hb p (OrdMap.mem_erase.mp hp).1 hp1).le
              · exact .inr (by rw [hmax]; exact (hafter p hp (by omega)).le)
            rw [if_pos htouch, hnone, hnil]
            exact ⟨rfl, rfl, hwork, fun _ p hp h => by rw [hmax]; exact hafter p hp h⟩
          · have hsome : overlap range (nextStart, nextEnd) = some ⟨nextStart, min range.end nextEnd⟩ := by
              unfold overlap
              rw [if_pos (by simp only; omega), max_eq_right hlt.le]
            rw [if_neg htouch, hsome]
            exact ⟨rfl, rfl, hwork, fun h => by cases h⟩

/-- A run of `next`: the first overlaps that are left are yielded in order, then `None`. -/
theorem consume (h : R.Working u) (calls : ℕ) :
    (R.consume calls).1 = (List.range calls).map (fun i => R.todo[i]?) ∧ (R.consume calls).2.Working u := by
  induction calls generalizing R with
  | zero => exact ⟨rfl, h⟩
  | succ calls ih =>
      obtain ⟨hhead, htail, hw, -⟩ := h.next
      obtain ⟨h1, h2⟩ := ih hw
      refine ⟨?_, h2⟩
      rw [Replace.consume, h1, hhead, htail, List.range_succ_eq_map, List.map_cons, List.map_map]
      refine congrArg₂ _ List.head?_eq_getElem? (List.map_congr_left fun i _ => ?_)
      rw [List.getElem?_tail]
      rfl

theorem drain {n : ℕ} (h : R.Working u) (hn : R.todo.length < n) :
    (R.drain n).Working u ∧ ∀ p ∈ (R.drain n).set.entries,
      (R.drain n).range.start < p.1 → (R.drain n).range.end < p.1 := by
  induction n generalizing R with
  | zero => omega
  | succ n ih =>
      obtain ⟨hhead, htail, hw, hdone⟩ := h.next
      rw [Replace.drain]
      cases hr : R.next with
      | mk o R' =>
          rw [hr] at hhead htail hw hdone
          cases o with
          | none => exact ⟨hw, hdone rfl⟩
          | some r =>
              refine ih hw ?_
              dsimp only at hhead htail ⊢
              have hpos : R.todo ≠ [] := fun h => by rw [h] at hhead; cases hhead
              have := List.length_pos_iff.mpr hpos
              rw [htail, List.length_tail]
              omega

/-- **The destructor** leaves the union. -/
theorem drop (h : R.Working u) : Canon R.drop ∧ ∀ y, Covers R.drop y ↔ u y := by
  obtain ⟨⟨hc, hne, hb, hu⟩, hafter⟩ := h.drain (n := R.left + 1) (Nat.lt_succ_of_le R.todo_length_le)
  have hkey : ∀ p ∈ (R.drain (R.left + 1)).set.entries, p.1 ≠ (R.drain (R.left + 1)).range.start := by
    intro p hp he
    have := hb p hp he.le
    have := hc.nonempty p hp
    omega
  refine ⟨hc.insert hne (fun p hp h => hb p hp h.le) hafter, fun y => ?_⟩
  rw [hu, Replace.drop, covers_insert hkey, Range.mem_iff]

end Working

end Replace

/-- The range is nonempty, or a run that begins at or before its start reaches it. -/
def Fits (m : OrdMap ℕ) (r : Range) : Prop :=
  r.start < r.end ∨ ∃ p, m.pred r.start = some p ∧ r.start ≤ p.2

section Constructor

variable {m : OrdMap ℕ} {r : Range}

/-- No run at or before the start of the range reaches it. -/
theorem replaceMap_apart (h : ∀ p, m.pred r.start = some p → p.2 < r.start) : replaceMap m r = ⟨m, none, r⟩ := by
  have hnone : (m.pred r.start).filter (fun p => p.2 ≥ r.start) = none :=
    Option.filter_eq_none_iff.mpr fun p hp => by simpa using h p hp
  unfold replaceMap
  rw [hnone]

/-- A run that begins at or before the start of the range reaches it. -/
theorem replaceMap_reached {s e : ℕ} (h : m.pred r.start = some (s, e)) (he : r.start ≤ e) : replaceMap m r =
    ⟨m.erase s, if r.start ≠ min r.end e then some ⟨r.start, min r.end e⟩ else none,
      ⟨min r.start s, max r.end e⟩⟩ := by
  have hsome : (m.pred r.start).filter (fun p => p.2 ≥ r.start) = some (s, e) := by
    rw [h, Option.filter_some, if_pos (by simpa using he)]
  unfold replaceMap
  rw [hsome]

/-- Either a run at or before the start of the range reaches it, or none does. -/
theorem reached_or_apart (m : OrdMap ℕ) (r : Range) : (∃ s e, m.pred r.start = some (s, e) ∧ r.start ≤ e) ∨
    ∀ p, m.pred r.start = some p → p.2 < r.start := by
  cases hp : m.pred r.start with
  | none => exact .inr fun p h => by cases h
  | some q =>
      by_cases hge : r.start ≤ q.2
      · exact .inl ⟨q.1, q.2, rfl, hge⟩
      · exact .inr fun p h => by cases h; omega

variable (hm : Canon m)
include hm

theorem replaceMap_working (hfit : Fits m r) :
    (replaceMap m r).Working fun y => Covers m y ∨ y ∈ r := by
  rcases reached_or_apart m r with ⟨s, e, hp, hge⟩ | hapart
  · obtain ⟨hq, hle, -⟩ := OrdMap.pred_eq_some hp
    have hqne : s < e := hm.nonempty _ hq
    dsimp only at hle
    rw [replaceMap_reached hp hge]
    refine ⟨hm.erase _, by simp only; omega, fun p hp h => ?_, covers_grow hm hq fun y => ?_⟩
    · obtain ⟨hp, hpne⟩ := OrdMap.mem_erase.mp hp
      have := hm.apart p hp _ hq (by simp only at h ⊢; omega)
      simp only at this ⊢
      omega
    · rw [Range.mem_iff, Range.mem_iff]
      simp only
      omega
  · have hne : r.start < r.end := hfit.resolve_right fun ⟨p, h, h'⟩ => absurd (hapart p h) (by omega)
    rw [replaceMap_apart hapart]
    exact ⟨hm, hne, before_of_pred hm hapart, fun y => Iff.rfl⟩

/-- What the iterator of a new value has to yield are the intersections. -/
theorem replaceMap_todo (hr : r.start < r.end) : (replaceMap m r).todo = overlaps m r := by
  rcases reached_or_apart m r with ⟨s, e, hp, hge⟩ | hapart
  swap
  · rw [replaceMap_apart hapart]
    rfl
  obtain ⟨hq, hle, -⟩ := OrdMap.pred_eq_some hp
  have hqne : s < e := hm.nonempty _ hq
  dsimp only at hle
  have hsplit : overlaps m r = (overlap r (s, e)).toList ++
      overlaps (m.erase s) ⟨min r.start s, max r.end e⟩ := by
    refine overlaps_erase hm hq (fun p hp h => ?_) hge (by simp only; omega) rfl
    have := hm.apart p hp _ hq h
    simp only at this ⊢
    omega
  have hfirst : (if r.start ≠ min r.end e then some (⟨r.start, min r.end e⟩ : Range) else none) =
      overlap r (s, e) := by
    unfold overlap
    rw [max_eq_left hle]
    exact if_congr (by simp only; omega) rfl rfl
  rw [replaceMap_reached hp hge, Replace.todo, hfirst, hsplit]

end Constructor

/-! ## Ranges that do not fit -/

/-- **A range that does not fit** is inserted as it is, which is to say as an empty run. -/
theorem drop_unfit {m : OrdMap ℕ} {r : Range} (h : ¬ Fits m r) (calls : ℕ) :
    ((replaceMap m r).consume calls).2.drop = m.insert r.start r.end := by
  obtain ⟨hempty, hreach⟩ := not_or.mp h
  have hapart : ∀ p, m.pred r.start = some p → p.2 < r.start := fun p hp => by
    by_contra hge
    exact hreach ⟨p, hp, by omega⟩
  rw [replaceMap_apart hapart]
  -- the iterator finds no run that starts after the range and touches it
  have hnext : Replace.next ⟨m, none, r⟩ = (none, ⟨m, none, r⟩) := by
    unfold Replace.next
    dsimp only
    cases hs : m.succ r.start with
    | none => rfl
    | some q =>
        have := (OrdMap.succ_eq_some hs).2.1
        exact if_pos (by omega)
  have hconsume : (Replace.consume calls ⟨m, none, r⟩).2 = ⟨m, none, r⟩ := by
    induction calls with
    | zero => rfl
    | succ calls ih =>
        rw [Replace.consume, hnext]
        exact ih
  rw [hconsume, Replace.drop, Replace.drain, hnext]

/-- The run `x..y` is there, and the runs before it end before it. -/
def Stuck (x y : ℕ) (m : OrdMap ℕ) : Prop := (x, y) ∈ m.entries ∧ ∀ p ∈ m.entries, p.1 < x → p.2 < x

/-- The range lies apart from `x`. -/
def Away (x : ℕ) (r : Range) : Prop := x < r.start ∨ r.start < x ∧ r.end < x

section Stuck

variable {x y : ℕ} {m : OrdMap ℕ}

theorem Stuck.erase {k : ℕ} (h : Stuck x y m) (hk : k ≠ x) : Stuck x y (m.erase k) :=
  ⟨OrdMap.mem_erase.mpr ⟨h.1, fun e => hk e.symm⟩, fun p hp => h.2 p (OrdMap.mem_erase.mp hp).1⟩

/-- A run that lies apart from a range that is being replaced stays where it is. -/
theorem Stuck.next {R : Replace} (h : Stuck x y R.set) (hr : Away x R.range) :
    Stuck x y R.next.2.set ∧ Away x R.next.2.range := by
  obtain ⟨set, pred, range⟩ := R
  cases pred with
  | some p => exact ⟨h, hr⟩
  | none =>
      unfold Replace.next
      dsimp only at h hr ⊢
      cases hs : set.succ range.start with
      | none => exact ⟨h, hr⟩
      | some q =>
          obtain ⟨nextStart, nextEnd⟩ := q
          obtain ⟨hq, hlt, -⟩ := OrdMap.succ_eq_some hs
          dsimp only at hlt ⊢
          by_cases hgt : nextStart > range.end
          · rw [if_pos hgt]
            exact ⟨h, hr⟩
          rw [if_neg hgt]
          rcases hr with hr | ⟨hr, hend⟩
          · exact ⟨h.erase (by omega), .inl hr⟩
          · have : nextEnd < x := h.2 _ hq (by simp only; omega)
            exact ⟨h.erase (by omega), .inr ⟨hr, by simp only; omega⟩⟩

theorem Stuck.drain {R : Replace} (n : ℕ) (h : Stuck x y R.set) (hr : Away x R.range) :
    Stuck x y (R.drain n).set ∧ Away x (R.drain n).range := by
  induction n generalizing R with
  | zero => exact ⟨h, hr⟩
  | succ n ih =>
      have hn := h.next hr
      rw [Replace.drain]
      cases hR : R.next with
      | mk o R' =>
          rw [hR] at hn
          cases o with
          | none => exact hn
          | some r => exact ih hn.1 hn.2

theorem Stuck.replaceMap {r : Range} (hyx : y ≤ x) (h : Stuck x y m) (hlt : r.start < r.end) (hr : Away x r) :
    (x, y) ∈ (replaceMap m r).drop.entries := by
  have hnew : Stuck x y (MzQuic.replaceMap m r).set ∧ Away x (MzQuic.replaceMap m r).range := by
    rcases reached_or_apart m r with ⟨s, e, hp, hge⟩ | hapart
    · obtain ⟨hq, hle, -⟩ := OrdMap.pred_eq_some hp
      dsimp only at hle
      rw [replaceMap_reached hp hge]
      rcases hr with hr | ⟨hr, hend⟩
      · have hx : x < s := by
          by_contra hs
          rcases lt_or_eq_of_le (Nat.not_lt.mp hs) with hs | hs
          · have := h.2 _ hq hs
            simp only at this
            omega
          · have := OrdMap.eq_of_key hq h.1 hs
            rw [Prod.mk.injEq] at this
            omega
        exact ⟨h.erase hx.ne', .inl (by simp only; omega)⟩
      · have : e < x := h.2 _ hq (by simp only; omega)
        exact ⟨h.erase (by omega), .inr ⟨by simp only; omega, by simp only; omega⟩⟩
    · rw [replaceMap_apart hapart]
      exact ⟨h, hr⟩
  obtain ⟨hs, ha⟩ := Stuck.drain ((MzQuic.replaceMap m r).left + 1) hnew.1 hnew.2
  refine OrdMap.mem_insert.mpr (.inr ⟨hs.1, ?_⟩)
  rcases ha with ha | ⟨ha, -⟩
  · exact ha.ne
  · exact ha.ne'

end Stuck

/-- What `replace` should do in a state, for all nonempty ranges of the integers of the program: the calls of
`next` yield the intersections in order, and once the value is dropped the set is the union. -/
structure ReplaceRight (m : OrdMap ℕ) : Prop where
  yields (r : Range) (hr : r.start < r.end) (hend : r.end < 2 ^ 64) (calls : ℕ) :
    ((replaceMap m r).consume calls).1 = (List.range calls).map fun i => (overlaps m r)[i]?
  canon (r : Range) (hr : r.start < r.end) (hend : r.end < 2 ^ 64) (calls : ℕ) :
    Canon ((replaceMap m r).consume calls).2.drop
  union (r : Range) (hr : r.start < r.end) (hend : r.end < 2 ^ 64) (calls : ℕ) (y : ℕ) :
    Covers ((replaceMap m r).consume calls).2.drop y ↔ Covers m y ∨ y ∈ r

theorem replaceRight_of_canon {m : OrdMap ℕ} (hm : Canon m) : ReplaceRight m := by
  have hw : ∀ r : Range, r.start < r.end → (replaceMap m r).Working fun y => Covers m y ∨ y ∈ r :=
    fun r hr => replaceMap_working hm (.inl hr)
  refine ⟨fun r hr _ calls => ?_, fun r hr _ calls => (((hw r hr).consume calls).2.drop).1,
    fun r hr _ calls => (((hw r hr).consume calls).2.drop).2⟩
  rw [((hw r hr).consume calls).1, replaceMap_todo hm hr]

/-- An empty run that the runs before it do not touch spoils the next call. -/
theorem not_replaceRight {m : OrdMap ℕ} {x y : ℕ} (hyx : y ≤ x) (h : Stuck x y m) : ¬ ReplaceRight m := by
  intro hright
  obtain ⟨r, hr, hend, haway⟩ : ∃ r : Range, r.start < r.end ∧ r.end < 2 ^ 64 ∧ Away x r := by
    by_cases hx : x < 2
    · exact ⟨⟨x + 1, x + 2⟩, by simp only; omega, by simp only; omega, .inl (by simp only; omega)⟩
    · exact ⟨⟨0, 1⟩, by simp only; omega, by simp only; omega, .inr ⟨by simp only; omega, by simp only; omega⟩⟩
  have := (hright.canon r hr hend 0).nonempty _ (h.replaceMap hyx hr haway)
  simp only at this
  omega

/-! ## Runs of calls -/

/-- A call that changes a set. `replace` is followed by calls of `next` on its value, which is then dropped. -/
inductive SetCall
  | insert (x : Range)
  | insertOne (x : ℕ)
  | remove (x : Range)
  | replace (range : Range) (calls : ℕ)
  | add (other : OrdMap ℕ)
  | subtract (other : OrdMap ℕ)
  | popMin

namespace SetCall

/-- The set after a call. -/
def apply (m : OrdMap ℕ) : SetCall → OrdMap ℕ
  | insert x => (RangeSet.insertMap m x).2
  | insertOne x => (RangeSet.insertOneMap m x).2
  | remove x => (RangeSet.removeMap m x).2
  | replace range calls => ((replaceMap m range).consume calls).2.drop
  | add other => other.entries.foldl (fun m p => (RangeSet.insertMap m ⟨p.1, p.2⟩).2) m
  | subtract other => other.entries.foldl (fun m p => (RangeSet.removeMap m ⟨p.1, p.2⟩).2) m
  | popMin =>
    match m.entries.head? with
    | some (start, _) => m.erase start
    | none => m

/-- A call, with the check of `x + 1`, which `insert_one` computes unless `x` is there. -/
def step (m : OrdMap ℕ) : SetCall → Checked (OrdMap ℕ)
  | insertOne x =>
    if (RangeSet.insertOneMap m x).1 then Checked.add 64 x 1 >>= fun _ => .ok ((insertOne x).apply m) else .ok m
  | call => .ok (call.apply m)

/-- The range of `replace` is nonempty, or a run that begins at or before its start reaches it. -/
def Fits (m : OrdMap ℕ) : SetCall → Prop
  | replace range _ => MzQuic.Fits m range
  | _ => True

variable {m m' : OrdMap ℕ} {call : SetCall}

theorem step_eq_ok (h : call.step m = .ok m') : m' = call.apply m := by
  cases call with
  | insertOne x =>
      rw [step] at h
      split_ifs at h with hx
      · obtain ⟨_, _, h⟩ := Checked.bind_eq_ok.mp h
        exact (Except.ok.inj h).symm
      · -- nothing changes if `x` is there
        rw [← Except.ok.inj h, apply]
        unfold RangeSet.insertOneMap at hx ⊢
        split at hx
        · split_ifs at hx ⊢ <;> first | rfl | exact absurd rfl hx
        · exact absurd rfl hx
  | _ => exact (Except.ok.inj h).symm

theorem apply_canon (hm : Canon m) (h : call.Fits m) : Canon (call.apply m) := by
  cases call with
  | insert x => exact (RangeSet.insertMap_spec hm x).1
  | insertOne x =>
      rw [apply, RangeSet.insertOneMap_eq hm]
      exact (RangeSet.insertMap_spec hm _).1
  | remove x => exact (RangeSet.removeMap_spec hm x).1
  | replace range calls => exact (((replaceMap_working hm h).consume calls).2.drop).1
  | add other => exact List.foldlRecOn other.entries _ hm fun m hm p _ => (RangeSet.insertMap_spec hm _).1
  | subtract other => exact List.foldlRecOn other.entries _ hm fun m hm p _ => (RangeSet.removeMap_spec hm _).1
  | popMin =>
      rw [apply]
      split
      · exact hm.erase _
      · exact hm

/-- **The state after a call is right if and only if the call fits.** -/
theorem replaceRight_apply_iff (hm : Canon m) : ReplaceRight (call.apply m) ↔ call.Fits m := by
  refine ⟨fun hright => ?_, fun h => replaceRight_of_canon (apply_canon hm h)⟩
  cases call with
  | replace range calls =>
      by_contra hfit
      obtain ⟨hempty, hreach⟩ := not_or.mp hfit
      rw [apply, drop_unfit hfit] at hright
      refine not_replaceRight (by omega) ⟨OrdMap.mem_insert.mpr (.inl rfl), fun p hp hlt => ?_⟩ hright
      rcases OrdMap.mem_insert.mp hp with rfl | ⟨hp, -⟩
      · exact absurd hlt (lt_irrefl _)
      · refine before_of_pred hm (fun q hq => ?_) p hp hlt.le
        by_contra hge
        exact hreach ⟨q, hq, by omega⟩
  | _ => trivial

theorem replaceRight_step_iff (hm : Canon m) :
    (∀ m', call.step m = .ok m' → ReplaceRight m') ↔ call.Fits m := by
  refine ⟨fun h => ?_, fun h m' hs => ?_⟩
  · cases call with
    | replace range calls => exact (replaceRight_apply_iff hm).mp (h _ rfl)
    | _ => trivial
  · rw [step_eq_ok hs]
    exact (replaceRight_apply_iff hm).mpr h

end SetCall

/-- **`replace` returns the overlap and performs the union** in every state that a run of calls reaches, if
and only if every range given to `replace` in the run is nonempty or is reached by the run before it. -/
theorem replace_right_iff (calls : List SetCall) :
    (∀ before after m, calls = before ++ after → run SetCall.step ∅ before = .ok m → ReplaceRight m) ↔
      Meets SetCall.step (fun m call => call.Fits m) ∅ calls := by
  have hkeep : ∀ (m : OrdMap ℕ) (call : SetCall) m', Canon m → call.Fits m → call.step m = .ok m' → Canon m' := by
    intro m call m' hm h hs
    rw [SetCall.step_eq_ok hs]
    exact SetCall.apply_canon hm h
  have hrun : Meets SetCall.step (fun m call => ∀ m', call.step m = .ok m' → ReplaceRight m') ∅ calls ↔
      Meets SetCall.step (fun m call => call.Fits m) ∅ calls :=
    Meets.congr_inv (I := Canon) (fun _ _ hm => SetCall.replaceRight_step_iff hm) hkeep Canon.empty
  exact forall_reached_iff.trans ((and_iff_right (replaceRight_of_canon Canon.empty)).trans hrun)

/-- After an empty range has been inserted next to nothing, the empty run hides the run `6..7` from the next
`replace`, and dropping the value leaves `3..9` beside `6..7`. -/
theorem replace_empty_hides : ∃ m,
    run SetCall.step ∅ [.insert ⟨6, 7⟩, .replace ⟨5, 5⟩ 0] = .ok m ∧
      overlaps m ⟨3, 9⟩ = [⟨6, 7⟩] ∧ ((replaceMap m ⟨3, 9⟩).consume 1).1 = [none] ∧
      (replaceMap m ⟨3, 9⟩).drop.entries = [(3, 9), (6, 7)] ∧ ¬ ReplaceRight m := by
  refine ⟨⟨[(5, 5), (6, 7)], by simp⟩, by decide, by decide, by decide, by decide, fun h => ?_⟩
  have := h.yields ⟨3, 9⟩ (by decide) (by decide) 1
  exact absurd this (by decide)

end MzQuic
