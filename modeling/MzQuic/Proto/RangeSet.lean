import MzQuic.Lib.Range

/-!
# Range sets over a tree map (`proto/src/range_set/btree_range_set.rs`)

A set of numbers kept as a map from the start of each run to its end. That the runs are nonempty
and do not touch is a field of the structure, so each operation is written first on the map
(`insertMap`, `removeMap`), shown to keep `Canon`, and then bundled.

* `contains`, `insert`, `insertOne`, `remove`, `subtract`, `min`, `max`, `peekMin`, `popMin`;
* `insertMap_changed`, `removeMap_changed`: whether the set has changed; `insertOneMap_eq`;
* **`mem_insert`**, **`mem_remove`**, `contains_iff`: union, difference and membership.
-/

namespace MzQuic

open Lib

/-- `RangeSet(BTreeMap<u64, u64>)`. -/
structure RangeSet where
  map : OrdMap ℕ
  canon : Canon map

namespace RangeSet

/-- The `while let` of `insert`: swallow the runs that start in the growing range. The fuel is the
number of runs, one of which goes away in each round. -/
def absorbLoop : ℕ → OrdMap ℕ → ℕ → ℕ → OrdMap ℕ × ℕ
  | 0, m, _, e => (m, e)
  | n + 1, m, s, e =>
    match m.succ s with
    | none => (m, e)
    | some (nextStart, nextEnd) =>
      if nextStart > e then (m, e) else absorbLoop n (m.erase nextStart) s (max nextEnd e)

/-- The part of `insert` after the predecessor has been dealt with. -/
def absorb (m : OrdMap ℕ) (x : Range) : OrdMap ℕ :=
  let r := absorbLoop m.entries.length m x.start x.end
  r.1.insert x.start r.2

/-- `insert` on the map: whether the set changed, and the new map. -/
def insertMap (m : OrdMap ℕ) (x : Range) : Bool × OrdMap ℕ :=
  if x.isEmpty then (false, m)
  else
    match m.pred x.start with
    | some (start, stop) =>
      if stop ≥ x.end then (false, m)
      else if stop ≥ x.start then (true, absorb (m.erase start) ⟨start, x.end⟩)
      else (true, absorb m x)
    | none => (true, absorb m x)

/-- The successor in `insert_one`: a run that starts right after `x` is swallowed. -/
def mergeSucc (m : OrdMap ℕ) (x : ℕ) : OrdMap ℕ × ℕ :=
  match m.succ x with
  | none => (m, x + 1)
  | some (nextStart, nextEnd) => if nextStart = x + 1 then (m.erase nextStart, nextEnd) else (m, x + 1)

/-- `insert_one` on the map: whether the set changed, and the new map. -/
def insertOneMap (m : OrdMap ℕ) (x : ℕ) : Bool × OrdMap ℕ :=
  match m.pred x with
  | some (start, stop) =>
    if stop > x then (false, m)
    else if stop = x then
      let r := mergeSucc (m.erase start) x
      (true, r.1.insert start r.2)
    else
      let r := mergeSucc m x
      (true, r.1.insert x r.2)
  | none =>
    let r := mergeSucc m x
    (true, r.1.insert x r.2)

/-- The `while let` of `remove`: drop the runs that start in the range, keeping what sticks out. -/
def cutLoop : ℕ → OrdMap ℕ → Range → Bool → Bool × OrdMap ℕ
  | 0, m, _, after => (after, m)
  | n + 1, m, x, after =>
    match m.succ x.start with
    | none => (after, m)
    | some (start, stop) =>
      if start ≥ x.end then (after, m)
      else if stop > x.end then (true, (m.erase start).insert x.end stop)
      else cutLoop n (m.erase start) x true

/-- The run `start..stop`, which begins at or before `x` and reaches into it, cut in `remove`. -/
def cutPred (m : OrdMap ℕ) (x : Range) (start stop : ℕ) : OrdMap ℕ :=
  let m := m.erase start
  let m := if start < x.start then m.insert start x.start else m
  if stop > x.end then m.insert x.end stop else m

/-- `remove` on the map: whether the set changed, and the new map. -/
def removeMap (m : OrdMap ℕ) (x : Range) : Bool × OrdMap ℕ :=
  if x.isEmpty then (false, m)
  else
    match m.pred x.start with
    | some (start, stop) =>
      if stop > x.start then
        let m' := cutPred m x start stop
        if stop ≥ x.end then (true, m')
        else
          let r := cutLoop m'.entries.length m' x false
          (true, r.2)
      else cutLoop m.entries.length m x false
    | none => cutLoop m.entries.length m x false

/-! ## What the loops compute -/

section Loops

variable {m : OrdMap ℕ} {s e : ℕ}

theorem absorbLoop_spec (n : ℕ) (hn : m.entries.length ≤ n) (hm : Canon m) (hse : s < e)
    (hl : ∀ p ∈ m.entries, p.1 ≤ s → p.2 < s) :
    let r := absorbLoop n m s e
    Canon r.1 ∧ e ≤ r.2 ∧ (∀ p ∈ r.1.entries, p.1 ≤ s → p.2 < s) ∧
      (∀ p ∈ r.1.entries, s < p.1 → r.2 < p.1) ∧
      ∀ y, Covers r.1 y ∨ (s ≤ y ∧ y < r.2) ↔ Covers m y ∨ (s ≤ y ∧ y < e) := by
  induction n generalizing m e with
  | zero =>
      have h0 : m.entries = [] := List.eq_nil_of_length_eq_zero (Nat.le_zero.mp hn)
      refine ⟨hm, le_rfl, hl, fun p hp => ?_, fun y => Iff.rfl⟩
      simp only [absorbLoop, h0] at hp
      cases hp
  | succ n ih =>
      simp only [absorbLoop]
      cases hs : m.succ s with
      | none =>
          refine ⟨hm, le_rfl, hl, fun p hp h => ?_, fun y => Iff.rfl⟩
          have := OrdMap.succ_eq_none.mp hs p hp
          omega
      | some q =>
          obtain ⟨ns, ne⟩ := q
          obtain ⟨hq, hlt, hmin⟩ := OrdMap.succ_eq_some hs
          simp only at hlt hmin ⊢
          by_cases hgt : ns > e
          · rw [if_pos hgt]
            refine ⟨hm, le_rfl, hl, fun p hp h => ?_, fun y => Iff.rfl⟩
            have := hmin p hp h
            simp only
            omega
          · rw [if_neg hgt]
            have hne := hm.nonempty _ hq
            simp only at hne
            have hlen := OrdMap.length_erase_lt hq
            obtain ⟨h1, h2, h3, h4, h5⟩ := ih (m := m.erase ns) (e := max ne e)
              (by simp only at hlen; omega) (hm.erase ns) (by omega)
              (fun p hp => hl p (OrdMap.mem_erase.mp hp).1)
            refine ⟨h1, by omega, h3, h4, fun y => ?_⟩
            rw [h5, covers_erase hm hq]
            have hc : ns ≤ y ∧ y < ne → Covers m y := fun h => ⟨_, hq, h⟩
            by_cases hy : ns ≤ y ∧ y < ne
            · have := hc hy
              constructor
              · exact fun _ => .inl this
              · exact fun _ => .inr (by omega)
            · constructor
              · rintro (h | h)
                · exact .inl h.1
                · exact .inr (by omega)
              · rintro (h | h)
                · exact .inl ⟨h, hy⟩
                · exact .inr (by omega)

theorem absorb_spec {x : Range} (hm : Canon m) (hx : x.start < x.end)
    (hl : ∀ p ∈ m.entries, p.1 ≤ x.start → p.2 < x.start) :
    Canon (absorb m x) ∧ ∀ y, Covers (absorb m x) y ↔ Covers m y ∨ y ∈ x := by
  obtain ⟨h1, h2, h3, h4, h5⟩ := absorbLoop_spec m.entries.length le_rfl hm hx hl
  have hne : ∀ p ∈ (absorbLoop m.entries.length m x.start x.end).1.entries, p.1 ≠ x.start := by
    intro p hp he
    have := h3 p hp (le_of_eq he)
    have := h1.nonempty p hp
    omega
  refine ⟨h1.insert (by omega) (fun p hp h => h3 p hp (le_of_lt h)) h4, fun y => ?_⟩
  rw [absorb, covers_insert hne, h5, Range.mem_iff]

theorem cutLoop_spec (n : ℕ) {x : Range} (after : Bool) (hn : m.entries.length ≤ n) (hm : Canon m)
    (hx : x.start < x.end) (hl : ∀ p ∈ m.entries, p.1 ≤ x.start → p.2 ≤ x.start) :
    let r := cutLoop n m x after
    Canon r.2 ∧ ∀ y, Covers r.2 y ↔ Covers m y ∧ y ∉ x := by
  -- runs at or before `x.start` end before `x`, and runs from `x.end` on lie after it
  have hout : ∀ {m : OrdMap ℕ}, (∀ p ∈ m.entries, p.1 ≤ x.start → p.2 ≤ x.start) →
      (∀ p ∈ m.entries, x.start < p.1 → x.end ≤ p.1) → ∀ y, Covers m y ↔ Covers m y ∧ y ∉ x := by
    intro m hl hr y
    refine ⟨fun h => ⟨h, ?_⟩, fun h => h.1⟩
    obtain ⟨p, hp, h1, h2⟩ := h
    rw [Range.mem_iff]
    by_cases h : p.1 ≤ x.start
    · have := hl p hp h; omega
    · have := hr p hp (by omega); omega
  induction n generalizing m after with
  | zero =>
      have h0 : m.entries = [] := List.eq_nil_of_length_eq_zero (Nat.le_zero.mp hn)
      refine ⟨hm, hout hl fun p hp => ?_⟩
      simp only [cutLoop, h0] at hp
      cases hp
  | succ n ih =>
      simp only [cutLoop]
      cases hs : m.succ x.start with
      | none =>
          refine ⟨hm, hout hl fun p hp h => ?_⟩
          have := OrdMap.succ_eq_none.mp hs p hp
          omega
      | some q =>
          obtain ⟨start, stop⟩ := q
          obtain ⟨hq, hlt, hmin⟩ := OrdMap.succ_eq_some hs
          simp only at hlt hmin ⊢
          have hne := hm.nonempty _ hq
          simp only at hne
          have hcov := fun y => covers_erase (x := y) hm hq
          by_cases hge : start ≥ x.end
          · rw [if_pos hge]
            refine ⟨hm, hout hl fun p hp h => ?_⟩
            have := hmin p hp h
            omega
          rw [if_neg hge]
          by_cases hgt : stop > x.end
          · rw [if_pos hgt]
            have hr : ∀ p ∈ (m.erase start).entries, x.start < p.1 → stop < p.1 := by
              intro p hp h
              obtain ⟨hp, hne'⟩ := OrdMap.mem_erase.mp hp
              have h1 := hmin p hp h
              exact hm.apart _ hq p hp (by simp only; omega)
            have hl' : ∀ p ∈ (m.erase start).entries, p.1 ≤ x.start → p.2 ≤ x.start :=
              fun p hp => hl p (OrdMap.mem_erase.mp hp).1
            refine ⟨(hm.erase start).insert hgt (fun p hp h => ?_) (fun p hp h => ?_), fun y => ?_⟩
            · by_cases h' : p.1 ≤ x.start
              · have := hl' p hp h'; omega
              · have := hr p hp (by omega); omega
            · exact hr p hp (by omega)
            · rw [covers_insert, hcov, Range.mem_iff]
              · constructor
                · rintro (⟨h1, h2⟩ | h)
                  · refine ⟨h1, fun h3 => ?_⟩
                    obtain ⟨p, hp, h4, h5⟩ := (hcov y).mpr ⟨h1, h2⟩
                    by_cases h' : p.1 ≤ x.start
                    · have := hl' p hp h'; omega
                    · have := hr p hp (by omega); omega
                  · exact ⟨⟨_, hq, by simp only; omega⟩, by omega⟩
                · rintro ⟨h1, h2⟩
                  by_cases h3 : start ≤ y ∧ y < stop
                  · exact .inr (by omega)
                  · exact .inl ⟨h1, h3⟩
              · intro p hp he
                by_cases h' : p.1 ≤ x.start
                · omega
                · have := hr p hp (by omega); omega
          · rw [if_neg hgt]
            have hlen := OrdMap.length_erase_lt hq
            obtain ⟨h1, h2⟩ := ih (m := m.erase start) true (by simp only at hlen; omega)
              (hm.erase start) (fun p hp => hl p (OrdMap.mem_erase.mp hp).1)
            refine ⟨h1, fun y => ?_⟩
            rw [h2, hcov, Range.mem_iff]
            constructor
            · exact fun h => ⟨h.1.1, h.2⟩
            · exact fun h => ⟨⟨h.1, by omega⟩, h.2⟩

end Loops

/-! ## The two operations -/

theorem insertMap_spec {m : OrdMap ℕ} (hm : Canon m) (x : Range) :
    Canon (insertMap m x).2 ∧ ∀ y, Covers (insertMap m x).2 y ↔ Covers m y ∨ y ∈ x := by
  unfold insertMap
  by_cases hx : x.isEmpty = true
  · rw [if_pos hx]
    refine ⟨hm, fun y => ⟨.inl, fun h => h.elim id fun h => ?_⟩⟩
    have := Range.isEmpty_iff.mp hx
    have := Range.mem_iff.mp h
    omega
  rw [if_neg hx]
  have hx' : x.start < x.end := by rw [Range.isEmpty_iff] at hx; omega
  cases hp : m.pred x.start with
  | none =>
      exact absorb_spec hm hx' fun p h h' => by
        have := OrdMap.pred_eq_none.mp hp p h
        omega
  | some q =>
      obtain ⟨start, stop⟩ := q
      obtain ⟨hq, hle, hmax⟩ := OrdMap.pred_eq_some hp
      simp only at hle hmax ⊢
      have hne := hm.nonempty _ hq
      simp only at hne
      -- every other run at or before `x.start` ends before `start`
      have hbefore : ∀ p ∈ m.entries, p.1 ≤ x.start → p.1 ≠ start → p.2 < start := by
        intro p h h1 h2
        have := hmax p h h1
        exact hm.apart p h _ hq (by simp only; omega)
      by_cases h1 : stop ≥ x.end
      · rw [if_pos h1]
        refine ⟨hm, fun y => ⟨.inl, fun h => h.elim id fun h => ⟨_, hq, ?_⟩⟩⟩
        have := Range.mem_iff.mp h
        simp only
        omega
      rw [if_neg h1]
      by_cases h2 : stop ≥ x.start
      · rw [if_pos h2]
        have hs := absorb_spec (x := ⟨start, x.end⟩) (hm.erase start) (by simp only; omega)
          (fun p hp' h => by
            obtain ⟨hp', hne'⟩ := OrdMap.mem_erase.mp hp'
            exact hbefore p hp' (by simp only at h; omega) hne')
        refine ⟨hs.1, fun y => ?_⟩
        rw [hs.2, covers_erase hm hq, Range.mem_iff, Range.mem_iff]
        have hc : start ≤ y ∧ y < stop → Covers m y := fun h => ⟨_, hq, h⟩
        by_cases hy : start ≤ y ∧ y < stop
        · have := hc hy
          exact ⟨fun _ => .inl this, fun _ => .inr (by simp only; omega)⟩
        · constructor
          · rintro (h | h)
            · exact .inl h.1
            · exact .inr (by simp only at h; omega)
          · rintro (h | h)
            · exact .inl ⟨h, hy⟩
            · exact .inr (by simp only; omega)
      · rw [if_neg h2]
        exact absorb_spec hm hx' fun p h h' => by
          by_cases he : p.1 = start
          · have : p = (start, stop) := OrdMap.eq_of_key h hq he
            subst this
            simp only
            omega
          · have := hbefore p h h' he
            omega

theorem cutPred_spec {m : OrdMap ℕ} (hm : Canon m) {x : Range} {start stop : ℕ}
    (hx : x.start < x.end) (hq : (start, stop) ∈ m.entries) (hle : start ≤ x.start)
    (hlt : x.start < stop) (hmax : ∀ p ∈ m.entries, p.1 ≤ x.start → p.1 ≤ start) :
    Canon (cutPred m x start stop) ∧
      (∀ p ∈ (cutPred m x start stop).entries, p.1 ≤ x.start → p.2 ≤ x.start) ∧
      (stop ≥ x.end → ∀ p ∈ (cutPred m x start stop).entries, x.start < p.1 → x.end ≤ p.1) ∧
      ∀ y, Covers (cutPred m x start stop) y ↔
        Covers m y ∧ ¬ (x.start ≤ y ∧ y < min stop x.end) := by
  have hcov := fun y => covers_erase (x := y) hm hq
  have hleft : ∀ p ∈ (m.erase start).entries, p.1 ≤ x.start → p.2 < start := by
    intro p hp h
    obtain ⟨hp, hne⟩ := OrdMap.mem_erase.mp hp
    have := hmax p hp h
    exact hm.apart p hp _ hq (by simp only; omega)
  have hright : ∀ p ∈ (m.erase start).entries, x.start < p.1 → stop < p.1 := by
    intro p hp h
    exact hm.apart _ hq p (OrdMap.mem_erase.mp hp).1 (by simp only; omega)
  -- the left remainder
  set m₁ := if start < x.start then (m.erase start).insert start x.start else m.erase start with hm₁
  have h₁ : Canon m₁ ∧ (∀ p ∈ m₁.entries, p.1 ≤ x.start → p.2 ≤ x.start) ∧
      (∀ p ∈ m₁.entries, x.start < p.1 → stop < p.1) ∧
      ∀ y, Covers m₁ y ↔ Covers m y ∧ ¬ (x.start ≤ y ∧ y < stop) := by
    rw [hm₁]
    by_cases hs : start < x.start
    · rw [if_pos hs]
      refine ⟨(hm.erase start).insert hs (fun p hp h => hleft p hp (by omega)) (fun p hp h => ?_),
        fun p hp h => ?_, fun p hp h => ?_, fun y => ?_⟩
      · by_cases h' : p.1 ≤ x.start
        · have := hleft p hp h'
          have := (hm.erase start).nonempty p hp
          omega
        · omega
      · rcases OrdMap.mem_insert.mp hp with rfl | ⟨hp, _⟩
        · exact le_rfl
        · have := hleft p hp h; omega
      · rcases OrdMap.mem_insert.mp hp with rfl | ⟨hp, _⟩
        · simp only at h; omega
        · exact hright p hp h
      · rw [covers_insert fun p hp => (OrdMap.mem_erase.mp hp).2, hcov]
        constructor
        · rintro (h | h)
          · exact ⟨h.1, by omega⟩
          · exact ⟨⟨_, hq, by simp only; omega⟩, by omega⟩
        · rintro ⟨h1, h2⟩
          by_cases h3 : start ≤ y ∧ y < stop
          · exact .inr (by omega)
          · exact .inl ⟨h1, h3⟩
    · rw [if_neg hs]
      have : start = x.start := by omega
      subst this
      exact ⟨hm.erase _, fun p hp h => by have := hleft p hp h; omega, hright, hcov⟩
  obtain ⟨hc₁, hl₁, hr₁, hv₁⟩ := h₁
  unfold cutPred
  simp only [← hm₁]
  by_cases he : stop > x.end
  · rw [if_pos he]
    have hne : ∀ p ∈ m₁.entries, p.1 ≠ x.end := by
      intro p hp h
      by_cases h' : p.1 ≤ x.start
      · omega
      · have := hr₁ p hp (by omega); omega
    refine ⟨hc₁.insert he (fun p hp h => ?_) (fun p hp h => hr₁ p hp (by omega)),
      fun p hp h => ?_, fun _ p hp h => ?_, fun y => ?_⟩
    · by_cases h' : p.1 ≤ x.start
      · have := hl₁ p hp h'; omega
      · have := hr₁ p hp (by omega); omega
    · rcases OrdMap.mem_insert.mp hp with rfl | ⟨hp, _⟩
      · simp only at h; omega
      · exact hl₁ p hp h
    · rcases OrdMap.mem_insert.mp hp with rfl | ⟨hp, _⟩
      · exact le_rfl
      · have := hr₁ p hp h; omega
    · rw [covers_insert hne, hv₁]
      have : min stop x.end = x.end := by omega
      rw [this]
      constructor
      · rintro (h | h)
        · exact ⟨h.1, by omega⟩
        · exact ⟨⟨_, hq, by simp only; omega⟩, by omega⟩
      · rintro ⟨h1, h2⟩
        by_cases h3 : x.start ≤ y ∧ y < stop
        · exact .inr (by omega)
        · exact .inl ⟨h1, h3⟩
  · rw [if_neg he]
    refine ⟨hc₁, hl₁, fun _ p hp h => ?_, fun y => ?_⟩
    · have := hr₁ p hp h; omega
    · rw [hv₁, show min stop x.end = stop by omega]

theorem removeMap_spec {m : OrdMap ℕ} (hm : Canon m) (x : Range) :
    Canon (removeMap m x).2 ∧ ∀ y, Covers (removeMap m x).2 y ↔ Covers m y ∧ y ∉ x := by
  unfold removeMap
  by_cases hx : x.isEmpty = true
  · rw [if_pos hx]
    refine ⟨hm, fun y => ⟨fun h => ⟨h, fun h' => ?_⟩, fun h => h.1⟩⟩
    have := Range.isEmpty_iff.mp hx
    have := Range.mem_iff.mp h'
    omega
  rw [if_neg hx]
  have hx' : x.start < x.end := by rw [Range.isEmpty_iff] at hx; omega
  cases hp : m.pred x.start with
  | none =>
      exact cutLoop_spec _ false le_rfl hm hx' fun p h h' => by
        have := OrdMap.pred_eq_none.mp hp p h
        omega
  | some q =>
      obtain ⟨start, stop⟩ := q
      obtain ⟨hq, hle, hmax⟩ := OrdMap.pred_eq_some hp
      simp only at hle hmax ⊢
      by_cases h1 : stop > x.start
      · rw [if_pos h1]
        obtain ⟨hc, hl, hr, hv⟩ := cutPred_spec hm hx' hq hle h1 hmax
        by_cases h2 : stop ≥ x.end
        · rw [if_pos h2]
          refine ⟨hc, fun y => ?_⟩
          rw [hv, show min stop x.end = x.end by omega, Range.mem_iff]
        · rw [if_neg h2]
          obtain ⟨h3, h4⟩ := cutLoop_spec _ false le_rfl hc hx' hl
          refine ⟨h3, fun y => ?_⟩
          rw [h4, hv, Range.mem_iff]
          constructor
          · exact fun h => ⟨h.1.1, h.2⟩
          · exact fun h => ⟨⟨h.1, by omega⟩, h.2⟩
      · rw [if_neg h1]
        refine cutLoop_spec _ false le_rfl hm hx' fun p h h' => ?_
        by_cases he : p.1 = start
        · have : p = (start, stop) := OrdMap.eq_of_key h hq he
          subst this
          simp only
          omega
        · have := hmax p h h'
          have := hm.apart p h _ hq (by simp only; omega)
          simp only at this
          omega

/-! ## What is returned -/

section Changed

variable {m : OrdMap ℕ} (hm : Canon m)
include hm

/-- Nothing between the end of a run and the next run is covered. -/
theorem not_covers_stop {start stop : ℕ} (h : (start, stop) ∈ m.entries) : ¬ Covers m stop := by
  rintro ⟨p, hp, h1, h2⟩
  rcases Nat.lt_trichotomy p.1 start with hlt | he | hlt
  · have := hm.apart p hp _ h hlt
    have := hm.nonempty _ h
    simp only at *
    omega
  · have : p = (start, stop) := OrdMap.eq_of_key hp h he
    subst this
    exact absurd h2 (lt_irrefl _)
  · have := hm.apart _ h p hp hlt
    simp only at this
    omega

/-- What the last run at or before `x` does not hold, no run does. -/
theorem covers_of_pred {x start stop : ℕ} (h : m.pred x = some (start, stop)) : Covers m x ↔ x < stop := by
  obtain ⟨hq, hle, hmax⟩ := OrdMap.pred_eq_some h
  refine ⟨?_, fun h => ⟨_, hq, hle, h⟩⟩
  rintro ⟨p, hp, h1, h2⟩
  rcases lt_or_eq_of_le (hmax p hp h1) with hlt | he
  · have := hm.apart p hp _ hq hlt
    simp only at *
    omega
  · have : p = (start, stop) := OrdMap.eq_of_key hp hq he
    subst this
    exact h2

/-- **`insert` tells whether the range holds anything new.** -/
theorem insertMap_changed (x : Range) : (insertMap m x).1 = true ↔ ∃ y, y ∈ x ∧ ¬ Covers m y := by
  unfold insertMap
  by_cases hx : x.isEmpty = true
  · rw [if_pos hx]
    refine iff_of_false Bool.false_ne_true ?_
    rintro ⟨y, ⟨h1, h2⟩, -⟩
    have := Range.isEmpty_iff.mp hx
    omega
  rw [if_neg hx]
  have hx' : x.start < x.end := by rw [Range.isEmpty_iff] at hx; omega
  cases hp : m.pred x.start with
  | none =>
      refine iff_of_true rfl ⟨x.start, ⟨le_rfl, hx'⟩, ?_⟩
      rintro ⟨p, h, h1, -⟩
      have := OrdMap.pred_eq_none.mp hp p h
      omega
  | some q =>
      obtain ⟨start, stop⟩ := q
      obtain ⟨hq, hle, -⟩ := OrdMap.pred_eq_some hp
      simp only at hle ⊢
      by_cases h1 : stop ≥ x.end
      · rw [if_pos h1]
        refine iff_of_false Bool.false_ne_true ?_
        rintro ⟨y, ⟨hy1, hy2⟩, hy⟩
        exact hy ⟨_, hq, by simp only; omega, by simp only; omega⟩
      rw [if_neg h1]
      by_cases h2 : stop ≥ x.start
      · rw [if_pos h2]
        exact iff_of_true rfl ⟨stop, ⟨h2, by omega⟩, not_covers_stop hm hq⟩
      · rw [if_neg h2]
        refine iff_of_true rfl ⟨x.start, ⟨le_rfl, hx'⟩, ?_⟩
        rw [covers_of_pred hm hp]
        omega

omit hm in
theorem cutLoop_changed (n : ℕ) {x : Range} (after : Bool) (hn : m.entries.length ≤ n) :
    (cutLoop n m x after).1 = true ↔ after = true ∨ ∃ p ∈ m.entries, x.start < p.1 ∧ p.1 < x.end := by
  induction n generalizing m after with
  | zero =>
      have h0 : m.entries = [] := List.eq_nil_of_length_eq_zero (Nat.le_zero.mp hn)
      simp [cutLoop, h0]
  | succ n ih =>
      simp only [cutLoop]
      cases hs : m.succ x.start with
      | none =>
          refine ⟨.inl, fun h => h.elim id ?_⟩
          rintro ⟨p, hp, h1, -⟩
          have := OrdMap.succ_eq_none.mp hs p hp
          omega
      | some q =>
          obtain ⟨start, stop⟩ := q
          obtain ⟨hq, hlt, hmin⟩ := OrdMap.succ_eq_some hs
          simp only at hlt hmin ⊢
          by_cases hge : start ≥ x.end
          · rw [if_pos hge]
            refine ⟨.inl, fun h => h.elim id ?_⟩
            rintro ⟨p, hp, h1, h2⟩
            have := hmin p hp h1
            omega
          rw [if_neg hge]
          have hany : ∃ p ∈ m.entries, x.start < p.1 ∧ p.1 < x.end := ⟨_, hq, hlt, by simp only; omega⟩
          refine iff_of_true ?_ (.inr hany)
          by_cases hgt : stop > x.end
          · rw [if_pos hgt]
          · rw [if_neg hgt]
            have hlen := OrdMap.length_erase_lt hq
            exact (ih true (by simp only at hlen; omega)).mpr (.inl rfl)

/-- **`remove` tells whether the set held anything of the range.** -/
theorem removeMap_changed (x : Range) : (removeMap m x).1 = true ↔ ∃ y, y ∈ x ∧ Covers m y := by
  unfold removeMap
  by_cases hx : x.isEmpty = true
  · rw [if_pos hx]
    refine iff_of_false Bool.false_ne_true ?_
    rintro ⟨y, ⟨h1, h2⟩, -⟩
    have := Range.isEmpty_iff.mp hx
    omega
  rw [if_neg hx]
  have hx' : x.start < x.end := by rw [Range.isEmpty_iff] at hx; omega
  -- if nothing covers the start, what covers a number of the range starts inside it
  have hcut : ¬ Covers m x.start →
      ((cutLoop m.entries.length m x false).1 = true ↔ ∃ y, y ∈ x ∧ Covers m y) := by
    intro hn
    rw [cutLoop_changed _ _ le_rfl]
    constructor
    · rintro (h | ⟨p, hp, h1, h2⟩)
      · cases h
      · exact ⟨p.1, ⟨by omega, h2⟩, p, hp, le_rfl, hm.nonempty p hp⟩
    · rintro ⟨y, ⟨hy1, hy2⟩, p, hp, h1, h2⟩
      refine .inr ⟨p, hp, ?_, by omega⟩
      by_contra h
      exact hn ⟨p, hp, by omega, by omega⟩
  cases hp : m.pred x.start with
  | none =>
      refine hcut ?_
      rintro ⟨p, h, h1, -⟩
      have := OrdMap.pred_eq_none.mp hp p h
      omega
  | some q =>
      obtain ⟨start, stop⟩ := q
      have hcov := covers_of_pred hm hp
      simp only
      by_cases h1 : stop > x.start
      · rw [if_pos h1]
        refine iff_of_true ?_ ⟨x.start, ⟨le_rfl, hx'⟩, hcov.mpr h1⟩
        split_ifs <;> rfl
      · rw [if_neg h1]
        exact hcut (by rw [hcov]; omega)

/-- The loop of `insert` on one number: it takes in at most one run. -/
theorem absorbLoop_one {s x : ℕ} (hsx : ∀ p ∈ m.entries, s < p.1 ↔ x < p.1) :
    absorbLoop m.entries.length m s (x + 1) = mergeSucc m x := by
  have hsucc : m.succ s = m.succ x := by
    unfold OrdMap.succ
    congr 1
    exact List.filter_congr fun p hp => by simp [hsx p hp]
  unfold mergeSucc
  cases hn : m.succ x with
  | none =>
      cases hlen : m.entries.length with
      | zero => rfl
      | succ n =>
          rw [absorbLoop, hsucc, hn]
  | some q =>
      obtain ⟨ns, ne⟩ := q
      obtain ⟨hq, hlt, hmin⟩ := OrdMap.succ_eq_some hn
      have hne := hm.nonempty _ hq
      simp only at hlt hmin hne ⊢
      obtain ⟨n, hlen⟩ : ∃ n, m.entries.length = n + 1 :=
        Nat.exists_eq_succ_of_ne_zero (List.length_pos_iff.mpr (List.ne_nil_of_mem hq)).ne'
      rw [hlen, absorbLoop, hsucc, hn]
      dsimp only
      by_cases hns : ns = x + 1
      · rw [if_neg (by omega), if_pos hns, max_eq_left (by omega)]
        -- the run after the one that was taken in does not touch it
        cases n with
        | zero => rfl
        | succ n =>
            rw [absorbLoop]
            cases hn' : (m.erase ns).succ s with
            | none => rfl
            | some q' =>
                obtain ⟨hq', hlt', -⟩ := OrdMap.succ_eq_some hn'
                obtain ⟨hq', hne'⟩ := OrdMap.mem_erase.mp hq'
                have hx := (hsx q' hq').mp hlt'
                have hge := hmin q' hq' hx
                have := hm.apart _ hq q' hq' (by simp only; omega)
                simp only at this
                dsimp only
                rw [if_pos this]
      · rw [if_pos (by omega), if_neg hns]

/-- **`insert_one` is `insert` of a range of one number.** -/
theorem insertOneMap_eq (x : ℕ) : insertOneMap m x = insertMap m ⟨x, x + 1⟩ := by
  have hx : ¬ (⟨x, x + 1⟩ : Range).isEmpty = true := by simp [Range.isEmpty]
  unfold insertOneMap insertMap absorb
  rw [if_neg hx]
  cases hp : m.pred x with
  | none =>
      simp only
      rw [absorbLoop_one hm fun p _ => Iff.rfl]
  | some q =>
      obtain ⟨start, stop⟩ := q
      obtain ⟨hq, hle, hmax⟩ := OrdMap.pred_eq_some hp
      simp only at hle hmax ⊢
      rcases Nat.lt_trichotomy stop x with hlt | he | hgt
      · rw [if_neg (by omega), if_neg (by omega), if_neg (by omega), if_neg (by omega),
          absorbLoop_one hm fun p _ => Iff.rfl]
      · rw [if_neg (by omega), if_pos he, if_neg (by omega), if_pos (by omega)]
        -- no run starts between the start of the predecessor and `x`
        have hsx : ∀ p ∈ (m.erase start).entries, start < p.1 ↔ x < p.1 := by
          intro p h
          obtain ⟨h, hne⟩ := OrdMap.mem_erase.mp h
          refine ⟨fun h' => ?_, fun h' => by omega⟩
          by_contra hle'
          have := hmax p h (by omega)
          omega
        rw [absorbLoop_one (hm.erase start) hsx]
      · rw [if_pos hgt, if_pos (by omega)]

end Changed

/-! ## The bundled operations -/

instance : Membership ℕ RangeSet := ⟨fun s x => Covers s.map x⟩

instance : DecidableEq RangeSet := fun s t =>
  decidable_of_iff (s.map = t.map) ⟨fun h => by cases s; cases t; cases h; rfl, fun h => by rw [h]⟩

/-- The empty set. -/
def new : RangeSet := ⟨∅, Canon.empty⟩

/-- `RangeSet::contains`. -/
def contains (s : RangeSet) (x : ℕ) : Bool := (s.map.pred x).any fun p => decide (p.2 > x)

/-- `RangeSet::insert`. -/
def insert (s : RangeSet) (x : Range) : Bool × RangeSet :=
  ((insertMap s.map x).1, ⟨(insertMap s.map x).2, (insertMap_spec s.canon x).1⟩)

/-- `RangeSet::insert_one`. -/
def insertOne (s : RangeSet) (x : ℕ) : Bool × RangeSet :=
  ((insertOneMap s.map x).1,
    ⟨(insertOneMap s.map x).2, by rw [insertOneMap_eq s.canon]; exact (insertMap_spec s.canon _).1⟩)

/-- `RangeSet::remove`. -/
def remove (s : RangeSet) (x : Range) : Bool × RangeSet :=
  ((removeMap s.map x).1, ⟨(removeMap s.map x).2, (removeMap_spec s.canon x).1⟩)

/-- `RangeSet::is_empty`. -/
def isEmpty (s : RangeSet) : Bool := s.map.entries.isEmpty

/-- `RangeSet::iter`. -/
def iter (s : RangeSet) : List Range := s.map.entries.map fun p => ⟨p.1, p.2⟩

/-- `RangeSet::subtract`. -/
def subtract (s other : RangeSet) : RangeSet :=
  other.map.entries.foldl (fun s p => (s.remove ⟨p.1, p.2⟩).2) s

/-- `RangeSet::min`. -/
def min (s : RangeSet) : Option ℕ := s.map.entries.head?.map Prod.fst

/-- `RangeSet::max`. -/
def max (s : RangeSet) : Option ℕ := s.map.entries.getLast?.map fun p => p.2 - 1

/-- `RangeSet::len`. -/
def len (s : RangeSet) : ℕ := s.map.entries.length

/-- `RangeSet::peek_min`. -/
def peekMin (s : RangeSet) : Option Range := s.map.entries.head?.map fun p => ⟨p.1, p.2⟩

/-- `RangeSet::pop_min`. -/
def popMin (s : RangeSet) : Option (Range × RangeSet) :=
  s.peekMin.map fun r => (r, ⟨s.map.erase r.start, s.canon.erase r.start⟩)

theorem notMem_new (x : ℕ) : x ∉ new := fun ⟨_, h, _⟩ => by cases h

/-- **`insert` is union.** -/
@[simp] theorem mem_insert {s : RangeSet} {x : Range} {y : ℕ} : y ∈ (s.insert x).2 ↔ y ∈ s ∨ y ∈ x :=
  (insertMap_spec s.canon x).2 y

/-- **`remove` is difference.** -/
@[simp] theorem mem_remove {s : RangeSet} {x : Range} {y : ℕ} : y ∈ (s.remove x).2 ↔ y ∈ s ∧ y ∉ x :=
  (removeMap_spec s.canon x).2 y

theorem contains_iff {s : RangeSet} {x : ℕ} : s.contains x = true ↔ x ∈ s := by
  unfold contains
  cases h : s.map.pred x with
  | none =>
      refine ⟨fun h' => by simp at h', fun ⟨p, hp, h1, _⟩ => ?_⟩
      have := OrdMap.pred_eq_none.mp h p hp
      omega
  | some q =>
      obtain ⟨hq, hle, hmax⟩ := OrdMap.pred_eq_some h
      simp only [Option.any_some, decide_eq_true_eq]
      refine ⟨fun h' => ⟨q, hq, hle, h'⟩, fun ⟨p, hp, h1, h2⟩ => ?_⟩
      have h3 := hmax p hp h1
      rcases lt_or_eq_of_le h3 with h3 | h3
      · have := s.canon.apart p hp q hq h3; omega
      · rw [← OrdMap.eq_of_key hp hq h3]; exact h2

instance (s : RangeSet) (x : ℕ) : Decidable (x ∈ s) := decidable_of_iff _ contains_iff

theorem peekMin_eq_some {s : RangeSet} {r : Range} (h : s.peekMin = some r) :
    (r.start, r.end) ∈ s.map.entries ∧ r.start < r.end := by
  obtain ⟨p, hp, rfl⟩ := Option.map_eq_some_iff.mp h
  have hm := List.mem_of_mem_head? hp
  exact ⟨hm, s.canon.nonempty p hm⟩

/-- The first run begins with the smallest number. -/
theorem peekMin_le {s : RangeSet} {r : Range} (h : s.peekMin = some r) {y : ℕ} (hy : y ∈ s) : r.start ≤ y := by
  obtain ⟨p, hp, rfl⟩ := Option.map_eq_some_iff.mp h
  obtain ⟨l, hl⟩ := List.head?_eq_some_iff.mp hp
  obtain ⟨q, hq, hle, -⟩ := hy
  have hs := s.map.sorted
  rw [hl] at hq hs
  rcases List.mem_cons.mp hq with rfl | hq
  · exact hle
  · exact ((List.pairwise_cons.mp hs).1 q hq).le.trans hle

theorem popMin_eq_some {s s' : RangeSet} {r : Range} (h : s.popMin = some (r, s')) :
    r.start < r.end ∧ (∀ y ∈ r, y ∈ s) ∧ ∀ y, y ∈ s' ↔ y ∈ s ∧ y ∉ r := by
  obtain ⟨q, hq, he⟩ := Option.map_eq_some_iff.mp h
  cases he
  obtain ⟨hm, hlt⟩ := peekMin_eq_some hq
  exact ⟨hlt, fun y hy => ⟨_, hm, hy⟩, fun y => covers_erase s.canon hm⟩

theorem popMin_eq_none {s : RangeSet} : s.popMin = none ↔ s.isEmpty = true := by
  simp [popMin, peekMin, isEmpty, List.isEmpty_iff]

end RangeSet

end MzQuic
