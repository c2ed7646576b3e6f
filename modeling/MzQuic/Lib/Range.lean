import MzQuic.Lib.OrdMap

/-!
# Half-open ranges, and maps that hold disjoint ones

* `Range`: the numbers `start ≤ x < end`;
* `Canon m`: the map `m` from starts to ends holds nonempty ranges no two of which touch;
* `Covers m x`: some range of `m` holds `x`, with the effect of `erase` and `insert` on it
  (`covers_erase`, `covers_insert`) and of cutting a map down (`Canon.erase`, `Canon.insert`).
-/

namespace Lib

/-- The numbers from `start` up to and not including `end`. -/
structure Range where
  start : ℕ
  «end» : ℕ
  deriving DecidableEq, Repr

namespace Range

instance : Membership ℕ Range := ⟨fun r x => r.start ≤ x ∧ x < r.end⟩

instance (r : Range) (x : ℕ) : Decidable (x ∈ r) :=
  inferInstanceAs (Decidable (r.start ≤ x ∧ x < r.end))

theorem mem_iff {r : Range} {x : ℕ} : x ∈ r ↔ r.start ≤ x ∧ x < r.end := Iff.rfl

/-- Whether the range holds nothing; reversed ranges do not. -/
def isEmpty (r : Range) : Bool := !decide (r.start < r.end)

theorem isEmpty_iff {r : Range} : r.isEmpty = true ↔ r.end ≤ r.start := by
  simp [isEmpty]

end Range

/-- Some range of the map holds `x`. -/
def Covers (m : OrdMap ℕ) (x : ℕ) : Prop := ∃ p ∈ m.entries, p.1 ≤ x ∧ x < p.2

/-- The map holds nonempty ranges, and no two of them touch. -/
structure Canon (m : OrdMap ℕ) : Prop where
  nonempty : ∀ p ∈ m.entries, p.1 < p.2
  apart : ∀ p ∈ m.entries, ∀ q ∈ m.entries, p.1 < q.1 → p.2 < q.1

theorem Canon.empty : Canon ∅ where
  nonempty _ h := by cases h
  apart _ h := by cases h

section

variable {m : OrdMap ℕ} (hm : Canon m)
include hm

theorem Canon.erase (k : ℕ) : Canon (m.erase k) where
  nonempty p hp := hm.nonempty p (OrdMap.mem_erase.mp hp).1
  apart p hp q hq := hm.apart p (OrdMap.mem_erase.mp hp).1 q (OrdMap.mem_erase.mp hq).1

/-- A range that touches no range of the map may be added. -/
theorem Canon.insert {s e : ℕ} (hse : s < e) (hl : ∀ p ∈ m.entries, p.1 < s → p.2 < s)
    (hr : ∀ p ∈ m.entries, s < p.1 → e < p.1) : Canon (m.insert s e) where
  nonempty p hp := by
    rcases OrdMap.mem_insert.mp hp with rfl | ⟨hp, _⟩
    · exact hse
    · exact hm.nonempty p hp
  apart p hp q hq hpq := by
    rcases OrdMap.mem_insert.mp hp with rfl | ⟨hp, _⟩ <;>
      rcases OrdMap.mem_insert.mp hq with rfl | ⟨hq, _⟩
    · exact absurd hpq (lt_irrefl _)
    · exact hr q hq hpq
    · exact hl p hp hpq
    · exact hm.apart p hp q hq hpq

theorem covers_erase {k e x : ℕ} (hk : (k, e) ∈ m.entries) :
    Covers (m.erase k) x ↔ Covers m x ∧ ¬ (k ≤ x ∧ x < e) := by
  constructor
  · rintro ⟨p, hp, h1, h2⟩
    obtain ⟨hp, hne⟩ := OrdMap.mem_erase.mp hp
    refine ⟨⟨p, hp, h1, h2⟩, fun ⟨h3, h4⟩ => ?_⟩
    rcases lt_or_gt_of_ne hne with h | h
    · have := hm.apart p hp (k, e) hk h; simp only at this; omega
    · have := hm.apart (k, e) hk p hp h; simp only at this; omega
  · rintro ⟨⟨p, hp, h1, h2⟩, h⟩
    refine ⟨p, OrdMap.mem_erase.mpr ⟨hp, fun he => h ?_⟩, h1, h2⟩
    have : p = (k, e) := OrdMap.eq_of_key hp hk he
    subst this
    exact ⟨h1, h2⟩

end

/-- The map has no range starting at `s`, so the new range is added to the others. -/
theorem covers_insert {m : OrdMap ℕ} {s e x : ℕ} (hs : ∀ p ∈ m.entries, p.1 ≠ s) :
    Covers (m.insert s e) x ↔ Covers m x ∨ (s ≤ x ∧ x < e) := by
  constructor
  · rintro ⟨p, hp, h1, h2⟩
    rcases OrdMap.mem_insert.mp hp with rfl | ⟨hp, _⟩
    · exact .inr ⟨h1, h2⟩
    · exact .inl ⟨p, hp, h1, h2⟩
  · rintro (⟨p, hp, h⟩ | h)
    · exact ⟨p, OrdMap.mem_insert.mpr (.inr ⟨hp, hs p hp⟩), h⟩
    · exact ⟨(s, e), OrdMap.mem_insert.mpr (.inl rfl), h⟩

end Lib
