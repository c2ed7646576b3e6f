import Mathlib.Tactic

/-!
# Ordered maps

A finite map from numbers, kept as the list of its entries with ascending keys, which is how an
ordered tree map iterates. The order is a field, so every value of the type is a map.

* `insert`, `erase`, `retain`, `find?` and their entries (`mem_insert`, `mem_erase`, `erase_split`,
  `find?_eq_some`);
* `pred x`, `succ x`: the last entry at or before `x` and the first one after it.
-/

universe u

namespace Lib

/-- A finite map with ascending keys. -/
structure OrdMap (α : Type u) where
  entries : List (ℕ × α)
  sorted : entries.Pairwise fun p q => p.1 < q.1

namespace OrdMap

variable {α : Type u}

instance [DecidableEq α] : DecidableEq (OrdMap α) := fun m n =>
  decidable_of_iff (m.entries = n.entries)
    ⟨fun h => by cases m; cases n; cases h; rfl, fun h => by rw [h]⟩

theorem ext {m n : OrdMap α} (h : m.entries = n.entries) : m = n := by
  cases m; cases n; cases h; rfl

/-- The empty map. -/
def empty : OrdMap α := ⟨[], List.Pairwise.nil⟩

instance : EmptyCollection (OrdMap α) := ⟨empty⟩

/-- The value at a key. -/
def find? (m : OrdMap α) (k : ℕ) : Option α := (m.entries.find? fun p => p.1 = k).map Prod.snd

/-- Set the value at a key. -/
def insert (m : OrdMap α) (k : ℕ) (v : α) : OrdMap α where
  entries := m.entries.filter (fun p => p.1 < k) ++ (k, v) :: m.entries.filter fun p => k < p.1
  sorted := by
    refine List.pairwise_append.mpr ⟨m.sorted.filter _, List.pairwise_cons.mpr
      ⟨fun q hq => ?_, m.sorted.filter _⟩, fun p hp q hq => ?_⟩
    · simpa using (List.mem_filter.mp hq).2
    · have h1 : p.1 < k := by simpa using (List.mem_filter.mp hp).2
      rcases List.mem_cons.mp hq with rfl | hq
      · exact h1
      · have h2 : k < q.1 := by simpa using (List.mem_filter.mp hq).2
        omega

/-- Drop the entry at a key. -/
def erase (m : OrdMap α) (k : ℕ) : OrdMap α where
  entries := m.entries.filter fun p => p.1 ≠ k
  sorted := m.sorted.filter _

/-- Keep the entries that pass a test. -/
def retain (m : OrdMap α) (f : ℕ → α → Bool) : OrdMap α where
  entries := m.entries.filter fun p => f p.1 p.2
  sorted := m.sorted.filter _

/-- The last entry with a key at or before `x`. -/
def pred (m : OrdMap α) (x : ℕ) : Option (ℕ × α) := (m.entries.filter fun p => p.1 ≤ x).getLast?

/-- The first entry with a key after `x`. -/
def succ (m : OrdMap α) (x : ℕ) : Option (ℕ × α) := (m.entries.filter fun p => x < p.1).head?

theorem mem_insert {m : OrdMap α} {k : ℕ} {v : α} {p : ℕ × α} :
    p ∈ (m.insert k v).entries ↔ p = (k, v) ∨ (p ∈ m.entries ∧ p.1 ≠ k) := by
  simp only [insert, List.mem_append, List.mem_cons, List.mem_filter, decide_eq_true_eq]
  constructor
  · rintro (⟨h, hk⟩ | h | ⟨h, hk⟩)
    · exact .inr ⟨h, by omega⟩
    · exact .inl h
    · exact .inr ⟨h, by omega⟩
  · rintro (h | ⟨h, hk⟩)
    · exact .inr (.inl h)
    · rcases lt_or_gt_of_ne hk with hk | hk
      · exact .inl ⟨h, hk⟩
      · exact .inr (.inr ⟨h, hk⟩)

theorem mem_erase {m : OrdMap α} {k : ℕ} {p : ℕ × α} :
    p ∈ (m.erase k).entries ↔ p ∈ m.entries ∧ p.1 ≠ k := by
  simp [erase]

theorem length_erase_lt {m : OrdMap α} {p : ℕ × α} (h : p ∈ m.entries) :
    (m.erase p.1).entries.length < m.entries.length := by
  refine List.length_filter_lt_length_iff_exists.mpr ⟨p, h, ?_⟩
  simp

/-- An entry is determined by its key. -/
theorem eq_of_key {m : OrdMap α} {p q : ℕ × α} (hp : p ∈ m.entries) (hq : q ∈ m.entries)
    (h : p.1 = q.1) : p = q := by
  have key : ∀ l : List (ℕ × α), l.Pairwise (fun p q => p.1 < q.1) → p ∈ l → q ∈ l → p = q := by
    intro l hl
    induction l with
    | nil => intro hp; cases hp
    | cons a l ih =>
        intro hp hq
        obtain ⟨ha, hl⟩ := List.pairwise_cons.mp hl
        rcases List.mem_cons.mp hp with hp | hp <;> rcases List.mem_cons.mp hq with hq | hq
        · rw [hp, hq]
        · have := ha q hq; rw [← hp] at this; omega
        · have := ha p hp; rw [← hq] at this; omega
        · exact ih hl hp hq
  exact key m.entries m.sorted hp hq

theorem nodup (m : OrdMap α) : m.entries.Nodup :=
  m.sorted.imp fun h e => by rw [e] at h; exact lt_irrefl _ h

/-- What an entry leaves behind: the entries before it and those after it. -/
theorem erase_split {m : OrdMap α} {p : ℕ × α} (h : p ∈ m.entries) : ∃ before after,
    m.entries = before ++ p :: after ∧ (m.erase p.1).entries = before ++ after ∧
      (∀ q ∈ before, q.1 < p.1) ∧ ∀ q ∈ after, p.1 < q.1 := by
  obtain ⟨before, after, hl⟩ := List.append_of_mem h
  have hs := m.sorted
  rw [hl] at hs
  obtain ⟨-, hafter, hbefore⟩ := List.pairwise_append.mp hs
  have hb : ∀ q ∈ before, q.1 < p.1 := fun q hq => hbefore q hq p List.mem_cons_self
  have ha : ∀ q ∈ after, p.1 < q.1 := (List.pairwise_cons.mp hafter).1
  refine ⟨before, after, hl, ?_, hb, ha⟩
  have hb' : before.filter (fun q => q.1 ≠ p.1) = before :=
    List.filter_eq_self.mpr fun q hq => by simpa using (hb q hq).ne
  have ha' : after.filter (fun q => q.1 ≠ p.1) = after :=
    List.filter_eq_self.mpr fun q hq => by simpa using (ha q hq).ne'
  show m.entries.filter (fun q => q.1 ≠ p.1) = before ++ after
  rw [hl, List.filter_append, hb', List.filter_cons, if_neg (by simp), ha']

theorem insert_perm {m : OrdMap α} {k : ℕ} (v : α) (h : k ∉ m.entries.map Prod.fst) :
    (m.insert k v).entries.Perm ((k, v) :: m.entries) := by
  have hk : ∀ p ∈ m.entries, p.1 ≠ k := fun p hp e => h (List.mem_map.mpr ⟨p, hp, e⟩)
  refine (List.perm_ext_iff_of_nodup (m.insert k v).nodup ?_).mpr fun p => ?_
  · exact List.nodup_cons.mpr ⟨fun hm => hk _ hm rfl, m.nodup⟩
  · rw [mem_insert, List.mem_cons]
    exact or_congr_right ⟨fun hp => hp.1, fun hp => ⟨hp, hk p hp⟩⟩

theorem erase_perm {m : OrdMap α} {k : ℕ} {v : α} (h : (k, v) ∈ m.entries) :
    m.entries.Perm ((k, v) :: (m.erase k).entries) := by
  refine (List.perm_ext_iff_of_nodup m.nodup ?_).mpr fun p => ?_
  · exact List.nodup_cons.mpr ⟨fun hm => (mem_erase.mp hm).2 rfl, (m.erase k).nodup⟩
  · rw [List.mem_cons, mem_erase]
    constructor
    · intro hp
      by_cases hk : p.1 = k
      · exact .inl (eq_of_key hp h hk)
      · exact .inr ⟨hp, hk⟩
    · rintro (rfl | hp)
      · exact h
      · exact hp.1

theorem find?_eq_some {m : OrdMap α} {k : ℕ} {v : α} :
    m.find? k = some v ↔ (k, v) ∈ m.entries := by
  unfold find?
  constructor
  · intro h
    obtain ⟨p, hp, rfl⟩ := Option.map_eq_some_iff.mp h
    have hk : p.1 = k := by simpa using List.find?_some hp
    rw [← hk]
    exact List.mem_of_find?_eq_some hp
  · intro h
    cases hf : m.entries.find? fun p => p.1 = k with
    | none => exact absurd (List.find?_eq_none.mp hf _ h) (by simp)
    | some p =>
        have hk : p.1 = k := by simpa using List.find?_some hf
        have : p = (k, v) := eq_of_key (List.mem_of_find?_eq_some hf) h hk
        rw [this]; rfl

theorem find?_eq_none {m : OrdMap α} {k : ℕ} :
    m.find? k = none ↔ ∀ p ∈ m.entries, p.1 ≠ k := by
  simp [find?]

theorem erase_of_find?_eq_none {m : OrdMap α} {k : ℕ} (h : m.find? k = none) : m.erase k = m := by
  refine ext (List.filter_eq_self.mpr fun p hp => ?_)
  simpa using find?_eq_none.mp h p hp

theorem find?_insert (m : OrdMap α) (k : ℕ) (v : α) (x : ℕ) :
    (m.insert k v).find? x = if x = k then some v else m.find? x := by
  split_ifs with h
  · rw [h, find?_eq_some, mem_insert]
    exact .inl rfl
  · cases hf : m.find? x with
    | none =>
        rw [find?_eq_none] at hf ⊢
        intro p hp
        rcases mem_insert.mp hp with rfl | ⟨hp, -⟩
        · exact fun hk => h hk.symm
        · exact hf p hp
    | some w =>
        rw [find?_eq_some] at hf ⊢
        exact mem_insert.mpr (.inr ⟨hf, h⟩)

theorem pred_eq_some {m : OrdMap α} {x : ℕ} {p : ℕ × α} (h : m.pred x = some p) :
    p ∈ m.entries ∧ p.1 ≤ x ∧ ∀ q ∈ m.entries, q.1 ≤ x → q.1 ≤ p.1 := by
  unfold pred at h
  obtain ⟨l, hl⟩ := List.getLast?_eq_some_iff.mp h
  have hp : p ∈ m.entries.filter fun p => p.1 ≤ x := by rw [hl]; simp
  have hs : (m.entries.filter fun p => p.1 ≤ x).Pairwise fun p q => p.1 < q.1 := m.sorted.filter _
  refine ⟨(List.mem_filter.mp hp).1, by simpa using (List.mem_filter.mp hp).2, fun q hq hx => ?_⟩
  have hq' : q ∈ m.entries.filter fun p => p.1 ≤ x := List.mem_filter.mpr ⟨hq, by simpa using hx⟩
  rw [hl] at hq' hs
  rcases List.mem_append.mp hq' with hq' | hq'
  · exact le_of_lt ((List.pairwise_append.mp hs).2.2 q hq' p (by simp))
  · rw [List.mem_singleton.mp hq']

theorem pred_eq_none {m : OrdMap α} {x : ℕ} :
    m.pred x = none ↔ ∀ q ∈ m.entries, x < q.1 := by
  simp [pred]

theorem succ_eq_some {m : OrdMap α} {x : ℕ} {p : ℕ × α} (h : m.succ x = some p) :
    p ∈ m.entries ∧ x < p.1 ∧ ∀ q ∈ m.entries, x < q.1 → p.1 ≤ q.1 := by
  unfold succ at h
  obtain ⟨l, hl⟩ := List.head?_eq_some_iff.mp h
  have hp : p ∈ m.entries.filter fun p => x < p.1 := by rw [hl]; simp
  have hs : (m.entries.filter fun p => x < p.1).Pairwise fun p q => p.1 < q.1 := m.sorted.filter _
  refine ⟨(List.mem_filter.mp hp).1, by simpa using (List.mem_filter.mp hp).2, fun q hq hx => ?_⟩
  have hq' : q ∈ m.entries.filter fun p => x < p.1 := List.mem_filter.mpr ⟨hq, by simpa using hx⟩
  rw [hl] at hq' hs
  rcases List.mem_cons.mp hq' with rfl | hq'
  · exact le_rfl
  · exact le_of_lt ((List.pairwise_cons.mp hs).1 q hq')

theorem succ_eq_none {m : OrdMap α} {x : ℕ} :
    m.succ x = none ↔ ∀ q ∈ m.entries, q.1 ≤ x := by
  simp [succ]

end OrdMap

end Lib
