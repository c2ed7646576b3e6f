import MzQuic.Lib.Deque
import MzQuic.Proto.Replace

/-!
# The elements of a range set (`proto/src/range_set/btree_range_set.rs`)

`elts` walks the elements from both ends, but the two ends share one current sub-range.

* `EltIter.next`, `EltIter.nextBack`: the iterator over the entries of the map that are left;
* `Agrees it edge`: the current sub-range is used up, or it lies at that end of what is left;
* `Walks it l`: the state of an iterator that has `l` to return; `call_agrees`, `call_disagrees`: a call
  that agrees returns the element at its end, any other call does not;
* `Bounded`: the numbers of a set that is built by calls are integers of the program;
* **`elements_lawful_iff`**: the results are those of taking the ascending list of the elements from both ends
  if and only if every call agrees.
-/

namespace MzQuic

open Lib

/-- `EltIter`: the entries of the map that are left, and the fields `next` and `end` of the current
sub-range. -/
structure EltIter where
  inner : List (ℕ × ℕ)
  nextElt : ℕ
  «end» : ℕ
  deriving DecidableEq

/-- `RangeSet::elts`. -/
def elts (m : OrdMap ℕ) : EltIter := ⟨m.entries, 0, 0⟩

namespace EltIter

/-- The second half of `next`. -/
def takeNext (it : EltIter) : Checked (Option ℕ × EltIter) := do
  let next ← Checked.add 64 it.nextElt 1
  .ok (some it.nextElt, { it with nextElt := next })

/-- `EltIter::next`. -/
def next (it : EltIter) : Checked (Option ℕ × EltIter) :=
  if it.nextElt = it.end then
    match it.inner with
    | [] => .ok (none, it)
    | (start, stop) :: inner => takeNext ⟨inner, start, stop⟩
  else takeNext it

/-- The second half of `next_back`. -/
def takeBack (it : EltIter) : Checked (Option ℕ × EltIter) := do
  let stop ← Checked.sub it.end 1
  .ok (some stop, { it with «end» := stop })

/-- `EltIter::next_back`. -/
def nextBack (it : EltIter) : Checked (Option ℕ × EltIter) :=
  if it.nextElt = it.end then
    match it.inner.getLast? with
    | none => .ok (none, it)
    | some (start, stop) => takeBack ⟨it.inner.dropLast, start, stop⟩
  else takeBack it

/-- A call from one end. -/
def call (it : EltIter) : Edge → Checked (Option ℕ × EltIter)
  | .front => it.next
  | .back => it.nextBack

/-- The iterator after a call. -/
def step (it : EltIter) (edge : Edge) : Checked EltIter := it.call edge >>= fun r => .ok r.2

/-- The results of calls from the two ends. -/
def results : EltIter → List Edge → Checked (List (Option ℕ))
  | _, [] => .ok []
  | it, edge :: edges => do
    let (x, it') ← it.call edge
    let xs ← results it' edges
    .ok (x :: xs)

/-- The current sub-range is used up, or no range that is left lies beyond it at that end. -/
def Agrees (it : EltIter) : Edge → Prop
  | .front => it.nextElt = it.end ∨ ∀ p ∈ it.inner, it.end ≤ p.1
  | .back => it.nextElt = it.end ∨ ∀ p ∈ it.inner, p.2 ≤ it.nextElt

instance (it : EltIter) : ∀ edge, Decidable (it.Agrees edge)
  | .front => inferInstanceAs (Decidable (it.nextElt = it.end ∨ ∀ p ∈ it.inner, it.end ≤ p.1))
  | .back => inferInstanceAs (Decidable (it.nextElt = it.end ∨ ∀ p ∈ it.inner, p.2 ≤ it.nextElt))

end EltIter

/-! ## Elements -/

/-- The numbers of one run. -/
def runElts (p : ℕ × ℕ) : List ℕ := List.range' p.1 (p.2 - p.1)

/-- The elements of a set in ascending order. -/
def elements (m : OrdMap ℕ) : List ℕ := m.entries.flatMap runElts

section Elements

variable {p : ℕ × ℕ} {l : List (ℕ × ℕ)} {x : ℕ}

theorem mem_runElts : x ∈ runElts p ↔ p.1 ≤ x ∧ x < p.2 := by
  rw [runElts, List.mem_range'_1]
  omega

theorem runElts_cons {s e : ℕ} (h : s < e) : runElts (s, e) = s :: runElts (s + 1, e) := by
  obtain ⟨n, rfl⟩ : ∃ n, e = s + (n + 1) := ⟨e - s - 1, by omega⟩
  rw [runElts, runElts, show s + (n + 1) - s = n + 1 by omega, show s + (n + 1) - (s + 1) = n by omega]
  rfl

theorem runElts_concat {s e : ℕ} (h : s < e) : runElts (s, e) = runElts (s, e - 1) ++ [e - 1] := by
  obtain ⟨n, rfl⟩ : ∃ n, e = s + (n + 1) := ⟨e - s - 1, by omega⟩
  rw [runElts, runElts, show s + (n + 1) - s = n + 1 by omega, show s + (n + 1) - 1 - s = n by omega,
    List.range'_1_concat]
  rfl

theorem runElts_self (s : ℕ) : runElts (s, s) = [] := by
  rw [runElts, Nat.sub_self]
  rfl

theorem mem_elements {m : OrdMap ℕ} : x ∈ elements m ↔ Covers m x := by
  rw [elements, List.mem_flatMap]
  exact exists_congr fun p => and_congr_right fun _ => mem_runElts

theorem elements_sorted {m : OrdMap ℕ} (hm : Canon m) : (elements m).Pairwise (· < ·) := by
  refine List.pairwise_flatMap.mpr ⟨fun p _ => List.pairwise_lt_range', ?_⟩
  refine List.Pairwise.imp_of_mem (fun {p q} hp hq hpq x hx y hy => ?_) m.sorted
  have := hm.apart p hp q hq hpq
  have := mem_runElts.mp hx
  have := mem_runElts.mp hy
  omega

end Elements

/-! ## Calls -/

/-- The iterator has the elements `l` to return: the current sub-range lies before or after the ranges that
are left. -/
structure Walks (it : EltIter) (l : List ℕ) : Prop where
  nonempty : ∀ p ∈ it.inner, p.1 < p.2
  sorted : it.inner.Pairwise fun p q => p.2 < q.1
  bounded : ∀ p ∈ it.inner, p.2 < 2 ^ 64
  le : it.nextElt ≤ it.end
  lt : it.end < 2 ^ 64
  place : (∀ p ∈ it.inner, it.end ≤ p.1) ∧ l = runElts (it.nextElt, it.end) ++ it.inner.flatMap runElts ∨
    (∀ p ∈ it.inner, p.2 ≤ it.nextElt) ∧ l = it.inner.flatMap runElts ++ runElts (it.nextElt, it.end)

namespace Walks

variable {it : EltIter} {l : List ℕ} (h : Walks it l)
include h

/-- The current sub-range is used up. -/
theorem used (he : it.nextElt = it.end) : l = it.inner.flatMap runElts := by
  rcases h.place with ⟨-, hl⟩ | ⟨-, hl⟩ <;> rw [hl, he, runElts_self]
  · rfl
  · exact List.append_nil _

theorem before (hlt : it.nextElt < it.end) (hb : ∀ p ∈ it.inner, it.end ≤ p.1) :
    l = runElts (it.nextElt, it.end) ++ it.inner.flatMap runElts := by
  rcases h.place with ⟨-, hl⟩ | ⟨ha, hl⟩
  · exact hl
  · have hnil : it.inner = [] := List.eq_nil_iff_forall_not_mem.mpr fun p hp => by
      have := h.nonempty p hp
      have := hb p hp
      have := ha p hp
      omega
    rw [hl, hnil]
    exact (List.append_nil _).symm

theorem after (hlt : it.nextElt < it.end) (ha : ∀ p ∈ it.inner, p.2 ≤ it.nextElt) :
    l = it.inner.flatMap runElts ++ runElts (it.nextElt, it.end) := by
  rcases h.place with ⟨hb, hl⟩ | ⟨-, hl⟩
  · have hnil : it.inner = [] := List.eq_nil_iff_forall_not_mem.mpr fun p hp => by
      have := h.nonempty p hp
      have := hb p hp
      have := ha p hp
      omega
    rw [hl, hnil]
    exact List.append_nil _
  · exact hl

omit h in
theorem takeNext_eq (hlt : it.nextElt < it.end) (hend : it.end < 2 ^ 64) :
    it.takeNext = .ok (some it.nextElt, { it with nextElt := it.nextElt + 1 }) := by
  unfold EltIter.takeNext Checked.add
  rw [if_pos (by omega)]
  rfl

omit h in
theorem takeBack_eq (hlt : it.nextElt < it.end) :
    it.takeBack = .ok (some (it.end - 1), { it with «end» := it.end - 1 }) := by
  unfold EltIter.takeBack Checked.sub
  rw [if_pos (by omega)]
  rfl

theorem takeNext (hlt : it.nextElt < it.end) (hb : ∀ p ∈ it.inner, it.end ≤ p.1) :
    ∃ it', it.takeNext = .ok (l.head?, it') ∧ Walks it' l.tail := by
  have hl : l = it.nextElt :: (runElts (it.nextElt + 1, it.end) ++ it.inner.flatMap runElts) := by
    rw [h.before hlt hb, runElts_cons hlt, List.cons_append]
  refine ⟨{ it with nextElt := it.nextElt + 1 }, ?_, h.nonempty, h.sorted, h.bounded, hlt, h.lt, .inl ⟨hb, ?_⟩⟩
  · rw [takeNext_eq hlt h.lt, hl, List.head?_cons]
  · rw [hl, List.tail_cons]

theorem takeBack (hlt : it.nextElt < it.end) (ha : ∀ p ∈ it.inner, p.2 ≤ it.nextElt) :
    ∃ it', it.takeBack = .ok (l.getLast?, it') ∧ Walks it' l.dropLast := by
  have hl : l = it.inner.flatMap runElts ++ runElts (it.nextElt, it.end - 1) ++ [it.end - 1] := by
    rw [h.after hlt ha, runElts_concat hlt, List.append_assoc]
  have := h.lt
  refine ⟨{ it with «end» := it.end - 1 }, ?_, h.nonempty, h.sorted, h.bounded, by simp only; omega,
    by simp only; omega, .inr ⟨ha, ?_⟩⟩
  · rw [takeBack_eq hlt, hl, List.getLast?_concat]
  · rw [hl, List.dropLast_concat]

/-- **A call that agrees** returns the element at its end. -/
theorem call_agrees {edge : Edge} (ha : it.Agrees edge) :
    ∃ it', it.call edge = .ok ((edge.take l).1, it') ∧ Walks it' (edge.take l).2 := by
  by_cases he : it.nextElt = it.end
  · have hl := h.used he
    cases edge with
    | front =>
        cases hi : it.inner with
        | nil =>
            rw [hi] at hl
            refine ⟨it, ?_, ?_⟩
            · rw [hl, EltIter.call, EltIter.next, if_pos he, hi]
              rfl
            · rw [hl] at h ⊢
              exact h
        | cons p inner =>
            obtain ⟨start, stop⟩ := p
            rw [hi] at hl
            have hs := List.pairwise_cons.mp (hi ▸ h.sorted)
            have hmem : ∀ q, q ∈ inner → q ∈ it.inner := fun q hq => by rw [hi]; exact List.mem_cons_of_mem _ hq
            have hp : (start, stop) ∈ it.inner := by rw [hi]; exact List.mem_cons_self
            have hlt : start < stop := h.nonempty _ hp
            have hw : Walks ⟨inner, start, stop⟩ l := ⟨fun q hq => h.nonempty q (hmem q hq), hs.2,
              fun q hq => h.bounded q (hmem q hq), hlt.le, h.bounded _ hp, .inl ⟨fun q hq => (hs.1 q hq).le, hl⟩⟩
            rw [EltIter.call, EltIter.next, if_pos he, hi]
            exact hw.takeNext hlt fun q hq => (hs.1 q hq).le
    | back =>
        rcases List.eq_nil_or_concat it.inner with hi | ⟨inner, p, hi⟩
        · rw [hi] at hl
          refine ⟨it, ?_, ?_⟩
          · rw [hl, EltIter.call, EltIter.nextBack, if_pos he, hi]
            rfl
          · rw [hl] at h ⊢
            exact h
        · obtain ⟨start, stop⟩ := p
          rw [List.concat_eq_append] at hi
          rw [hi, List.flatMap_append, List.flatMap_singleton] at hl
          have hs := List.pairwise_append.mp (hi ▸ h.sorted)
          have hmem : ∀ q, q ∈ inner → q ∈ it.inner := fun q hq => by rw [hi]; exact List.mem_append_left _ hq
          have hp : (start, stop) ∈ it.inner := by rw [hi]; exact List.mem_append_right _ List.mem_cons_self
          have hlt : start < stop := h.nonempty _ hp
          have hle : ∀ q ∈ inner, q.2 ≤ start := fun q hq => (hs.2.2 q hq _ List.mem_cons_self).le
          have hw : Walks ⟨inner, start, stop⟩ l := ⟨fun q hq => h.nonempty q (hmem q hq), hs.1,
            fun q hq => h.bounded q (hmem q hq), hlt.le, h.bounded _ hp, .inr ⟨hle, hl⟩⟩
          rw [EltIter.call, EltIter.nextBack, if_pos he, hi, List.getLast?_concat, List.dropLast_concat]
          exact hw.takeBack hlt hle
  · have hlt : it.nextElt < it.end := lt_of_le_of_ne h.le he
    cases edge with
    | front =>
        rw [EltIter.call, EltIter.next, if_neg he]
        exact h.takeNext hlt (ha.resolve_left he)
    | back =>
        rw [EltIter.call, EltIter.nextBack, if_neg he]
        exact h.takeBack hlt (ha.resolve_left he)

/-- **A call that does not agree** returns an element from the middle. -/
theorem call_disagrees {edge : Edge} (ha : ¬ it.Agrees edge) :
    ∃ x it', it.call edge = .ok (some x, it') ∧ (edge.take l).1 ≠ some x := by
  cases edge with
  | front =>
      obtain ⟨he, hex⟩ := not_or.mp ha
      push Not at hex
      obtain ⟨p, hp, hlt⟩ := hex
      have hcur : it.nextElt < it.end := lt_of_le_of_ne h.le he
      -- the current sub-range was begun from the back
      obtain ⟨hafter, hl⟩ := h.place.resolve_left fun hb => absurd (hb.1 p hp) (by omega)
      refine ⟨it.nextElt, { it with nextElt := it.nextElt + 1 }, ?_, ?_⟩
      · rw [EltIter.call, EltIter.next, if_neg he, takeNext_eq hcur h.lt]
      · cases hi : it.inner with
        | nil =>
            rw [hi] at hp
            cases hp
        | cons q inner =>
            obtain ⟨start, stop⟩ := q
            have hq : (start, stop) ∈ it.inner := by rw [hi]; exact List.mem_cons_self
            have h1 : start < stop := h.nonempty _ hq
            have h2 : stop ≤ it.nextElt := hafter _ hq
            rw [hl, hi, List.flatMap_cons, runElts_cons h1]
            simp only [Edge.take, List.cons_append, List.head?_cons, ne_eq, Option.some.injEq]
            omega
  | back =>
      obtain ⟨he, hex⟩ := not_or.mp ha
      push Not at hex
      obtain ⟨p, hp, hlt⟩ := hex
      have hcur : it.nextElt < it.end := lt_of_le_of_ne h.le he
      -- the current sub-range was begun from the front
      obtain ⟨hbefore, hl⟩ := h.place.resolve_right fun ha => absurd (ha.1 p hp) (by omega)
      refine ⟨it.end - 1, { it with «end» := it.end - 1 }, ?_, ?_⟩
      · rw [EltIter.call, EltIter.nextBack, if_neg he, takeBack_eq hcur]
      · rcases List.eq_nil_or_concat it.inner with hi | ⟨inner, q, hi⟩
        · rw [hi] at hp
          cases hp
        · obtain ⟨start, stop⟩ := q
          rw [List.concat_eq_append] at hi
          have hq : (start, stop) ∈ it.inner := by rw [hi]; exact List.mem_append_right _ List.mem_cons_self
          have h1 : start < stop := h.nonempty _ hq
          have h2 : it.end ≤ start := hbefore _ hq
          rw [hl, hi, List.flatMap_append, List.flatMap_singleton, runElts_concat h1, ← List.append_assoc,
            ← List.append_assoc]
          simp only [Edge.take, List.getLast?_concat, ne_eq, Option.some.injEq]
          omega

/-- The results of a run of calls. -/
theorem results_iff (edges : List Edge) :
    it.results edges = .ok (Edge.served edges l) ↔ Meets EltIter.step EltIter.Agrees it edges := by
  induction edges generalizing it l with
  | nil => exact iff_of_true rfl trivial
  | cons edge edges ih =>
      rw [EltIter.results, Edge.served, Meets]
      by_cases ha : it.Agrees edge
      · obtain ⟨it', hcall, hw⟩ := h.call_agrees ha
        have hstep : it.step edge = .ok it' := by rw [EltIter.step, hcall]; rfl
        rw [and_iff_right ha, hcall, hstep]
        refine Iff.trans ?_ (Iff.trans (ih hw) ⟨fun h s' hs => by cases hs; exact h, fun h => h it' rfl⟩)
        simp only [Checked.ok_bind]
        constructor
        · intro hr
          obtain ⟨xs, hxs, he⟩ := Checked.bind_eq_ok.mp hr
          rw [hxs, (List.cons.inj (Except.ok.inj he)).2]
        · intro hr
          rw [hr]
          rfl
      · obtain ⟨x, it', hcall, hne⟩ := h.call_disagrees ha
        rw [hcall]
        refine iff_of_false (fun hr => ?_) fun hm => ha hm.1
        simp only [Checked.ok_bind] at hr
        obtain ⟨xs, -, he⟩ := Checked.bind_eq_ok.mp hr
        exact hne (List.cons.inj (Except.ok.inj he)).1.symm

end Walks

/-! ## The numbers of a set -/

/-- The numbers of a set are integers of the program. -/
def Bounded (m : OrdMap ℕ) : Prop := ∀ p ∈ m.entries, p.2 < 2 ^ 64

/-- The numbers of a call are integers of the program. -/
def SetCall.InRange : SetCall → Prop
  | insert x | remove x | replace x _ => x.start < 2 ^ 64 ∧ x.end < 2 ^ 64
  | insertOne x => x < 2 ^ 64
  | add other | subtract other => ∀ p ∈ other.entries, p.1 < 2 ^ 64 ∧ p.2 < 2 ^ 64
  | popMin => True

section Bounded

variable {m m' : OrdMap ℕ}

theorem bounded_iff (hm : Canon m) : Bounded m ↔ ∀ y, Covers m y → y + 1 < 2 ^ 64 := by
  constructor
  · rintro hb y ⟨p, hp, -, hlt⟩
    have := hb p hp
    omega
  · intro hc p hp
    have hlt := hm.nonempty p hp
    have := hc (p.2 - 1) ⟨p, hp, by omega, by omega⟩
    omega

/-- What covers no more than a bounded set and a range of the program is bounded. -/
theorem Bounded.of_covers (hb : Bounded m) (hm : Canon m) (hm' : Canon m') {x : Range} (hx : x.end < 2 ^ 64)
    (hc : ∀ y, Covers m' y → Covers m y ∨ y ∈ x) : Bounded m' := by
  refine (bounded_iff hm').mpr fun y hy => ?_
  rcases hc y hy with hy | ⟨-, hlt⟩
  · exact (bounded_iff hm).mp hb y hy
  · omega

theorem Bounded.remove (hb : Bounded m) (hm : Canon m) (x : Range) : Bounded (RangeSet.removeMap m x).2 := by
  obtain ⟨hc, hcov⟩ := RangeSet.removeMap_spec hm x
  exact hb.of_covers hm hc (x := ⟨0, 0⟩) (by simp only; omega) fun y hy => .inl ((hcov y).mp hy).1

theorem Bounded.insert (hb : Bounded m) (hm : Canon m) {x : Range} (hx : x.end < 2 ^ 64) :
    Bounded (RangeSet.insertMap m x).2 := by
  obtain ⟨hc, hcov⟩ := RangeSet.insertMap_spec hm x
  exact hb.of_covers hm hc hx fun y hy => (hcov y).mp hy

theorem Bounded.step {call : SetCall} (hb : Bounded m) (hm : Canon m) (hfit : call.Fits m) (hu : call.InRange)
    (h : call.step m = .ok m') : Bounded m' := by
  cases call with
  | insert x =>
      cases h
      exact hb.insert hm hu.2
  | insertOne x =>
      rw [SetCall.step] at h
      split_ifs at h
      · obtain ⟨n, hn, h⟩ := Checked.bind_eq_ok.mp h
        cases h
        rw [SetCall.apply, RangeSet.insertOneMap_eq hm]
        refine hb.insert hm ?_
        unfold Checked.add at hn
        split_ifs at hn with hlt
        exact hlt
      · cases h
        exact hb
  | remove x =>
      cases h
      exact hb.remove hm x
  | replace range calls =>
      cases h
      obtain ⟨hc, hcov⟩ := ((replaceMap_working hm hfit).consume calls).2.drop
      exact hb.of_covers hm hc hu.2 fun y hy => (hcov y).mp hy
  | add other =>
      cases h
      have h := List.foldlRecOn (motive := fun m => Canon m ∧ Bounded m) other.entries
        (fun m p => (RangeSet.insertMap m ⟨p.1, p.2⟩).2) ⟨hm, hb⟩ fun m hI p hp =>
          ⟨(RangeSet.insertMap_spec hI.1 _).1, hI.2.insert hI.1 (hu p hp).2⟩
      exact h.2
  | subtract other =>
      cases h
      have h := List.foldlRecOn (motive := fun m => Canon m ∧ Bounded m) other.entries
        (fun m p => (RangeSet.removeMap m ⟨p.1, p.2⟩).2) ⟨hm, hb⟩ fun m hI p _ =>
          ⟨(RangeSet.removeMap_spec hI.1 _).1, hI.2.remove hI.1 _⟩
      exact h.2
  | popMin =>
      cases h
      rw [SetCall.apply]
      split
      · exact fun p hp => hb p (OrdMap.mem_erase.mp hp).1
      · exact hb

/-- What a run of calls that fit builds. -/
theorem built {calls : List SetCall} (hu : ∀ call ∈ calls, call.InRange)
    (hfit : Meets SetCall.step (fun m call => call.Fits m) ∅ calls) (hr : run SetCall.step ∅ calls = .ok m) :
    Canon m ∧ Bounded m := by
  refine run_inv (I := fun m => Canon m ∧ Bounded m) (fun m call m' hI hok hs => ?_)
    ⟨Canon.empty, fun p hp => by cases hp⟩ (hfit.and (Meets.of_forall hu)) hr
  refine ⟨?_, hI.2.step hI.1 hok.1 hok.2 hs⟩
  rw [SetCall.step_eq_ok hs]
  exact SetCall.apply_canon hI.1 hok.1

end Bounded

theorem walks_elts {m : OrdMap ℕ} (hm : Canon m) (hb : Bounded m) : Walks (elts m) (elements m) where
  nonempty := hm.nonempty
  sorted := m.sorted.imp_of_mem fun hp hq hpq => hm.apart _ hp _ hq hpq
  bounded := hb
  le := le_rfl
  lt := by simp only [elts]; omega
  place := .inl ⟨fun p _ => Nat.zero_le p.1, rfl⟩

/-- **When element iteration is lawful.** For a set that is built by calls that fit, the ascending list of its
elements is taken from both ends, each element once, if and only if at every call the current sub-range is used
up or lies at the end of the call. -/
theorem elements_lawful_iff {calls : List SetCall} {m : OrdMap ℕ} (hu : ∀ call ∈ calls, call.InRange)
    (hfit : Meets SetCall.step (fun m call => call.Fits m) ∅ calls) (hr : run SetCall.step ∅ calls = .ok m)
    (edges : List Edge) :
    ((elements m).Pairwise (· < ·) ∧ ∀ x, x ∈ elements m ↔ Covers m x) ∧
      (Edge.given .front edges (Edge.served edges (elements m)) ++ Edge.rest edges (elements m) ++
        (Edge.given .back edges (Edge.served edges (elements m))).reverse = elements m) ∧
      ((elts m).results edges = .ok (Edge.served edges (elements m)) ↔
        Meets EltIter.step EltIter.Agrees (elts m) edges) := by
  obtain ⟨hm, hb⟩ := built hu hfit hr
  exact ⟨⟨elements_sorted hm, fun x => mem_elements⟩, Edge.given_append edges _,
    (walks_elts hm hb).results_iff edges⟩

/-- The set `{0, 1, 5, 6}`. -/
def twoRuns : OrdMap ℕ := ⟨[(0, 2), (5, 7)], by simp⟩

/-- Two calls from the front use up the first run before the last one is begun from the back. -/
theorem elements_lawful_iff_two : (elts twoRuns).results [.front, .front, .back, .back, .back] =
    .ok [some 0, some 1, some 6, some 5, none] := by
  have hu : ∀ call ∈ [SetCall.insert ⟨0, 2⟩, .insert ⟨5, 7⟩], call.InRange := by simp [SetCall.InRange]
  have hfit : Meets SetCall.step (fun m call => call.Fits m) ∅ [.insert ⟨0, 2⟩, .insert ⟨5, 7⟩] :=
    ⟨trivial, fun _ _ => ⟨trivial, fun _ _ => trivial⟩⟩
  have h := elements_lawful_iff (m := twoRuns) hu hfit (by decide) [.front, .front, .back, .back, .back]
  exact h.2.2.mpr (by decide)

/-- The run that `next` began gives `next_back` its last element, although `6` has not been returned. -/
theorem elements_cross : run SetCall.step ∅ [.insert ⟨0, 2⟩, .insert ⟨5, 7⟩] = .ok twoRuns ∧
    (elts twoRuns).results [.front, .back] = .ok [some 0, some 1] ∧
    Edge.served [.front, .back] (elements twoRuns) = [some 0, some 6] := by
  decide

end MzQuic
