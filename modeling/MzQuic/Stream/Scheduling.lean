import MzQuic.Lib.Fifo
import MzQuic.Stream.Transmit

/-!
# Stream scheduling is priority-first and round-robin (`core/src/connection/stream/state.rs`)

The heap orders its entries by priority and a counter that goes down with every push. What it stands for is a
line in the order of the pushes, from which the first entry of the greatest priority is served.

* `QueueCall`, `PendingStreamsQueue.after`: runs of pushes and pops; `waiting`: the line after a run;
* `popMax_greatest`: the heap returns a maximum of the derived order;
* `InLine q l`: the heap holds the entries of the line `l`, whose counters descend; `InLine.push`, `InLine.pop`:
  every call keeps it, and the heap serves whom the line serves;
* **`pending_streams_round_robin`**: after every run the two agree, and a stream that is pushed again after
  being served comes after every other one of its priority.
-/

namespace MzQuic

open Lib

/-! ## A maximum of the heap -/

theorem PendingStream.lt_iff {a b : PendingStream} : a.lt b = true ↔ a.priority < b.priority ∨
    (a.priority = b.priority ∧ (a.recency < b.recency ∨ (a.recency = b.recency ∧ a.id.val < b.id.val))) := by
  simp [PendingStream.lt]

/-- **What is popped is a maximum of the derived order.** -/
theorem popMax_greatest {l rest : List PendingStream} {x : PendingStream} (h : popMax l = some (x, rest)) :
    ∀ y ∈ l, x.lt y = false := by
  induction l generalizing x rest with
  | nil => cases h
  | cons z zs ih =>
      unfold popMax at h
      cases hp : popMax zs with
      | none =>
          rw [hp] at h
          cases h
          rw [popMax_eq_none hp]
          intro y hy
          rw [List.mem_singleton.mp hy, Bool.eq_false_iff, ne_eq, PendingStream.lt_iff]
          omega
      | some q =>
          obtain ⟨m, r⟩ := q
          rw [hp] at h
          have hm := ih hp
          dsimp only at h
          split_ifs at h with hlt <;> cases h <;> intro y hy
          · rcases List.mem_cons.mp hy with rfl | hy
            · rw [Bool.eq_false_iff, ne_eq, PendingStream.lt_iff]
              rw [PendingStream.lt_iff] at hlt
              omega
            · exact hm y hy
          · rw [Bool.eq_false_iff, ne_eq, PendingStream.lt_iff]
            rcases List.mem_cons.mp hy with rfl | hy
            · omega
            · have hmy := hm y hy
              rw [Bool.eq_false_iff, ne_eq, PendingStream.lt_iff] at hmy
              rw [PendingStream.lt_iff] at hlt
              omega

/-! ## Runs -/

/-- A call on the queue. -/
inductive QueueCall
  | push (id : StreamId) (priority : ℤ)
  | pop
  deriving DecidableEq

/-- The number of pushes. -/
def pushes (calls : List QueueCall) : ℕ := calls.countP fun c => c ≠ .pop

namespace PendingStreamsQueue

/-- The queue after a call. -/
def call (q : PendingStreamsQueue) : QueueCall → PendingStreamsQueue
  | .push id priority => q.pushPending id priority
  | .pop =>
    match q.pop with
    | none => q
    | some (_, q') => q'

/-- The queue after the calls. -/
def after (q : PendingStreamsQueue) (calls : List QueueCall) : PendingStreamsQueue := calls.foldl call q

end PendingStreamsQueue

/-- A line of streams: their priorities and ids, in the order in which they were pushed. -/
abbrev Line := List (ℤ × StreamId)

/-- The line after a call. -/
def Line.call (l : Line) : QueueCall → Line
  | .push id priority => l ++ [(priority, id)]
  | .pop =>
    match popFirst Prod.fst l with
    | none => l
    | some (_, rest) => rest

/-- The streams that wait after the calls. -/
def waiting (calls : List QueueCall) : Line := calls.foldl Line.call []

theorem waiting_append (as bs : List QueueCall) : waiting (as ++ bs) = bs.foldl Line.call (waiting as) :=
  List.foldl_append

/-! ## The heap is a line -/

/-- What the line knows of an entry. -/
def PendingStream.place (x : PendingStream) : ℤ × StreamId := (x.priority, x.id)

/-- The heap holds entries that stand in the line in this order, the counter of each below that of the one
before it, and none below the next one to be given. -/
structure InLine (q : PendingStreamsQueue) (l : List PendingStream) : Prop where
  next : q.next = none
  perm : q.streams.Perm l
  order : l.Pairwise fun a b => b.recency < a.recency
  recency : ∀ x ∈ l, q.recency ≤ x.recency

namespace InLine

variable {q q' : PendingStreamsQueue} {l : List PendingStream} {x : PendingStream}

theorem new : InLine PendingStreamsQueue.new [] where
  next := rfl
  perm := .refl _
  order := .nil
  recency _ hx := absurd hx List.not_mem_nil

theorem entries (h : InLine q l) : q.entries = q.streams := by
  rw [PendingStreamsQueue.entries, h.next]
  rfl

/-- **What is pushed stands last.** -/
theorem push (h : InLine q l) (id : StreamId) (priority : ℤ) :
    InLine (q.pushPending id priority) (l ++ [⟨priority, q.recency - 1, id⟩]) where
  next := h.next
  perm := (h.perm.cons _).trans (List.perm_append_singleton _ _).symm
  order := by
    refine List.pairwise_append.mpr ⟨h.order, List.pairwise_singleton _ _, fun a ha b hb => ?_⟩
    have hle := h.recency a ha
    rw [List.mem_singleton.mp hb]
    dsimp only
    omega
  recency y hy := by
    simp only [PendingStreamsQueue.pushPending]
    rcases List.mem_append.mp hy with hy | hy
    · have hle := h.recency y hy
      omega
    · rw [List.mem_singleton.mp hy]

/-- **Who is popped**: those before have a lower priority, those after no higher one, and they keep their
places. -/
theorem pop (h : InLine q l) (hp : q.pop = some (x, q')) : ∃ before after, l = before ++ x :: after ∧
    (∀ y ∈ before, y.priority < x.priority) ∧ (∀ y ∈ after, y.priority ≤ x.priority) ∧
    InLine q' (before ++ after) := by
  unfold PendingStreamsQueue.pop at hp
  rw [h.next] at hp
  obtain ⟨⟨m, rest⟩, hm, he⟩ := Option.map_eq_some_iff.mp hp
  dsimp only at he
  cases he
  have hperm := (popMax_perm hm).symm.trans h.perm
  obtain ⟨before, after, rfl⟩ := List.append_of_mem (hperm.subset List.mem_cons_self)
  -- no other entry is greater
  have hmax : ∀ y ∈ before ++ x :: after, y.priority < x.priority ∨
      (y.priority = x.priority ∧ y.recency ≤ x.recency) := by
    intro y hy
    have hlt := popMax_greatest hm y (h.perm.symm.subset hy)
    rw [Bool.eq_false_iff, ne_eq, PendingStream.lt_iff] at hlt
    omega
  obtain ⟨hb, hxa, hcross⟩ := List.pairwise_append.mp h.order
  refine ⟨before, after, rfl, fun y hy => ?_, fun y hy => ?_, ⟨rfl, ?_, ?_, fun y hy => ?_⟩⟩
  · have hrec := hcross y hy x List.mem_cons_self
    have hle := hmax y (List.mem_append_left _ hy)
    omega
  · have hle := hmax y (List.mem_append_right _ (List.mem_cons_of_mem x hy))
    omega
  · exact (hperm.trans List.perm_middle).cons_inv
  · exact List.pairwise_append.mpr ⟨hb, (List.pairwise_cons.mp hxa).2,
      fun a ha b hb' => hcross a ha b (List.mem_cons_of_mem x hb')⟩
  · refine h.recency y ?_
    rcases List.mem_append.mp hy with hy | hy
    · exact List.mem_append_left _ hy
    · exact List.mem_append_right _ (List.mem_cons_of_mem x hy)

theorem pop_none (h : InLine q l) (hp : q.pop = none) : l = [] := by
  have hnil := PendingStreamsQueue.pop_eq_none hp
  rw [h.entries] at hnil
  have hperm := h.perm
  rw [hnil] at hperm
  exact hperm.symm.eq_nil

/-- The line serves whom the heap serves. -/
theorem popFirst_place {before after : List PendingStream} (hb : ∀ y ∈ before, y.priority < x.priority)
    (ha : ∀ y ∈ after, y.priority ≤ x.priority) :
    popFirst Prod.fst ((before ++ x :: after).map PendingStream.place) =
      some (x.place, (before ++ after).map PendingStream.place) := by
  rw [List.map_append, List.map_cons, List.map_append]
  refine popFirst_append (fun y hy => ?_) fun y hy => ?_
  · obtain ⟨z, hz, rfl⟩ := List.mem_map.mp hy
    exact hb z hz
  · obtain ⟨z, hz, rfl⟩ := List.mem_map.mp hy
    exact ha z hz

/-- **One call** keeps the heap a line. -/
theorem call (h : InLine q l) (c : QueueCall) :
    ∃ l', InLine (q.call c) l' ∧ l'.map PendingStream.place = Line.call (l.map PendingStream.place) c := by
  cases c with
  | push id priority => exact ⟨_, h.push id priority, by simp [Line.call, PendingStream.place]⟩
  | pop =>
      unfold PendingStreamsQueue.call
      cases hp : q.pop with
      | none =>
          refine ⟨l, h, ?_⟩
          rw [h.pop_none hp]
          rfl
      | some p =>
          obtain ⟨x, q'⟩ := p
          obtain ⟨before, after, rfl, hb, ha, h'⟩ := h.pop hp
          refine ⟨before ++ after, h', ?_⟩
          unfold Line.call
          rw [popFirst_place hb ha]

/-- **Every run** keeps the heap a line. -/
theorem after (calls : List QueueCall) (h : InLine q l) : ∃ l', InLine (q.after calls) l' ∧
    l'.map PendingStream.place = calls.foldl Line.call (l.map PendingStream.place) := by
  induction calls generalizing q l with
  | nil => exact ⟨l, h, rfl⟩
  | cons c cs ih =>
      obtain ⟨l₁, h₁, he⟩ := h.call c
      obtain ⟨l₂, h₂, he₂⟩ := ih h₁
      exact ⟨l₂, h₂, by rw [he₂, he]; rfl⟩

end InLine

/-- The counter goes down by one with every push. -/
theorem recency_after (calls : List QueueCall) (q : PendingStreamsQueue) :
    (q.after calls).recency = q.recency - pushes calls := by
  induction calls generalizing q with
  | nil => simp [PendingStreamsQueue.after, pushes]
  | cons c cs ih =>
      have hcall : (q.call c).recency = q.recency - pushes [c] := by
        cases c with
        | push id priority => rfl
        | pop =>
            simp only [PendingStreamsQueue.call, PendingStreamsQueue.pop]
            cases q.next with
            | some x => simp [pushes]
            | none => cases popMax q.streams <;> simp [pushes]
      have hsum : pushes (c :: cs) = pushes [c] + pushes cs := by
        simp only [pushes, ← List.countP_append, List.singleton_append]
      show ((q.call c).after cs).recency = _
      rw [ih, hcall, hsum]
      push_cast
      ring

/-- **Stream scheduling is priority-first and round-robin.** After every run of pushes and pops: the heap holds the
streams that wait in line, where each push adds one at the end; the counter does not underflow in fewer than 2^64
pushes; a pop returns nothing only if nobody waits; otherwise it returns a stream of the greatest priority, and
among those the first one in the line, and the others keep their order; and if the stream is pushed again, it
stands behind all of them. -/
theorem pending_streams_round_robin (calls : List QueueCall) :
    let q := PendingStreamsQueue.new.after calls
    (q.entries.map PendingStream.place).Perm (waiting calls) ∧
    (pushes calls < 2 ^ 64 → 0 ≤ q.recency) ∧
    (∀ id priority, waiting (calls ++ [.push id priority]) = waiting calls ++ [(priority, id)]) ∧
    (q.pop = none → waiting calls = []) ∧
    ∀ x q', q.pop = some (x, q') → ∃ before after : Line, waiting calls = before ++ x.place :: after ∧
      (∀ y ∈ before, y.1 < x.priority) ∧ (∀ y ∈ after, y.1 ≤ x.priority) ∧
      waiting (calls ++ [.pop]) = before ++ after ∧
      waiting (calls ++ [.pop, .push x.id x.priority]) = before ++ after ++ [x.place] := by
  obtain ⟨l, h, he⟩ := InLine.new.after calls
  have hw : l.map PendingStream.place = waiting calls := he
  refine ⟨?_, fun hlt => ?_, fun id priority => waiting_append calls _, fun hp => ?_, fun x q' hp => ?_⟩
  · rw [h.entries, ← hw]
    exact h.perm.map _
  · rw [recency_after]
    simp only [PendingStreamsQueue.new]
    omega
  · rw [← hw, h.pop_none hp]
    rfl
  · obtain ⟨before, after, rfl, hb, ha, -⟩ := h.pop hp
    have hserve := InLine.popFirst_place hb ha
    rw [hw] at hserve
    have hpop : Line.call (waiting calls) .pop = (before ++ after).map PendingStream.place := by
      unfold Line.call
      rw [hserve]
    refine ⟨before.map PendingStream.place, after.map PendingStream.place, ?_, fun y hy => ?_, fun y hy => ?_,
      ?_, ?_⟩
    · rw [← hw, List.map_append, List.map_cons]
    · obtain ⟨z, hz, rfl⟩ := List.mem_map.mp hy
      exact hb z hz
    · obtain ⟨z, hz, rfl⟩ := List.mem_map.mp hy
      exact ha z hz
    · rw [waiting_append, List.foldl_cons, List.foldl_nil, hpop, List.map_append]
    · rw [waiting_append, List.foldl_cons, List.foldl_cons, List.foldl_nil, hpop, List.map_append]
      rfl

end MzQuic
