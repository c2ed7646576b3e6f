import Mathlib.Order.Defs.LinearOrder
import Mathlib.Tactic

/-!
# Waiting lines with priorities

A line is the list of those who wait, in the order in which they came. `popFirst` serves the first one of the
greatest priority.

* `popFirst_append`: whom it serves, and that the others keep their order;
* `popFirst_eq_none`: it serves someone unless the line is empty.
-/

universe u v

namespace Lib

variable {α : Type u} {P : Type v} [LinearOrder P] (prio : α → P)

/-- Take the first entry of the greatest priority out of a line. -/
def popFirst : List α → Option (α × List α)
  | [] => none
  | x :: xs =>
    match popFirst xs with
    | none => some (x, [])
    | some (m, rest) => if prio x < prio m then some (m, x :: rest) else some (x, xs)

variable {prio} {l before after rest : List α} {x : α}

theorem popFirst_eq_none : popFirst prio l = none ↔ l = [] := by
  cases l with
  | nil => exact iff_of_true rfl rfl
  | cons y ys =>
      refine iff_of_false (fun h => ?_) (List.cons_ne_nil y ys)
      unfold popFirst at h
      split at h
      · cases h
      · split_ifs at h

theorem mem_of_popFirst (h : popFirst prio l = some (x, rest)) : x ∈ l := by
  induction l generalizing rest with
  | nil => cases h
  | cons y ys ih =>
      unfold popFirst at h
      split at h
      · cases h
        exact List.mem_cons_self
      · rename_i m r hm
        split_ifs at h
        · cases h
          exact List.mem_cons_of_mem y (ih hm)
        · cases h
          exact List.mem_cons_self

/-- **Whom a line serves**: those before have a lower priority, those after no higher one. -/
theorem popFirst_append (hb : ∀ y ∈ before, prio y < prio x) (ha : ∀ y ∈ after, prio y ≤ prio x) :
    popFirst prio (before ++ x :: after) = some (x, before ++ after) := by
  induction before with
  | nil =>
      rw [List.nil_append, List.nil_append, popFirst]
      cases hp : popFirst prio after with
      | none => rw [popFirst_eq_none.mp hp]
      | some q => exact if_neg (not_lt.mpr (ha q.1 (mem_of_popFirst hp)))
  | cons b bs ih =>
      rw [List.cons_append, popFirst, ih fun y hy => hb y (List.mem_cons_of_mem b hy)]
      exact if_pos (hb b List.mem_cons_self)

end Lib
