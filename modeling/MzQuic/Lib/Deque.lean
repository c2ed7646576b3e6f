import Mathlib.Tactic

/-!
# Taking a list from both ends

* `take`: the first or the last entry, and the others;
* `served`: what a sequence of calls from the two ends returns, `rest`: what they leave;
* `given edge`: the entries that the calls at one end returned;
* **`given_append`**: those from the front, what is left, and those from the back in reverse are the list.
-/

universe u

namespace Lib

/-- An end of a list. -/
inductive Edge
  | front
  | back
  deriving DecidableEq, Repr

namespace Edge

variable {α : Type u}

/-- Take the entry at one end. -/
def take : Edge → List α → Option α × List α
  | front, l => (l.head?, l.tail)
  | back, l => (l.getLast?, l.dropLast)

/-- The results of calls from the two ends. -/
def served : List Edge → List α → List (Option α)
  | [], _ => []
  | edge :: edges, l => (edge.take l).1 :: served edges (edge.take l).2

/-- What calls from the two ends leave. -/
def rest : List Edge → List α → List α
  | [], l => l
  | edge :: edges, l => rest edges (edge.take l).2

/-- The entries among the results of the calls at one end. -/
def given (edge : Edge) : List Edge → List (Option α) → List α
  | s :: edges, result :: results => (if s = edge then result.toList else []) ++ given edge edges results
  | _, _ => []

/-- **Nothing is returned twice and nothing is left out.** -/
theorem given_append (edges : List Edge) (l : List α) :
    given .front edges (served edges l) ++ rest edges l ++ (given .back edges (served edges l)).reverse = l := by
  induction edges generalizing l with
  | nil => simp [given, rest]
  | cons edge edges ih =>
      have h := ih (edge.take l).2
      rw [served, rest, given, given]
      cases edge with
      | front =>
          rw [if_pos rfl, if_neg (by decide), List.nil_append, List.append_assoc, List.append_assoc,
            ← List.append_assoc _ (rest _ _), h]
          cases l <;> rfl
      | back =>
          rw [if_neg (by decide), if_pos rfl, List.nil_append, List.reverse_append, ← List.append_assoc, h]
          rcases List.eq_nil_or_concat l with rfl | ⟨l, x, rfl⟩
          · rfl
          · simp [take]

end Edge

end Lib
