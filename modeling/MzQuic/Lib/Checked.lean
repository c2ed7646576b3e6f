import Mathlib.Tactic

/-!
# Computations that may panic

Checked code either returns a value or aborts. `Checked α` is `Except Panic α`, where `Panic`
records the cause; arithmetic on unsigned integers is arithmetic on `ℕ` with an explicit test
wherever a subtraction could go below zero.

* `sub`, `assert`: the two primitive sources of a panic, with `sub_eq_ok`, `assert_eq_ok`; `add` and
  `mul` test against a width;
* `bind_eq_ok`: a sequence is taken apart at its first step;
* `Avoids p x Q`: `x` does not panic with `p`, and `Q` holds of what it returns; the rules follow
  the way `x` is put together.
-/

universe u

namespace Lib

/-- Why a computation aborts. -/
inductive Panic
  /-- An integer left its range. -/
  | overflow
  /-- `assert!` or `debug_assert!` was violated. -/
  | assertion
  /-- `unreachable!` was reached. -/
  | unreachable
  /-- An index or a slice bound was out of range. -/
  | slice
  /-- `unwrap` was applied to an absent value. -/
  | unwrap
  /-- A write needed more room than the output buffer had left. -/
  | capacity
  /-- `unimplemented!` was reached. -/
  | unimplemented
  /-- `panic!` was called. -/
  | explicit
  deriving DecidableEq, Repr

/-- A computation that returns a value or panics. -/
abbrev Checked (α : Type u) := Except Panic α

namespace Checked

variable {α β : Type u}

/-- Checked subtraction. -/
def sub (a b : ℕ) : Checked ℕ := if b ≤ a then .ok (a - b) else .error .overflow

/-- Checked addition of integers of `w` bits. -/
def add (w a b : ℕ) : Checked ℕ := if a + b < 2 ^ w then .ok (a + b) else .error .overflow

/-- Checked multiplication of integers of `w` bits. -/
def mul (w a b : ℕ) : Checked ℕ := if a * b < 2 ^ w then .ok (a * b) else .error .overflow

/-- `assert!(p)`. -/
def assert (p : Prop) [Decidable p] : Checked Unit := if p then .ok () else .error .assertion

@[simp] theorem ok_bind (a : α) (f : α → Checked β) : (Except.ok a >>= f) = f a := rfl

@[simp] theorem error_bind (p : Panic) (f : α → Checked β) :
    ((Except.error p : Checked α) >>= f) = .error p := rfl

@[simp] theorem pure_eq (a : α) : (pure a : Checked α) = .ok a := rfl

theorem bind_eq_ok {x : Checked α} {f : α → Checked β} {b : β} :
    (x >>= f) = .ok b ↔ ∃ a, x = .ok a ∧ f a = .ok b := by
  cases x with
  | error p => simp
  | ok a => simp

/-- A sequence returns if its parts do. -/
theorem exists_bind {x : Checked α} {f : α → Checked β} (hx : ∃ a, x = .ok a)
    (hf : ∀ a, x = .ok a → ∃ b, f a = .ok b) : ∃ b, (x >>= f) = .ok b := by
  obtain ⟨a, ha⟩ := hx
  rw [ha]
  exact hf a ha

/-- Values that cannot be compared are compared by what `g` shows of them. -/
theorem map_eq_ok {g : α → β} {x : Checked α} {b : β} : g <$> x = .ok b ↔ ∃ a, x = .ok a ∧ g a = b := by
  cases x with
  | error p => simp
  | ok a => simp

theorem sub_of_le {a b : ℕ} (h : b ≤ a) : sub a b = .ok (a - b) := if_pos h

theorem sub_eq_ok {a b c : ℕ} : sub a b = .ok c ↔ b ≤ a ∧ c = a - b := by
  unfold sub
  split_ifs with h
  · simp only [Except.ok.injEq, h, true_and]; exact eq_comm
  · simp [h]

theorem add_of_lt {w a b : ℕ} (h : a + b < 2 ^ w) : add w a b = .ok (a + b) := if_pos h

theorem mul_of_lt {w a b : ℕ} (h : a * b < 2 ^ w) : mul w a b = .ok (a * b) := if_pos h

theorem assert_of {p : Prop} [Decidable p] (h : p) : assert p = .ok () := if_pos h

theorem assert_eq_ok {p : Prop} [Decidable p] {u : Unit} : assert p = .ok u ↔ p := by
  unfold assert
  split_ifs with h <;> simp [h]

/-- The panic of a computation, which can be compared even if its values cannot. -/
def panic? : Checked α → Option Panic
  | .ok _ => none
  | .error p => some p

theorem panic?_eq_some {x : Checked α} {p : Panic} : x.panic? = some p ↔ x = .error p := by
  cases x with
  | ok a => simp [panic?]
  | error q => simp [panic?]

/-! ## Avoiding a panic -/

/-- The computation does not panic with `p`, and `Q` holds of what it returns. -/
def Avoids (p : Panic) (x : Checked α) (Q : α → Prop) : Prop := x ≠ .error p ∧ ∀ a, x = .ok a → Q a

section Avoids

variable {p : Panic} {Q : α → Prop} {R : β → Prop}

theorem Avoids.ok {a : α} (h : Q a) : Avoids p (.ok a) Q :=
  ⟨by simp, fun b hb => by cases hb; exact h⟩

theorem Avoids.error {q : Panic} (h : q ≠ p) : Avoids p (.error q : Checked α) Q :=
  ⟨fun e => h (Except.error.inj e), fun a ha => by cases ha⟩

theorem Avoids.bind {x : Checked α} {f : α → Checked β} (hx : Avoids p x Q)
    (hf : ∀ a, Q a → Avoids p (f a) R) : Avoids p (x >>= f) R := by
  cases x with
  | error q => exact .error fun h => hx.1 (by rw [h])
  | ok a => exact hf a (hx.2 a rfl)

theorem Avoids.mono {Q' : α → Prop} {x : Checked α} (hx : Avoids p x Q) (h : ∀ a, Q a → Q' a) :
    Avoids p x Q' := ⟨hx.1, fun a ha => h a (hx.2 a ha)⟩

/-- What is known of the value that is returned may be used. -/
theorem Avoids.and_eq {x : Checked α} (hx : Avoids p x Q) : Avoids p x fun a => Q a ∧ x = .ok a :=
  ⟨hx.1, fun a ha => ⟨hx.2 a ha, ha⟩⟩

theorem Avoids.ite {c : Prop} [Decidable c] {x y : Checked α} (hx : c → Avoids p x Q)
    (hy : ¬ c → Avoids p y Q) : Avoids p (if c then x else y) Q := by
  split_ifs with h
  · exact hx h
  · exact hy h

theorem avoids_sub (hp : p ≠ .overflow) (a b : ℕ) : Avoids p (sub a b) fun c => b ≤ a ∧ c = a - b := by
  unfold sub
  exact .ite (fun h => .ok ⟨h, rfl⟩) fun _ => .error hp.symm

theorem avoids_assert (hp : p ≠ .assertion) (c : Prop) [Decidable c] :
    Avoids p (assert c) fun _ => c := by
  unfold assert
  exact .ite (fun h => .ok h) fun _ => .error hp.symm

end Avoids

end Checked

end Lib
