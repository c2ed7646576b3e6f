import MzQuic.Lib.Run

/-!
# Machines that are given each other's outputs

Machines in pairs. In each step one of them acts, and what it may do depends on the state of its
partner: it may be given anything that the partner has put out so far, in any order, more than once,
or never.

* `Exchange`: the machine, and what the state of its partner allows it to do;
* `Exchange.Legal`, `Exchange.step`: one of the machines acts;
* **`Exchange.run_inv`**: what each machine keeps by itself, and what it knows of its partner, along every run
  in which the machines act in any order.
-/

universe u v

namespace Lib

/-- Machines in pairs, of which each acts as its partner allows. -/
structure Exchange (I S : Type u) (A : Type v) where
  partner : I → I
  partner_partner : ∀ i, partner (partner i) = i
  partner_ne : ∀ i, partner i ≠ i
  act : S → A → Checked S
  /-- The partner in this state allows the action. -/
  allows : S → A → Prop

namespace Exchange

variable {I S : Type u} {A : Type v} (e : Exchange I S A)

/-- Its partner allows the action, and `ok` holds of it and of both states. -/
def Legal (ok : S → S → A → Prop) (f : I → S) (a : I × A) : Prop :=
  e.allows (f (e.partner a.1)) a.2 ∧ ok (f a.1) (f (e.partner a.1)) a.2

instance {ok : S → S → A → Prop} [∀ s a, Decidable (e.allows s a)] [∀ s t a, Decidable (ok s t a)] (f : I → S)
    (a : I × A) : Decidable (e.Legal ok f a) :=
  inferInstanceAs (Decidable (e.allows (f (e.partner a.1)) a.2 ∧ ok (f a.1) (f (e.partner a.1)) a.2))

variable {e} {ok ok' : S → S → A → Prop} {L : I → S → Prop} {V : I → S → S → Prop}

theorem Legal.mono {f : I → S} {a : I × A} (h : e.Legal ok f a) (hok : ∀ s t a, ok s t a → ok' s t a) :
    e.Legal ok' f a := ⟨h.1, hok _ _ _ h.2⟩

variable [DecidableEq I] (e)

/-- One of the machines acts. -/
def step (f : I → S) (a : I × A) : Checked (I → S) := do
  let s ← e.act (f a.1) a.2
  return Function.update f a.1 s

variable {e}

theorem step_eq_ok {f f' : I → S} {a : I × A} (h : e.step f a = .ok f') :
    ∃ s, e.act (f a.1) a.2 = .ok s ∧ f' = Function.update f a.1 s := by
  obtain ⟨s, hs, h⟩ := Checked.bind_eq_ok.mp h
  cases h
  exact ⟨s, hs, rfl⟩

/-- **Runs of machines that act in any order.** `L` is what a machine keeps by itself, and `V` is what it knows of its
partner. An action that the partner allows keeps what the one that acts knows, and what is known of it. -/
theorem run_inv (hown : ∀ i s t a s', L i s → ok s t a → e.act s a = .ok s' → L i s')
    (hview : ∀ i s t a s', L i s → L (e.partner i) t → V i s t → V (e.partner i) t s → e.allows t a → ok s t a →
      e.act s a = .ok s' → V i s' t ∧ V (e.partner i) t s')
    {f f' : I → S} {as : List (I × A)} (hL : ∀ i, L i (f i)) (hV : ∀ i, V i (f i) (f (e.partner i)))
    (hm : Meets e.step (e.Legal ok) f as) (hr : run e.step f as = .ok f') :
    ∀ i, L i (f' i) ∧ V i (f' i) (f' (e.partner i)) := by
  refine Lib.run_inv (I := fun f => ∀ i, L i (f i) ∧ V i (f i) (f (e.partner i))) ?_
    (fun i => ⟨hL i, hV i⟩) hm hr
  intro f a f' hI hok h
  obtain ⟨s', hs, rfl⟩ := step_eq_ok h
  obtain ⟨i, a⟩ := a
  dsimp only at hs
  have hpartner : Function.update f i s' (e.partner i) = f (e.partner i) :=
    Function.update_of_ne (e.partner_ne i) _ _
  have hback := (hI (e.partner i)).2
  rw [e.partner_partner] at hback
  obtain ⟨hmine, htheirs⟩ := hview i _ _ a s' (hI i).1 (hI (e.partner i)).1 (hI i).2 hback hok.1 hok.2 hs
  intro j
  by_cases hj : j = i
  · subst hj
    rw [Function.update_self, hpartner]
    exact ⟨hown j _ _ a s' (hI j).1 hok.2 hs, hmine⟩
  · rw [Function.update_of_ne hj]
    refine ⟨(hI j).1, ?_⟩
    by_cases hp : e.partner j = i
    · obtain rfl : j = e.partner i := by rw [← hp, e.partner_partner]
      rw [hp, Function.update_self]
      exact htheirs
    · rw [Function.update_of_ne hp]
      exact (hI j).2

end Exchange

end Lib
