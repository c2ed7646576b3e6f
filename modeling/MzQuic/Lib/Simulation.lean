import MzQuic.Lib.Run

/-!
# Simulation by runs

A change of a concrete state is matched by a run of an abstract machine: from every abstract state that
is related to the state before, actions that `ok` admits, each in the state in which it is taken, lead to one
that is related to the state after.

* `Follows`: one change;
* `Follows.refl`, `Follows.trans`, `Follows.act`, `Follows.mono`: how changes compose;
* `Follows.transport`: what the abstract machine keeps holds of a related state afterwards.
-/

universe u v w

namespace Lib

section Follows

variable {S : Type u} {T : Type v} {B : Type w} (step : T → B → Checked T) (ok : T → B → Prop)
  (R : S → T → Prop)

/-- The change from `s` to `s'` is matched by actions that `ok` admits. -/
def Follows (s s' : S) : Prop :=
  ∀ t, R s t → ∃ bs t', Meets step ok t bs ∧ run step t bs = .ok t' ∧ R s' t'

variable {step ok R} {ok' : T → B → Prop} {s s₁ s₂ s₃ : S}

/-- No action. -/
theorem Follows.of_rel (h : ∀ t, R s₁ t → R s₂ t) : Follows step ok R s₁ s₂ :=
  fun t ht => ⟨[], t, trivial, rfl, h t ht⟩

theorem Follows.refl (s : S) : Follows step ok R s s := .of_rel fun _ h => h

theorem Follows.trans (h : Follows step ok R s₁ s₂) (h' : Follows step ok R s₂ s₃) :
    Follows step ok R s₁ s₃ := by
  intro t ht
  obtain ⟨bs, t₁, hm, hr, ht₁⟩ := h t ht
  obtain ⟨bs', t₂, hm', hr', ht₂⟩ := h' t₁ ht₁
  refine ⟨bs ++ bs', t₂, hm.append hr hm', ?_, ht₂⟩
  rw [run_append, hr]
  exact hr'

theorem Follows.mono (h : Follows step ok R s₁ s₂) (hok : ∀ t b, ok t b → ok' t b) :
    Follows step ok' R s₁ s₂ := by
  intro t ht
  obtain ⟨bs, t', hm, rest⟩ := h t ht
  exact ⟨bs, t', hm.mono hok, rest⟩

/-- One action. -/
theorem Follows.act (b : B) (h : ∀ t, R s₁ t → ok t b ∧ ∃ t', step t b = .ok t' ∧ R s₂ t') :
    Follows step ok R s₁ s₂ := by
  intro t ht
  obtain ⟨hok, t', hs, ht'⟩ := h t ht
  refine ⟨[b], t', .cons hok hs trivial, ?_, ht'⟩
  rw [run_cons, hs]
  rfl

/-- **What the abstract machine keeps.** -/
theorem Follows.transport {J : T → Prop} (h : Follows step ok R s₁ s₂)
    (hJ : ∀ t b t', J t → ok t b → step t b = .ok t' → J t') {t : T} (ht : R s₁ t) (hj : J t) :
    ∃ t', R s₂ t' ∧ J t' := by
  obtain ⟨bs, t', hm, hr, ht'⟩ := h t ht
  exact ⟨t', ht', run_inv hJ hj hm hr⟩

end Follows

end Lib
