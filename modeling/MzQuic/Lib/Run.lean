import MzQuic.Lib.Checked

/-!
# Runs of a step function that may panic

`run step s as` takes the actions `as` in order, starting from `s`, and stops at the first panic.
`Meets step ok s as` says that every action is taken in a state where `ok` holds of it: the
condition is on the state *before* the step.

* `run_total`: a step that cannot panic under `ok` and keeps `I` gives runs that cannot panic
  under `ok` and end in `I`;
* `run_inv`: a step that keeps `I` when it returns gives runs that keep `I` when they return;
* `forall_reached_iff`, `forall_returns_iff`: what holds of every state a run reaches, and that it reaches
  them, as a condition on its actions;
* `Meets.congr_inv`: conditions that agree under an invariant admit the same runs;
* `run_avoids`: no step panics with `p`, so no run does.
-/

universe u v

namespace Lib

section Run

variable {S : Type u} {A : Type v} (step : S → A → Checked S)

/-- Take the actions in order. -/
def run : S → List A → Checked S
  | s, [] => .ok s
  | s, a :: as => step s a >>= fun s' => run s' as

/-- Every action of the run is taken in a state that admits it. -/
def Meets (ok : S → A → Prop) : S → List A → Prop
  | _, [] => True
  | s, a :: as => ok s a ∧ ∀ s', step s a = .ok s' → Meets ok s' as

theorem run_cons (s : S) (a : A) (as : List A) :
    run step s (a :: as) = step s a >>= fun s' => run step s' as := rfl

theorem run_append (s : S) (as bs : List A) :
    run step s (as ++ bs) = run step s as >>= fun s' => run step s' bs := by
  induction as generalizing s with
  | nil => rfl
  | cons a as ih =>
      rw [List.cons_append, run_cons, run_cons]
      cases step s a with
      | error p => rfl
      | ok s' => exact ih s'

variable {step} {ok : S → A → Prop} {I : S → Prop}

theorem Meets.cons {s s' : S} {a : A} {as : List A} (h : ok s a) (hs : step s a = .ok s')
    (hm : Meets step ok s' as) : Meets step ok s (a :: as) :=
  ⟨h, fun t ht => by rw [hs] at ht; cases ht; exact hm⟩

instance Meets.decidable [∀ s a, Decidable (ok s a)] :
    ∀ (s : S) (as : List A), Decidable (Meets step ok s as)
  | _, [] => .isTrue trivial
  | s, a :: as =>
    match h : step s a with
    | .error _ => decidable_of_iff (ok s a)
        ⟨fun hk => ⟨hk, fun s' hs => by rw [h] at hs; cases hs⟩, fun hm => hm.1⟩
    | .ok s' =>
        have := Meets.decidable s' as
        decidable_of_iff (ok s a ∧ Meets step ok s' as)
          ⟨fun hk => Meets.cons hk.1 h hk.2, fun hm => ⟨hm.1, hm.2 s' h⟩⟩

/-- The rest of a run whose beginning returns. -/
theorem Meets.of_append {s s' : S} {as bs : List A} (hm : Meets step ok s (as ++ bs))
    (hr : run step s as = .ok s') : Meets step ok s' bs := by
  induction as generalizing s with
  | nil =>
      cases hr
      exact hm
  | cons a as ih =>
      obtain ⟨t, ht, hr⟩ := Checked.bind_eq_ok.mp hr
      exact ih (hm.2 t ht) hr

/-- The beginning of a run. -/
theorem Meets.left {s : S} {as bs : List A} (hm : Meets step ok s (as ++ bs)) : Meets step ok s as := by
  induction as generalizing s with
  | nil => trivial
  | cons a as ih => exact ⟨hm.1, fun s' hs => ih (hm.2 s' hs)⟩

/-- A run that goes on. -/
theorem Meets.append {s s' : S} {as bs : List A} (hm : Meets step ok s as) (hr : run step s as = .ok s')
    (hm' : Meets step ok s' bs) : Meets step ok s (as ++ bs) := by
  induction as generalizing s with
  | nil =>
      cases hr
      exact hm'
  | cons a as ih =>
      obtain ⟨t, ht, hr⟩ := Checked.bind_eq_ok.mp hr
      exact .cons hm.1 ht (ih (hm.2 t ht) hr)

theorem Meets.mono {ok' : S → A → Prop} (h : ∀ s a, ok s a → ok' s a) {s : S} {as : List A}
    (hm : Meets step ok s as) : Meets step ok' s as := by
  induction as generalizing s with
  | nil => trivial
  | cons a as ih => exact ⟨h s a hm.1, fun s' hs => ih (hm.2 s' hs)⟩

theorem Meets.and {ok' : S → A → Prop} {s : S} {as : List A} (h : Meets step ok s as)
    (h' : Meets step ok' s as) : Meets step (fun s a => ok s a ∧ ok' s a) s as := by
  induction as generalizing s with
  | nil => trivial
  | cons a as ih => exact ⟨⟨h.1, h'.1⟩, fun s' hs => ih (h.2 s' hs) (h'.2 s' hs)⟩

/-- A condition on the action alone. -/
theorem Meets.of_forall {ok : A → Prop} {s : S} {as : List A} (h : ∀ a ∈ as, ok a) :
    Meets step (fun _ a => ok a) s as := by
  induction as generalizing s with
  | nil => trivial
  | cons a as ih =>
      exact ⟨h a List.mem_cons_self, fun s' _ => ih fun b hb => h b (List.mem_cons_of_mem a hb)⟩

/-- A condition that supposes what every action of the run meets. -/
theorem Meets.imp_iff {ok' : A → Prop} {s : S} {as : List A} (h : ∀ a ∈ as, ok' a) :
    Meets step (fun s a => ok' a → ok s a) s as ↔ Meets step ok s as := by
  constructor
  · exact fun hm => (hm.and (Meets.of_forall h)).mono fun _ _ h => h.1 h.2
  · intro hm
    refine hm.mono ?_
    exact fun _ _ h _ => h

theorem Meets.trivial (step : S → A → Checked S) (s : S) (as : List A) :
    Meets step (fun _ _ => True) s as := Meets.of_forall fun _ _ => True.intro

/-- **Invariance along guarded runs.** -/
theorem run_inv (hstep : ∀ s a s', I s → ok s a → step s a = .ok s' → I s') {s s' : S}
    {as : List A} (hs : I s) (hm : Meets step ok s as) (hr : run step s as = .ok s') : I s' := by
  induction as generalizing s with
  | nil => cases hr; exact hs
  | cons a as ih =>
      obtain ⟨t, ht, hr⟩ := Checked.bind_eq_ok.mp hr
      exact ih (hstep s a t hs hm.1 ht) (hm.2 t ht) hr

/-- Every state that a run reaches. -/
theorem forall_reached_iff {P : S → Prop} {s : S} {as : List A} :
    (∀ bs cs s', as = bs ++ cs → run step s bs = .ok s' → P s') ↔
      P s ∧ Meets step (fun s a => ∀ s', step s a = .ok s' → P s') s as := by
  induction as generalizing s with
  | nil =>
      refine ⟨fun h => ⟨h [] [] s rfl rfl, True.intro⟩, fun h bs cs s' hl hr => ?_⟩
      rw [(List.append_eq_nil_iff.mp hl.symm).1] at hr
      cases hr
      exact h.1
  | cons a as ih =>
      constructor
      · intro h
        refine ⟨h [] (a :: as) s rfl rfl, fun s' hs => ?_, fun s' hs => ?_⟩
        · exact h [a] as s' rfl (by rw [run_cons, hs]; rfl)
        · refine (ih.mp fun bs cs t hl hr => h (a :: bs) cs t (by rw [hl]; rfl) ?_).2
          rw [run_cons, hs]
          exact hr
      · rintro ⟨hP, ha, hm⟩ bs cs s' hl hr
        cases bs with
        | nil =>
            cases hr
            exact hP
        | cons b bs =>
            obtain ⟨rfl, rfl⟩ := List.cons.inj hl
            obtain ⟨t, ht, hr⟩ := Checked.bind_eq_ok.mp hr
            exact ih.mpr ⟨ha t ht, hm t ht⟩ bs cs s' rfl hr

/-- Every beginning of a run returns. -/
theorem forall_returns_iff {P : S → Prop} {s : S} {as : List A} :
    (∀ bs cs, as = bs ++ cs → ∃ s', run step s bs = .ok s' ∧ P s') ↔
      P s ∧ Meets step (fun s a => ∃ s', step s a = .ok s' ∧ P s') s as := by
  induction as generalizing s with
  | nil =>
      refine ⟨fun h => ⟨?_, True.intro⟩, fun h bs cs hl => ⟨s, ?_, h.1⟩⟩
      · obtain ⟨s', hr, hP⟩ := h [] [] rfl
        cases hr
        exact hP
      · rw [(List.append_eq_nil_iff.mp hl.symm).1]
        rfl
  | cons a as ih =>
      constructor
      · intro h
        obtain ⟨s₀, hr, hP⟩ := h [] (a :: as) rfl
        cases hr
        refine ⟨hP, ?_, fun s' hs => (ih.mp fun bs cs hl => ?_).2⟩
        · obtain ⟨s', hr, hP⟩ := h [a] as rfl
          obtain ⟨t, ht, hr⟩ := Checked.bind_eq_ok.mp hr
          cases hr
          exact ⟨s', ht, hP⟩
        · obtain ⟨t, hr, hP⟩ := h (a :: bs) cs (by rw [hl]; rfl)
          rw [run_cons, hs] at hr
          exact ⟨t, hr, hP⟩
      · rintro ⟨hP, ⟨t, ht, hPt⟩, hm⟩ bs cs hl
        cases bs with
        | nil => exact ⟨s, rfl, hP⟩
        | cons b bs =>
            obtain ⟨rfl, rfl⟩ := List.cons.inj hl
            obtain ⟨s', hr, hP'⟩ := ih.mpr ⟨hPt, hm t ht⟩ bs cs rfl
            exact ⟨s', by rw [run_cons, ht]; exact hr, hP'⟩

/-- **Guarded runs return.** -/
theorem run_total (hstep : ∀ s a, I s → ok s a → ∃ s', step s a = .ok s' ∧ I s') {s : S}
    {as : List A} (hs : I s) (hm : Meets step ok s as) : ∃ s', run step s as = .ok s' ∧ I s' := by
  induction as generalizing s with
  | nil => exact ⟨s, rfl, hs⟩
  | cons a as ih =>
      obtain ⟨t, ht, hI⟩ := hstep s a hs hm.1
      rw [run_cons, ht]
      exact ih hI (hm.2 t ht)

/-- **Two conditions that agree where the invariant holds**, which either of them keeps, admit the same
runs. -/
theorem Meets.congr_inv {ok' : S → A → Prop} (hiff : ∀ s a, I s → (ok s a ↔ ok' s a))
    (hstep : ∀ s a s', I s → ok' s a → step s a = .ok s' → I s') {s : S} {as : List A} (hs : I s) :
    Meets step ok s as ↔ Meets step ok' s as := by
  induction as generalizing s with
  | nil => exact Iff.rfl
  | cons a as ih =>
      constructor
      · rintro ⟨ha, hm⟩
        have ha' := (hiff s a hs).mp ha
        exact ⟨ha', fun s' h => (ih (hstep s a s' hs ha' h)).mp (hm s' h)⟩
      · rintro ⟨ha, hm⟩
        exact ⟨(hiff s a hs).mpr ha, fun s' h => (ih (hstep s a s' hs ha h)).mpr (hm s' h)⟩

/-- **A panic that no step raises is raised by no run.** -/
theorem run_avoids {p : Panic} (hstep : ∀ s a, I s → ok s a → Checked.Avoids p (step s a) I) {s : S}
    {as : List A} (hs : I s) (hm : Meets step ok s as) : Checked.Avoids p (run step s as) I := by
  induction as generalizing s with
  | nil => exact .ok hs
  | cons a as ih =>
      exact (hstep s a hs hm.1).and_eq.bind fun t ht => ih ht.1 (hm.2 t ht.2)

end Run

end Lib
