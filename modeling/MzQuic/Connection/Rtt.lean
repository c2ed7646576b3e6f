import MzQuic.Connection.Path

/-!
# Round-trip statistics over a history of samples (`core/src/connection/path.rs`)

* `RttEstimator.after`: a history of updates; `after_min`, `after_latest`, `after_smoothed`: what each
  statistic is in terms of the samples and of the value the estimator was created with;
* `WithinMeasured`: the statistics are those of the samples alone;
* **`within_measured_iff`**: they are exactly if some sample is no longer than the initial value, which
  takes part in the minimum although it was not measured.
-/

namespace MzQuic

open Lib

namespace RttEstimator

/-- A call of `update`: the delay that the peer reports, and the sample. -/
abbrev RttSample := Duration × Duration

/-- The estimator after the calls. -/
def after (r : RttEstimator) (updates : List RttSample) : RttEstimator :=
  updates.foldl (fun r u => r.update u.1 u.2) r

/-- `min` is the smallest sample, `latest` the last one, and `smoothed` lies between two samples. -/
structure WithinMeasured (r : RttEstimator) (samples : List Duration) : Prop where
  min : IsLeast {x | x ∈ samples} r.min
  latest : samples.getLast? = some r.latest
  smoothed : ∃ s, r.smoothed = some s ∧ (∃ a ∈ samples, a ≤ s) ∧ ∃ b ∈ samples, s ≤ b

variable {r : RttEstimator} {ackDelay rtt : Duration} {lo hi : ℕ}

/-! ## One update -/

theorem update_min : (r.update ackDelay rtt).min = Min.min r.min rtt := by
  unfold update
  cases r.smoothed <;> rfl

theorem update_latest : (r.update ackDelay rtt).latest = rtt := by
  unfold update
  cases r.smoothed <;> rfl

/-- The sample is reduced by the delay only where it stays above the minimum. -/
theorem adjusted_bounds {m x d : ℕ} (h : lo ≤ Min.min m x) :
    lo ≤ (if x > Min.min m x + d then x - d else x) ∧ (if x > Min.min m x + d then x - d else x) ≤ x := by
  split_ifs <;> omega

/-- A weighted average stays within the bounds, also when it is truncated. -/
theorem average_bounds {s a : ℕ} (hs : lo ≤ s ∧ s ≤ hi) (ha : lo ≤ a ∧ a ≤ hi) :
    lo ≤ (s * 7 + a) / 8 ∧ (s * 7 + a) / 8 ≤ hi := by
  omega

theorem update_smoothed (ackDelay : Duration) (hlo : lo ≤ Min.min r.min rtt) (hhi : rtt ≤ hi)
    (hs : ∀ s, r.smoothed = some s → lo ≤ s ∧ s ≤ hi) :
    ∃ s, (r.update ackDelay rtt).smoothed = some s ∧ lo ≤ s ∧ s ≤ hi := by
  obtain ⟨h1, h2⟩ := adjusted_bounds (d := ackDelay) hlo
  unfold update
  cases hsm : r.smoothed with
  | none => exact ⟨_, rfl, h1, h2.trans hhi⟩
  | some s => exact ⟨_, rfl, average_bounds (hs s hsm) ⟨h1, h2.trans hhi⟩⟩

/-! ## Histories -/

theorem after_cons (r : RttEstimator) (u : RttSample) (us : List RttSample) :
    r.after (u :: us) = (r.update u.1 u.2).after us := rfl

/-- **The minimum is taken over the samples and the initial value.** -/
theorem after_min (us : List RttSample) (r : RttEstimator) :
    IsLeast (insert r.min {x | x ∈ us.map Prod.snd}) (r.after us).min := by
  induction us generalizing r with
  | nil => exact ⟨.inl rfl, fun x hx => hx.elim (fun h => h.ge) fun h => absurd h List.not_mem_nil⟩
  | cons u us ih =>
      obtain ⟨hmem, hle⟩ := ih (r.update u.1 u.2)
      rw [update_min] at hmem hle
      have hfirst : (r.after (u :: us)).min ≤ Min.min r.min u.2 := hle (.inl rfl)
      constructor
      · rcases hmem with hm | hm
        · rcases min_choice r.min u.2 with he | he
          · exact .inl (hm.trans he)
          · exact .inr (List.mem_cons.mpr (.inl (hm.trans he)))
        · exact .inr (List.mem_cons_of_mem _ hm)
      · rintro x (rfl | hx)
        · exact hfirst.trans (min_le_left _ _)
        · rcases List.mem_cons.mp hx with rfl | hx
          · exact hfirst.trans (min_le_right _ _)
          · exact hle (.inr hx)

theorem after_latest (us : List RttSample) (u : RttSample) (r : RttEstimator) :
    ((u :: us).map Prod.snd).getLast? = some (r.after (u :: us)).latest := by
  induction us generalizing r u with
  | nil => exact congrArg some update_latest.symm
  | cons v us ih => exact ih v (r.update u.1 u.2)

/-- **The smoothed time stays within what bounds the samples and the initial value.** -/
theorem after_smoothed {us : List RttSample} {r : RttEstimator} (hmin : lo ≤ r.min)
    (hus : ∀ x ∈ us.map Prod.snd, lo ≤ x ∧ x ≤ hi) (hs : ∀ s, r.smoothed = some s → lo ≤ s ∧ s ≤ hi)
    (hne : us ≠ [] ∨ ∃ s, r.smoothed = some s) : ∃ s, (r.after us).smoothed = some s ∧ lo ≤ s ∧ s ≤ hi := by
  induction us generalizing r with
  | nil =>
      obtain ⟨s, h⟩ := hne.resolve_left (fun h => h rfl)
      exact ⟨s, h, hs s h⟩
  | cons u us ih =>
      obtain ⟨h1, h2⟩ := hus u.2 List.mem_cons_self
      obtain ⟨s, hsm, hb⟩ := update_smoothed u.1 (le_min hmin h1) h2 hs
      rw [after_cons]
      refine ih ?_ (fun x hx => hus x (List.mem_cons_of_mem _ hx)) (fun t ht => ?_) (.inr ⟨s, hsm⟩)
      · rw [update_min]
        exact le_min hmin h1
      · rw [hsm] at ht
        cases ht
        exact hb

/-- **The round-trip statistics are within what was measured exactly if the initial value was.** After every
nonempty history of updates of a new estimator, with whatever delays the peer reports: the minimum is the smallest
sample, the latest value is the last one, and the smoothed one lies between the smallest and the largest, if and
only if some sample is no longer than `MIN_RTT`, which is taken for a first minimum. -/
theorem within_measured_iff (u : RttSample) (us : List RttSample) :
    WithinMeasured ((RttEstimator.new minRtt).after (u :: us)) ((u :: us).map Prod.snd) ↔
      ∃ x ∈ (u :: us).map Prod.snd, x ≤ minRtt := by
  obtain ⟨hmem, hle⟩ := after_min (u :: us) (RttEstimator.new minRtt)
  constructor
  · intro h
    exact ⟨_, h.min.1, hle (.inl rfl)⟩
  · rintro ⟨x, hx, hxm⟩
    -- the initial value is not below every sample
    have hin : ((RttEstimator.new minRtt).after (u :: us)).min ∈ (u :: us).map Prod.snd := by
      rcases hmem with he | h
      · rw [he]
        rwa [show (RttEstimator.new minRtt).min = x from le_antisymm (he ▸ hle (.inr hx)) hxm]
      · exact h
    obtain ⟨b, hb, hmax⟩ := ((u :: us).map Prod.snd).toFinset.exists_max_image id
      ⟨x, List.mem_toFinset.mpr hx⟩
    have hbounds : ∀ y ∈ (u :: us).map Prod.snd,
        ((RttEstimator.new minRtt).after (u :: us)).min ≤ y ∧ y ≤ b :=
      fun y hy => ⟨hle (.inr hy), hmax y (List.mem_toFinset.mpr hy)⟩
    obtain ⟨s, hs, h1, h2⟩ := after_smoothed (hle (.inl rfl)) hbounds (fun s h => by cases h)
      (.inl (List.cons_ne_nil u us))
    exact ⟨⟨hin, fun y hy => hle (.inr hy)⟩, after_latest us u _, s, hs, ⟨_, hin, h1⟩, b,
      List.mem_toFinset.mp hb, h2⟩

/-- A single sample of 400 ms, reported with a delay of 50 ms: the minimum is 333 ms, the smoothed time 350 ms. -/
theorem long_sample_not_within :
    let r := (RttEstimator.new minRtt).after [(Duration.fromMillis 50, Duration.fromMillis 400)]
    ¬ r.WithinMeasured [Duration.fromMillis 400] ∧ r.min = Duration.fromMillis 333 ∧
      r.smoothed = some (Duration.fromMillis 350) :=
  ⟨fun h => absurd h.min.1 (by decide), by decide, by decide⟩

end RttEstimator

end MzQuic
