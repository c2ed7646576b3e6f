import MzQuic.Lib.Run
import MzQuic.Stream.Recv

/-!
# The final size of a stream (`core/src/connection/stream/recv.rs`)

A FIN and a reset each tell the final size. `reset` compares it with the highest offset received, and
`ingest` does not.

* `Recv.Bounded`: nothing was received beyond a known final size;
* **`final_size_permanent`**: if every FIN that tells the size for the first time is at or above the
  highest offset received, then the size stays as it is, bounds the data, and whatever contradicts it
  is rejected.
-/

namespace MzQuic

open Lib

/-! ## Runs of one receive half -/

/-- What can tell a receive half its final size, and `stop`. -/
inductive SizeOp
  | ingest (frame : Stream) (payloadLen : ℕ)
  | reset (errorCode finalOffset : ℕ)
  | stop

/-- One operation. -/
def sizeStep (rs : Recv) : SizeOp → Checked Recv
  | .ingest frame payloadLen => do
    let (_, rs) ← rs.ingest frame payloadLen
    return rs
  | .reset errorCode finalOffset => .ok (rs.reset errorCode finalOffset).2
  | .stop => do
    let (_, rs) ← rs.stop
    return rs

/-- The operation contradicts what is known: it goes beyond the final size, tells another one, or tells
one below the highest offset received. -/
def SizeOp.Contradicts (rs : Recv) : SizeOp → Prop
  | .ingest frame _ => (∃ n, rs.finalOffset = some n ∧
      (n < frame.offset + frame.data.length ∨ frame.fin = true ∧ frame.offset + frame.data.length ≠ n)) ∨
      frame.fin = true ∧ frame.offset + frame.data.length < rs.end
  | .reset _ finalOffset => (∃ n, rs.finalOffset = some n ∧ finalOffset ≠ n) ∨ finalOffset < rs.end
  | .stop => False

/-- The operation is answered with an error, and the receive half stays as it is. -/
def SizeOp.Rejected (rs : Recv) : SizeOp → Prop
  | .ingest frame payloadLen => ∃ e, rs.ingest frame payloadLen = .ok (.error e, rs)
  | .reset errorCode finalOffset => ∃ e, rs.reset errorCode finalOffset = (.error e, rs)
  | .stop => False

/-- A FIN that tells the final size for the first time is not below the highest offset received. -/
def SizeOp.FinAbove (rs : Recv) : SizeOp → Prop
  | .ingest frame _ => frame.fin = true → rs.finalOffset = none → rs.end ≤ frame.offset + frame.data.length
  | _ => True

instance (rs : Recv) : ∀ op : SizeOp, Decidable (op.FinAbove rs)
  | .ingest frame _ => inferInstanceAs (Decidable (frame.fin = true → rs.finalOffset = none →
      rs.end ≤ frame.offset + frame.data.length))
  | .reset .. | .stop => .isTrue trivial

/-! ## Steps and runs -/

/-- Nothing was received beyond a known final size. -/
def Recv.Bounded (rs : Recv) : Prop := ∀ n, rs.finalOffset = some n → rs.end ≤ n

/-- A final size that is known stays. -/
theorem sizeStep_final {rs rs' : Recv} {op : SizeOp} (h : sizeStep rs op = .ok rs') {n : ℕ}
    (hn : rs.finalOffset = some n) : rs'.finalOffset = some n := by
  cases op with
  | ingest frame payloadLen =>
      obtain ⟨⟨res, rs₁⟩, h1, h⟩ := Checked.bind_eq_ok.mp h
      cases h
      obtain ⟨rfl, -⟩ | ⟨-, hok, -, -, -, hst, -⟩ := Recv.ingest_cases h1
      · exact hn
      · split_ifs at hst with hfin
        · -- the size that the FIN tells is the one that is known
          simp only [Bool.and_eq_true] at hfin
          unfold Recv.finalOffset
          rw [hst, (Recv.agrees_of_sizeError hok hn).2 hfin.1.1]
        · rwa [Recv.finalOffset_congr hst]
  | reset errorCode finalOffset =>
      cases h
      obtain ⟨⟨e, he⟩, -⟩ | ⟨he, -⟩ | ⟨he, -, hsize⟩ := rs.reset_cases errorCode finalOffset
      · rw [he]
        exact hn
      · rw [he]
        exact hn
      · rw [he, ← hn]
        rcases hsize with hs | ⟨hs, -⟩
        · exact hs.symm
        · rw [hs] at hn
          cases hn
  | stop =>
      obtain ⟨⟨res, rs₁⟩, h1, h⟩ := Checked.bind_eq_ok.mp h
      cases h
      obtain ⟨-, rfl, -⟩ | ⟨-, rfl, -⟩ := Recv.stop_cases h1
      · exact hn
      · exact hn

/-- Nothing is received beyond the final size. -/
theorem sizeStep_bounded (rs : Recv) (op : SizeOp) (rs' : Recv) (hb : rs.Bounded) (hop : op.FinAbove rs)
    (h : sizeStep rs op = .ok rs') : rs'.Bounded := by
  intro n hn
  cases op with
  | ingest frame payloadLen =>
      obtain ⟨⟨res, rs₁⟩, h1, h⟩ := Checked.bind_eq_ok.mp h
      cases h
      obtain ⟨rfl, -⟩ | ⟨-, hok, -, hend, -, hst, -⟩ := Recv.ingest_cases h1
      · exact hb n hn
      · rw [hend]
        split_ifs at hst with hfin
        · unfold Recv.finalOffset at hn
          rw [hst] at hn
          cases hn
          simp only [Bool.and_eq_true] at hfin
          refine max_le ?_ le_rfl
          cases hf : rs.finalOffset with
          | none => exact hop hfin.1.1 hf
          | some m =>
              rw [(Recv.agrees_of_sizeError hok hf).2 hfin.1.1]
              exact hb m hf
        · rw [Recv.finalOffset_congr hst] at hn
          exact max_le (hb n hn) (Recv.agrees_of_sizeError hok hn).1
  | reset errorCode finalOffset =>
      cases h
      obtain ⟨⟨e, he⟩, -⟩ | ⟨he, -⟩ | ⟨he, -, hsize⟩ := rs.reset_cases errorCode finalOffset
      · rw [he] at hn ⊢
        exact hb n hn
      · rw [he] at hn ⊢
        exact hb n hn
      · rw [he] at hn ⊢
        cases hn
        rcases hsize with hs | ⟨-, hs⟩
        · exact hb _ hs
        · exact hs
  | stop =>
      obtain ⟨⟨res, rs₁⟩, h1, h⟩ := Checked.bind_eq_ok.mp h
      cases h
      obtain ⟨-, rfl, -⟩ | ⟨-, rfl, -⟩ := Recv.stop_cases h1
      · exact hb n hn
      · exact hb n hn

/-- What contradicts a bounded half is rejected. -/
theorem SizeOp.Contradicts.rejected {rs : Recv} (hb : rs.Bounded) {op : SizeOp} (hop : op.FinAbove rs)
    (h : op.Contradicts rs) : op.Rejected rs := by
  cases op with
  | ingest frame payloadLen =>
      refine Recv.ingest_rejects (Recv.sizeError_eq_true.mpr ?_)
      rcases h with h | ⟨hfin, hlt⟩
      · exact h
      · cases hf : rs.finalOffset with
        | none => exact absurd (hop hfin hf) (Nat.not_le_of_lt hlt)
        | some n => exact ⟨n, rfl, .inr ⟨hfin, (lt_of_lt_of_le hlt (hb n hf)).ne⟩⟩
  | reset errorCode finalOffset =>
      -- a size that is accepted contradicts nothing
      have hagrees : ¬ (rs.finalOffset = some finalOffset ∨ rs.finalOffset = none ∧ rs.end ≤ finalOffset) := by
        rintro (hs | ⟨hs, hle⟩)
        · rcases h with ⟨n, hn, hne⟩ | hlt
          · exact hne (Option.some.inj (hs.symm.trans hn))
          · exact absurd (hb _ hs) (Nat.not_le_of_lt hlt)
        · rcases h with ⟨n, hn, -⟩ | hlt
          · exact Option.some_ne_none n (hn.symm.trans hs)
          · exact absurd hle (Nat.not_le_of_lt hlt)
      obtain ⟨hrej, -⟩ | ⟨-, -, hs⟩ | ⟨-, -, hs⟩ := rs.reset_cases errorCode finalOffset
      · exact hrej
      · exact absurd (.inl hs) hagrees
      · exact absurd hs hagrees
  | stop => exact h.elim

/-- **The final size is permanent and bounds the data.** In every run in which no FIN tells a size below
the highest offset received, nothing is received beyond a known final size; and whatever operation comes
next, a known size stays, and what contradicts it is rejected. -/
theorem final_size_permanent (ops : List SizeOp) {rs : Recv}
    (hm : Meets sizeStep (fun rs op => op.FinAbove rs) Recv.default ops)
    (h : run sizeStep Recv.default ops = .ok rs) :
    (∀ n, rs.finalOffset = some n → rs.end ≤ n) ∧ ∀ op : SizeOp, op.FinAbove rs →
      (∀ rs', sizeStep rs op = .ok rs' → ∀ n, rs.finalOffset = some n → rs'.finalOffset = some n) ∧
      (op.Contradicts rs → op.Rejected rs) := by
  have hb : rs.Bounded := run_inv sizeStep_bounded (fun n hn => by cases hn) hm h
  exact ⟨hb, fun op hop => ⟨fun rs' h' n hn => sizeStep_final h' hn, fun hc => hc.rejected hb hop⟩⟩

/-- Ten bytes, a FIN at their end, and a reset that tells another size. -/
theorem final_size_permanent_ten : ∃ rs, run sizeStep Recv.default
      [.ingest ⟨⟨0⟩, 0, false, List.replicate 10 7⟩ 10, .ingest ⟨⟨0⟩, 10, true, []⟩ 10] = .ok rs ∧
    rs.finalOffset = some 10 ∧ rs.end ≤ 10 ∧ (SizeOp.reset 1 9).Rejected rs := by
  let ops : List SizeOp := [.ingest ⟨⟨0⟩, 0, false, List.replicate 10 7⟩ 10, .ingest ⟨⟨0⟩, 10, true, []⟩ 10]
  obtain ⟨rs, hrs, hv⟩ := Checked.map_eq_ok.mp (show Recv.finalOffset <$> run sizeStep Recv.default ops =
    .ok (some 10) by decide)
  obtain ⟨hle, hnext⟩ := final_size_permanent ops (by decide) hrs
  exact ⟨rs, hrs, hv, hle 10 hv, (hnext (.reset 1 9) trivial).2 (.inl ⟨10, hv, by decide⟩)⟩

/-- Ten bytes, and then a FIN at offset 5: it is accepted, and the final size is below the data. -/
theorem fin_below_data : ∃ rs rs' v, run sizeStep Recv.default [.ingest ⟨⟨0⟩, 0, false, List.replicate 10 7⟩ 10] =
      .ok rs ∧ (SizeOp.ingest ⟨⟨0⟩, 5, true, []⟩ 10).Contradicts rs ∧
    rs.ingest ⟨⟨0⟩, 5, true, []⟩ 10 = .ok (.ok v, rs') ∧ rs'.finalOffset = some 5 ∧ ¬ rs'.end ≤ 5 := by
  refine ⟨_, _, _, rfl, .inr ⟨rfl, by decide⟩, rfl, rfl, by decide⟩

end MzQuic
