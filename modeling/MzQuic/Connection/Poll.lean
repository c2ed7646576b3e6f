import MzQuic.Connection.Moves

/-!
# What a poll schedules

* `Appended`: packets that have a property in common were put behind those that wait;
* **`pollTransmit_appended`**: if every round of a poll schedules only such packets, so does the poll.
-/

namespace MzQuic

open Lib

namespace Connection

variable {c c' : Connection} {now : Instant} {id : SpaceId}

/-- The queue has grown by packets of which `P` holds. -/
def Appended (P : ScheduledPacket → Prop) (c c' : Connection) : Prop :=
  ∃ new, c'.path.sendingQueue = c.path.sendingQueue ++ new ∧ ∀ p ∈ new, P p

section Appended

variable {P : ScheduledPacket → Prop} {c₁ c₂ c₃ : Connection}

theorem Appended.of_eq (h : c₂.path.sendingQueue = c₁.path.sendingQueue) : Appended P c₁ c₂ :=
  ⟨[], by rw [h, List.append_nil], fun _ hp => absurd hp List.not_mem_nil⟩

theorem Appended.one {p : ScheduledPacket} (h : c₂.path.sendingQueue = c₁.path.sendingQueue ++ [p])
    (hp : P p) : Appended P c₁ c₂ :=
  ⟨[p], h, fun q hq => by rwa [List.mem_singleton.mp hq]⟩

theorem Appended.trans (h : Appended P c₁ c₂) (h' : Appended P c₂ c₃) : Appended P c₁ c₃ := by
  obtain ⟨new, hq, hnew⟩ := h
  obtain ⟨new', hq', hnew'⟩ := h'
  refine ⟨new ++ new', by rw [hq', hq, List.append_assoc], fun p hp => ?_⟩
  rcases List.mem_append.mp hp with hp | hp
  · exact hnew p hp
  · exact hnew' p hp

/-- A round appends what it composes. -/
theorem transmitSpace_appended {close blocked : Bool} {s s' : Connection × Bool}
    (hcompose : ∀ c₁, (c₁ = s.1 ∨ id = .handshake ∧ s.1.discardSpace .initial = .ok c₁) →
      s.1.composes close blocked id = true →
      composePacket now close c₁ id (s.1.spaceCanSend id).other = .ok s'.1 → Appended P c₁ s'.1)
    (h : transmitSpace now close blocked s id = .ok s') : Appended P s.1 s'.1 := by
  obtain ⟨c₁, hc₁, h⟩ := transmitSpace_cases h
  have hq : c₁.path.sendingQueue = s.1.path.sendingQueue := by
    rcases hc₁ with rfl | ⟨-, hd⟩
    · rfl
    · rw [discardSpace_path hd]
  refine (Appended.of_eq hq).trans ?_
  rcases h with ⟨-, h⟩ | ⟨hcomp, h⟩
  · exact .of_eq (by rw [h])
  · exact hcompose c₁ hc₁ hcomp h

/-- **What every round of a poll appends, the poll appends.** The rounds may keep an invariant `I`. -/
theorem pollTransmit_appended {I : Connection → Prop} {Q : Bool → Connection × Bool → SpaceId → Prop}
    {more : Bool} (hI : I c)
    (hok : ∀ close, c.polls = some close →
      Meets (transmitSpace now close (c.path.inFlight.bytes ≥ c.path.congestion.window)) (Q close)
        (c, false) SpaceId.variants)
    (hround : ∀ close s id s', c.polls = some close → I s.1 → Q close s id →
      transmitSpace now close (c.path.inFlight.bytes ≥ c.path.congestion.window) s id = .ok s' →
        I s'.1 ∧ Appended P s.1 s'.1)
    (h : c.pollTransmit now = .ok (more, c')) : Appended P c c' := by
  rcases pollTransmit_cases h with rfl | ⟨close, s, hp, hrun, hc'⟩
  · exact .of_eq rfl
  · have hs : I s.1 ∧ Appended P c s.1 :=
      run_inv (I := fun s : Connection × Bool => I s.1 ∧ Appended P c s.1)
        (fun s id s' hs hid hstep => by
          obtain ⟨hI', happ⟩ := hround close s id s' hp hs.1 hid hstep
          exact ⟨hI', hs.2.trans happ⟩)
        ⟨hI, .of_eq rfl⟩ (hok close hp) hrun
    exact hs.2.trans (.of_eq (by rw [hc']))

end Appended

end Connection

end MzQuic
