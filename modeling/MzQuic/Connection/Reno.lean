import MzQuic.Connection.Path

/-!
# The congestion window over a history of acks and losses (`core/src/connection/path.rs`)

* `RenoCall`: the two calls on the controller; `NewReno.after`: a history of them from `NewReno::new`;
* `NewReno.Sound`: the bounds on the window, the threshold and the counter; `Sound.onAck`,
  `Sound.onCongestionEvent`: each call keeps them;
* `onAck_window`: what an ack does to the window; `recovery_mono`: the start of recovery never goes back,
  so a packet for which the window is halved was sent after it (`halved_sent`);
* **`newReno_invariants`**: all of it, after every history.
-/

namespace MzQuic

open Lib

/-- The calls on the controller. -/
inductive RenoCall
  | onAck (sent : Instant) (bytes : ℕ) (appLimited : Bool)
  | onCongestionEvent (now sent : Instant)
  deriving DecidableEq

namespace RenoCall

/-- The controller after the call. -/
def apply (r : NewReno) : RenoCall → NewReno
  | .onAck sent bytes appLimited => r.onAck sent bytes appLimited
  | .onCongestionEvent now sent => r.onCongestionEvent now sent

/-- A packet is no longer than the MTU, and is lost after it was sent. -/
def Ok : RenoCall → Prop
  | .onAck _ bytes _ => bytes ≤ initialMtu
  | .onCongestionEvent now sent => sent ≤ now

end RenoCall

namespace NewReno

variable {r : NewReno} {now sent : Instant} {bytes : ℕ} {appLimited : Bool} {c : RenoCall}

/-- The controller after the calls. -/
def after (r : NewReno) (calls : List RenoCall) : NewReno := calls.foldl RenoCall.apply r

theorem after_cons (r : NewReno) (c : RenoCall) (cs : List RenoCall) : r.after (c :: cs) = (c.apply r).after cs :=
  rfl

/-- The window and the threshold are at least two packets, and less than a window has been counted. -/
structure Sound (r : NewReno) : Prop where
  window : 2 * initialMtu ≤ r.window
  ssthresh : 2 * initialMtu ≤ r.ssthresh
  bytesAcked : r.bytesAcked < r.window

theorem Sound.new (now : Instant) : (NewReno.new now).Sound := by
  constructor <;> norm_num [NewReno.new, initialMtu]

/-! ## Acks -/

/-- What an ack does: nothing, growth by the bytes in slow start, counting them in congestion avoidance,
and growth by one packet when a window has been counted. -/
theorem onAck_cases (r : NewReno) (sent : Instant) (bytes : ℕ) (appLimited : Bool) :
    r.onAck sent bytes appLimited = r ∨
    r.onAck sent bytes appLimited = { r with window := r.window + bytes } ∨
    (r.bytesAcked + bytes < r.window ∧
      r.onAck sent bytes appLimited = { r with bytesAcked := r.bytesAcked + bytes }) ∨
    (r.window ≤ r.bytesAcked + bytes ∧ r.onAck sent bytes appLimited =
      { r with bytesAcked := r.bytesAcked + bytes - r.window, window := r.window + initialMtu }) := by
  unfold onAck
  dsimp only
  split_ifs with h1 h2 h3 h4
  · exact .inl rfl
  · exact .inl rfl
  · exact .inr (.inl rfl)
  · exact .inr (.inr (.inr ⟨h4, rfl⟩))
  · exact .inr (.inr (.inl ⟨not_le.mp h4, rfl⟩))

theorem Sound.onAck (h : r.Sound) (hb : bytes ≤ initialMtu) : (r.onAck sent bytes appLimited).Sound := by
  obtain ⟨h1, h2, h3⟩ := h
  rcases onAck_cases r sent bytes appLimited with he | he | ⟨hlt, he⟩ | ⟨hle, he⟩ <;> rw [he]
  · exact ⟨h1, h2, h3⟩
  · exact ⟨h1.trans (Nat.le_add_right _ _), h2, lt_of_lt_of_le h3 (Nat.le_add_right _ _)⟩
  · exact ⟨h1, h2, hlt⟩
  · exact ⟨h1.trans (Nat.le_add_right _ _), h2, by dsimp only; omega⟩

/-- An ack never lowers the window, and raises it by at most one packet. -/
theorem onAck_window (hb : bytes ≤ initialMtu) : r.window ≤ (r.onAck sent bytes appLimited).window ∧
    (r.onAck sent bytes appLimited).window ≤ r.window + initialMtu := by
  rcases onAck_cases r sent bytes appLimited with he | he | ⟨-, he⟩ | ⟨-, he⟩ <;> rw [he]
  · exact ⟨le_rfl, Nat.le_add_right _ _⟩
  · exact ⟨Nat.le_add_right _ _, Nat.add_le_add_left hb _⟩
  · exact ⟨le_rfl, Nat.le_add_right _ _⟩
  · exact ⟨Nat.le_add_right _ _, le_rfl⟩

theorem onAck_recovery : (r.onAck sent bytes appLimited).recoveryStartTime = r.recoveryStartTime := by
  rcases onAck_cases r sent bytes appLimited with he | he | ⟨-, he⟩ | ⟨-, he⟩ <;> rw [he]

/-! ## Losses -/

/-- What a loss does: nothing if the packet was sent before the recovery, else it halves the window and
starts a recovery. -/
theorem onCongestionEvent_cases (r : NewReno) (now sent : Instant) :
    r.onCongestionEvent now sent = r ∨ (r.recoveryStartTime < sent ∧
      r.onCongestionEvent now sent =
        ⟨max (r.window / 2) (2 * initialMtu), max (r.window / 2) (2 * initialMtu), now, 0⟩) := by
  unfold onCongestionEvent
  split_ifs with h
  · exact .inl rfl
  · exact .inr ⟨not_le.mp h, rfl⟩

theorem Sound.onCongestionEvent (h : r.Sound) : (r.onCongestionEvent now sent).Sound := by
  rcases onCongestionEvent_cases r now sent with he | ⟨-, he⟩ <;> rw [he]
  · exact h
  · exact ⟨le_max_right _ _, le_max_right _ _, lt_max_of_lt_right (by norm_num [initialMtu])⟩

/-- A loss that changes the window is of a packet sent after the recovery began, halves the window and
begins a recovery. -/
theorem halved_sent (h : (r.onCongestionEvent now sent).window ≠ r.window) :
    r.recoveryStartTime < sent ∧ (r.onCongestionEvent now sent).recoveryStartTime = now ∧
      (r.onCongestionEvent now sent).window = max (r.window / 2) (2 * initialMtu) := by
  rcases onCongestionEvent_cases r now sent with he | ⟨hlt, he⟩
  · exact absurd (by rw [he]) h
  · exact ⟨hlt, by rw [he], by rw [he]⟩

/-! ## Histories -/

theorem Sound.apply (h : r.Sound) (hc : c.Ok) : (c.apply r).Sound := by
  cases c with
  | onAck sent bytes appLimited => exact h.onAck hc
  | onCongestionEvent now sent => exact h.onCongestionEvent

theorem apply_recovery (hc : c.Ok) : r.recoveryStartTime ≤ (c.apply r).recoveryStartTime := by
  cases c with
  | onAck sent bytes appLimited => exact onAck_recovery.ge
  | onCongestionEvent now sent =>
      rcases onCongestionEvent_cases r now sent with he | ⟨hlt, he⟩
      · exact (congrArg recoveryStartTime he).ge
      · exact (hlt.le.trans hc).trans (congrArg recoveryStartTime he).ge

theorem Sound.after {calls : List RenoCall} (h : r.Sound) (hc : ∀ c ∈ calls, c.Ok) : (r.after calls).Sound := by
  induction calls generalizing r with
  | nil => exact h
  | cons c cs ih =>
      exact ih (h.apply (hc c List.mem_cons_self)) fun d hd => hc d (List.mem_cons_of_mem _ hd)

/-- **The start of recovery never goes back.** -/
theorem recovery_mono {calls : List RenoCall} (hc : ∀ c ∈ calls, c.Ok) :
    r.recoveryStartTime ≤ (r.after calls).recoveryStartTime := by
  induction calls generalizing r with
  | nil => exact le_rfl
  | cons c cs ih =>
      exact (apply_recovery (hc c List.mem_cons_self)).trans
        (ih fun d hd => hc d (List.mem_cons_of_mem _ hd))

/-- The window grows by at most one packet for each call, so 64 bits hold it for 2^53 calls. -/
theorem window_le {calls : List RenoCall} (h : r.Sound) (hc : ∀ c ∈ calls, c.Ok) :
    (r.after calls).window ≤ r.window + calls.length * initialMtu := by
  induction calls generalizing r with
  | nil => exact Nat.le_add_right _ _
  | cons c cs ih =>
      have hok := hc c List.mem_cons_self
      have hstep : (c.apply r).window ≤ r.window + initialMtu := by
        cases c with
        | onAck sent bytes appLimited => exact (onAck_window hok).2
        | onCongestionEvent now sent =>
            have := h.window
            rcases onCongestionEvent_cases r now sent with he | ⟨-, he⟩ <;>
              simp only [RenoCall.apply, he] <;> omega
      have := ih (h.apply hok) fun d hd => hc d (List.mem_cons_of_mem _ hd)
      rw [after_cons, List.length_cons, Nat.succ_mul]
      omega

/-- **NewReno keeps its invariants.** After every history of acks of packets no longer than the MTU and of losses
of packets sent before they were detected: the window and the threshold are at least two packets, and less than a
window has been counted; an ack never lowers the window and raises it by at most one packet; no call moves the
start of recovery back; and of two losses in the history that both change the window, the second is of a packet
sent after the time of the first. -/
theorem newReno_invariants (t₀ : Instant) (calls : List RenoCall) (hc : ∀ c ∈ calls, c.Ok) :
    let r := (NewReno.new t₀).after calls
    (2 * initialMtu ≤ r.window ∧ 2 * initialMtu ≤ r.ssthresh ∧ r.bytesAcked < r.window) ∧
    (∀ sent bytes appLimited, bytes ≤ initialMtu → r.window ≤ (r.onAck sent bytes appLimited).window ∧
      (r.onAck sent bytes appLimited).window ≤ r.window + initialMtu) ∧
    (∀ c : RenoCall, c.Ok → r.recoveryStartTime ≤ (c.apply r).recoveryStartTime) ∧
    ∀ as now₁ sent₁ bs now₂ sent₂ cs,
      calls = as ++ .onCongestionEvent now₁ sent₁ :: (bs ++ .onCongestionEvent now₂ sent₂ :: cs) →
      let r₁ := (NewReno.new t₀).after as
      let r₂ := (r₁.onCongestionEvent now₁ sent₁).after bs
      (r₁.onCongestionEvent now₁ sent₁).window ≠ r₁.window →
      (r₂.onCongestionEvent now₂ sent₂).window ≠ r₂.window → now₁ < sent₂ := by
  have hs := (Sound.new t₀).after hc
  refine ⟨⟨hs.window, hs.ssthresh, hs.bytesAcked⟩, fun _ _ _ hb => onAck_window hb, fun _ => apply_recovery, ?_⟩
  rintro as now₁ sent₁ bs now₂ sent₂ cs rfl
  dsimp only
  intro h1 h2
  obtain ⟨-, hstart, -⟩ := halved_sent h1
  have hbs : ∀ c ∈ bs, c.Ok := fun c hm => hc c (by simp [hm])
  have hmono := recovery_mono (r := ((NewReno.new t₀).after as).onCongestionEvent now₁ sent₁) hbs
  rw [hstart] at hmono
  exact lt_of_le_of_lt hmono (halved_sent h2).1

/-- Two losses of one burst, and a third one later. -/
theorem newReno_invariants_three_losses :
    let calls : List RenoCall := [.onCongestionEvent 9 5, .onCongestionEvent 10 6, .onAck 12 1200 false,
      .onCongestionEvent 20 15]
    let r := (NewReno.new 0).after calls
    (2 * initialMtu ≤ r.window ∧ 2 * initialMtu ≤ r.ssthresh ∧ r.bytesAcked < r.window) ∧ r.window = 3680 := by
  have hok : ∀ c ∈ ([.onCongestionEvent 9 5, .onCongestionEvent 10 6, .onAck 12 1200 false,
      .onCongestionEvent 20 15] : List RenoCall), c.Ok := by
    simp [RenoCall.Ok, initialMtu]
  exact ⟨(newReno_invariants 0 _ hok).1, rfl⟩

end NewReno

end MzQuic
