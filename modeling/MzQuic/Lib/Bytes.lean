import MzQuic.Lib.Checked

/-!
# Byte buffers

* `beNat`, `beBytes`: big-endian integers and their round trips;
* `BufMut`: an output buffer with the room it has left; writing past it is a `capacity` panic;
* `Appends f bs`: `f` writes exactly `bs`, or panics for want of room, and composes (`Appends.seq`);
* `TakesAtMost n f`: `f` needs no more room than `n`, and composes (`TakesAtMost.seq`);
* `Get ε`: readers of an input buffer, which return, fail with an error or panic;
* `Total`: readers that cannot panic and leave a suffix of their input;
* `Yields x Q`: what the values that a reader returns have in common, and composes (`Yields.bind`).
-/



namespace Lib

/-- A byte string. -/
abbrev Bytes := List UInt8

/-! ## Big-endian integers -/

/-- The integer with big-endian digits `b`. -/
def beNat (b : Bytes) : ℕ := b.foldl (fun n x => n * 256 + x.toNat) 0

/-- The low `n` bytes of `v`, most significant first. -/
def beBytes : ℕ → ℕ → Bytes
  | 0, _ => []
  | n + 1, v => UInt8.ofNat (v / 256 ^ n) :: beBytes n v

@[simp] theorem length_beBytes (n v : ℕ) : (beBytes n v).length = n := by
  induction n with
  | zero => rfl
  | succ n ih => simp [beBytes, ih]

theorem foldl_be (b : Bytes) (m : ℕ) :
    b.foldl (fun n x => n * 256 + x.toNat) m = m * 256 ^ b.length + beNat b := by
  induction b generalizing m with
  | nil => simp [beNat]
  | cons x b ih =>
      simp only [beNat, List.foldl_cons, List.length_cons]
      rw [ih, ih (0 * 256 + x.toNat), pow_succ]
      ring

theorem beNat_cons (x : UInt8) (b : Bytes) :
    beNat (x :: b) = x.toNat * 256 ^ b.length + beNat b := by
  rw [beNat, List.foldl_cons, foldl_be]
  ring

theorem beNat_beBytes (n v : ℕ) : beNat (beBytes n v) = v % 256 ^ n := by
  induction n with
  | zero => simp [beBytes, beNat, Nat.mod_one]
  | succ n ih =>
      have hx : (UInt8.ofNat (v / 256 ^ n)).toNat = v / 256 ^ n % 256 := by simp
      rw [beBytes, beNat_cons, ih, length_beBytes, hx, pow_succ, Nat.mod_mul]
      ring

theorem beNat_lt (b : Bytes) : beNat b < 256 ^ b.length := by
  induction b with
  | nil => norm_num [beNat]
  | cons x b ih =>
      have hx : (x.toNat + 1) * 256 ^ b.length ≤ 256 * 256 ^ b.length := Nat.mul_le_mul_right _ x.toNat_lt
      rw [beNat_cons, List.length_cons, pow_succ]
      linarith

/-- Byte strings of one length are told apart by their integers. -/
theorem beNat_inj {a b : Bytes} (hl : a.length = b.length) (h : beNat a = beNat b) : a = b := by
  induction a generalizing b with
  | nil => exact (List.length_eq_zero_iff.mp hl.symm).symm
  | cons x a ih =>
      cases b with
      | nil => cases hl
      | cons y b =>
          obtain hl : a.length = b.length := Nat.succ.inj hl
          have ha := beNat_lt a
          have hb := beNat_lt b
          rw [beNat_cons, beNat_cons, hl] at h
          rw [hl] at ha
          obtain ⟨hx, hr⟩ : x.toNat = y.toNat ∧ beNat a = beNat b := by
            have hdiv := congrArg (· / 256 ^ b.length) h
            simp only [Nat.mul_comm _ (256 ^ b.length), Nat.mul_add_div (Nat.pow_pos (show 0 < 256 by decide)),
              Nat.div_eq_of_lt ha, Nat.div_eq_of_lt hb, Nat.add_zero] at hdiv
            rw [hdiv] at h
            exact ⟨hdiv, Nat.add_left_cancel h⟩
          rw [UInt8.toNat_inj.mp hx, ih hl hr]

/-! ## Output -/

/-- An output buffer: what was written, and the room that is left. -/
structure BufMut where
  written : Bytes
  remainingMut : ℕ
  deriving DecidableEq, Repr

namespace BufMut

/-- An empty buffer of the given capacity. -/
def withCapacity (n : ℕ) : BufMut := ⟨[], n⟩

/-- Write a slice. -/
def putSlice (out : BufMut) (bs : Bytes) : Checked BufMut :=
  if bs.length ≤ out.remainingMut then
    .ok ⟨out.written ++ bs, out.remainingMut - bs.length⟩
  else .error .capacity

/-- Write the low `n` bytes of an integer, most significant first. -/
def putUint (out : BufMut) (n v : ℕ) : Checked BufMut := out.putSlice (beBytes n v)

/-- The buffer after `bs` has been written to it. -/
def append (out : BufMut) (bs : Bytes) : BufMut :=
  ⟨out.written ++ bs, out.remainingMut - bs.length⟩

@[simp] theorem append_nil (out : BufMut) : out.append [] = out := by simp [append]

@[simp] theorem append_append (out : BufMut) (a b : Bytes) :
    (out.append a).append b = out.append (a ++ b) := by
  simp [append, Nat.sub_sub]

end BufMut

/-- `f` writes exactly `bs` if there is room for it, and otherwise panics for want of room. -/
def Appends (f : BufMut → Checked BufMut) (bs : Bytes) : Prop :=
  ∀ out, f out = if bs.length ≤ out.remainingMut then .ok (out.append bs) else .error .capacity

theorem appends_putSlice (bs : Bytes) : Appends (fun out => out.putSlice bs) bs := fun _ => rfl

theorem appends_putUint (n v : ℕ) : Appends (fun out => out.putUint n v) (beBytes n v) :=
  fun _ => rfl

/-- An output can only run out of room. -/
theorem Appends.avoids {f : BufMut → Checked BufMut} {bs : Bytes} (h : Appends f bs) {p : Panic}
    (hp : p ≠ .capacity) (out : BufMut) : Checked.Avoids p (f out) fun _ => True := by
  rw [h out]
  exact .ite (fun _ => .ok trivial) fun _ => .error hp.symm

theorem appends_nil : Appends Except.ok [] := by
  intro out
  simp

theorem Appends.ite {f g : BufMut → Checked BufMut} {a b : Bytes} {c : Prop} [Decidable c]
    (hf : c → Appends f a) (hg : ¬ c → Appends g b) :
    Appends (fun out => if c then f out else g out) (if c then a else b) := by
  by_cases hc : c
  · simpa only [if_pos hc] using hf hc
  · simpa only [if_neg hc] using hg hc

/-- **Writers compose.** -/
theorem Appends.seq {f g : BufMut → Checked BufMut} {a b : Bytes} (hf : Appends f a)
    (hg : Appends g b) : Appends (fun out => f out >>= g) (a ++ b) := by
  intro out
  dsimp only
  rw [hf out]
  by_cases ha : a.length ≤ out.remainingMut
  · rw [if_pos ha, Checked.ok_bind, hg, BufMut.append_append]
    refine if_congr ?_ rfl rfl
    simp only [BufMut.append, List.length_append]
    omega
  · rw [if_neg ha, if_neg (by rw [List.length_append]; omega), Checked.error_bind]

theorem Appends.eq_ok {f : BufMut → Checked BufMut} {bs : Bytes} (hf : Appends f bs)
    {out out' : BufMut} (h : f out = .ok out') :
    bs.length ≤ out.remainingMut ∧ out' = out.append bs := by
  rw [hf out] at h
  split_ifs at h with hb
  exact ⟨hb, (Except.ok.inj h).symm⟩

/-- What a writer appends is determined. -/
theorem Appends.unique {f : BufMut → Checked BufMut} {a b : Bytes} (ha : Appends f a) (hb : Appends f b) :
    a = b := by
  have hok : f (.withCapacity a.length) = .ok ((BufMut.withCapacity a.length).append a) :=
    (ha _).trans (if_pos le_rfl)
  obtain ⟨-, h⟩ := hb.eq_ok hok
  simpa [BufMut.append, BufMut.withCapacity] using congrArg BufMut.written h

/-- `out'` is `out` with more written to it, for which there was room. -/
def BufMut.Extends (out out' : BufMut) : Prop :=
  ∃ bs : Bytes, bs.length ≤ out.remainingMut ∧ out' = out.append bs

namespace BufMut.Extends

variable {out out₁ out₂ : BufMut}

theorem refl (out : BufMut) : out.Extends out := ⟨[], Nat.zero_le _, (append_nil out).symm⟩

theorem trans (h : out.Extends out₁) (h' : out₁.Extends out₂) : out.Extends out₂ := by
  obtain ⟨a, ha, rfl⟩ := h
  obtain ⟨b, hb, rfl⟩ := h'
  refine ⟨a ++ b, ?_, append_append out a b⟩
  simp only [append] at hb
  rw [List.length_append]
  omega

theorem of_appends {f : BufMut → Checked BufMut} {bs : Bytes} (hf : Appends f bs) (h : f out = .ok out₁) :
    out.Extends out₁ := ⟨bs, hf.eq_ok h⟩

theorem of_append {bs : Bytes} (h : out.Extends (out.append bs)) : bs.length ≤ out.remainingMut := by
  obtain ⟨bs', hle, he⟩ := h
  have hb : out.written ++ bs = out.written ++ bs' := congrArg BufMut.written he
  rwa [List.append_cancel_left hb]

/-- Nothing is written past the end. -/
theorem length_le (h : out.Extends out₁) :
    out₁.written.length ≤ out.written.length + out.remainingMut := by
  obtain ⟨bs, hbs, rfl⟩ := h
  simp only [append, List.length_append]
  omega

end BufMut.Extends

/-- Writing takes at most `n` bytes: if there is room for these, it does not panic for want of
room. -/
def TakesAtMost (n : ℕ) (f : BufMut → Checked BufMut) : Prop :=
  ∀ out, n ≤ out.remainingMut →
    Checked.Avoids .capacity (f out) fun out' => out.remainingMut ≤ out'.remainingMut + n

namespace TakesAtMost

variable {f g : BufMut → Checked BufMut} {m n : ℕ}

theorem ok : TakesAtMost 0 Except.ok := fun _ _ => .ok le_rfl

theorem of_appends {bs : Bytes} (h : Appends f bs) : TakesAtMost bs.length f := by
  intro out hout
  rw [h out, if_pos hout]
  refine .ok ?_
  simp only [BufMut.append]
  omega

theorem mono (h : TakesAtMost m f) (hmn : m ≤ n) : TakesAtMost n f :=
  fun out hout => (h out (hmn.trans hout)).mono fun _ h' => h'.trans (by omega)

theorem seq (hf : TakesAtMost m f) (hg : TakesAtMost n g) :
    TakesAtMost (m + n) fun out => f out >>= g := by
  intro out hout
  refine (hf out (by omega)).bind fun out' h' => (hg out' (by omega)).mono fun out'' h'' => ?_
  omega

/-- A value that is computed in between takes no room. -/
theorem lift {α : Type} {x : Checked α} {k : α → BufMut → Checked BufMut}
    (hx : x ≠ .error .capacity) (hk : ∀ a, x = .ok a → TakesAtMost n (k a)) :
    TakesAtMost n fun out => x >>= fun a => k a out := by
  intro out hout
  have h : Checked.Avoids .capacity x fun a => x = .ok a := ⟨hx, fun a ha => ha⟩
  exact h.bind fun a ha => hk a ha out hout

end TakesAtMost

/-! ## Input -/

/-- A read asked for more than the buffer held. -/
structure TryGetError where
  requested : ℕ
  available : ℕ
  deriving DecidableEq, Repr

/-- A reader of a buffer: it panics, fails or returns, and leaves what it has not read. -/
def Get (ε α : Type) := Bytes → Checked (Except ε α × Bytes)

namespace Get

variable {ε ε' α β : Type}

instance : Monad (Get ε) where
  pure a := fun b => .ok (.ok a, b)
  bind x f := fun b =>
    match x b with
    | .error p => .error p
    | .ok (.error e, b') => .ok (.error e, b')
    | .ok (.ok a, b') => f a b'

/-- Fail with `e`. -/
def fail (e : ε) : Get ε α := fun b => .ok (.error e, b)

/-- Abort. -/
def panic (p : Panic) : Get ε α := fun _ => .error p

/-- A computation that reads nothing. -/
def lift (x : Checked α) : Get ε α := fun b => x.map fun a => (.ok a, b)

/-- The bytes that are left. -/
def rest : Get ε Bytes := fun b => .ok (.ok b, b)

/-- Convert the error of a reader, as the operator `?` does. -/
def mapError (g : ε → ε') (x : Get ε α) : Get ε' α := fun b =>
  match x b with
  | .error p => .error p
  | .ok (.error e, b') => .ok (.error (g e), b')
  | .ok (.ok a, b') => .ok (.ok a, b')

/-- Take the first `n` bytes, or fail and leave the buffer as it is. -/
def tryGetSlice (n : ℕ) : Get TryGetError Bytes := fun b =>
  if n ≤ b.length then .ok (.ok (b.take n), b.drop n) else .ok (.error ⟨n, b.length⟩, b)

/-- Read an `n`-byte big-endian integer. -/
def tryGetUint (n : ℕ) : Get TryGetError ℕ := fun b =>
  if n ≤ b.length then .ok (.ok (beNat (b.take n)), b.drop n) else .ok (.error ⟨n, b.length⟩, b)

/-- Read one byte. -/
def tryGetU8 : Get TryGetError UInt8 := fun b =>
  match b with
  | [] => .ok (.error ⟨1, 0⟩, [])
  | x :: b => .ok (.ok x, b)

/-- Take the first `n` bytes; it is an error of the caller if there are fewer. -/
def splitTo (n : ℕ) : Get ε Bytes := fun b =>
  if n ≤ b.length then .ok (.ok (b.take n), b.drop n) else .error .slice

/-- Take everything that is left. -/
def takeAll : Get ε Bytes := fun b => .ok (.ok b, [])

@[simp] theorem pure_apply (a : α) (b : Bytes) : (pure a : Get ε α) b = .ok (.ok a, b) := rfl

theorem bind_ok {x : Get ε α} {f : α → Get ε β} {a : α} {b b' : Bytes}
    (h : x b = .ok (.ok a, b')) : (x >>= f) b = f a b' := by
  simp only [bind, h]

theorem bind_fail {x : Get ε α} {f : α → Get ε β} {e : ε} {b b' : Bytes}
    (h : x b = .ok (.error e, b')) : (x >>= f) b = .ok (.error e, b') := by
  simp only [bind, h]

theorem bind_panic {x : Get ε α} {f : α → Get ε β} {p : Panic} {b : Bytes}
    (h : x b = .error p) : (x >>= f) b = .error p := by
  simp only [bind, h]

/-- A sequence that returns is taken apart at its first step. -/
theorem bind_returns {x : Get ε α} {f : α → Get ε β} {c : β} {b b'' : Bytes}
    (h : (x >>= f) b = .ok (.ok c, b'')) : ∃ a b', x b = .ok (.ok a, b') ∧ f a b' = .ok (.ok c, b'') := by
  simp only [bind] at h
  split at h
  · cases h
  · cases h
  · rename_i a b' hx
    exact ⟨a, b', hx, h⟩

theorem bind_assoc {γ : Type} (x : Get ε α) (f : α → Get ε β) (g : β → Get ε γ) :
    (x >>= f) >>= g = x >>= fun a => f a >>= g := by
  funext b
  simp only [bind]
  rcases x b with p | ⟨e | a, b'⟩ <;> rfl

theorem mapError_bind (g : ε → ε') (x : Get ε α) (f : α → Get ε β) :
    mapError g (x >>= f) = mapError g x >>= fun a => mapError g (f a) := by
  funext b
  simp only [bind, mapError]
  rcases x b with p | ⟨e | a, b'⟩ <;> rfl

theorem mapError_ok {g : ε → ε'} {x : Get ε α} {a : α} {b b' : Bytes}
    (h : x b = .ok (.ok a, b')) : mapError g x b = .ok (.ok a, b') := by
  simp only [mapError, h]

theorem tryGetSlice_append (a s : Bytes) : tryGetSlice a.length (a ++ s) = .ok (.ok a, s) := by
  simp [tryGetSlice]

theorem tryGetUint_append {n : ℕ} {a : Bytes} (s : Bytes) (h : a.length = n) :
    tryGetUint n (a ++ s) = .ok (.ok (beNat a), s) := by
  subst h; simp [tryGetUint]

/-! ## Readers that cannot panic -/

/-- The reader never panics and leaves a suffix of its input. -/
def Total (x : Get ε α) : Prop := ∀ b, ∃ r b', x b = .ok (r, b') ∧ b' <:+ b

theorem Total.pure (a : α) : Total (Pure.pure a : Get ε α) :=
  fun b => ⟨.ok a, b, rfl, List.suffix_refl b⟩

theorem Total.fail (e : ε) : Total (fail e : Get ε α) := fun b => ⟨.error e, b, rfl, List.suffix_refl b⟩

theorem Total.bind {x : Get ε α} {f : α → Get ε β} (hx : Total x) (hf : ∀ a, Total (f a)) :
    Total (x >>= f) := by
  intro b
  obtain ⟨r, b', h, hs⟩ := hx b
  cases r with
  | error e => exact ⟨.error e, b', bind_fail h, hs⟩
  | ok a =>
      obtain ⟨r, b'', h', hs'⟩ := hf a b'
      exact ⟨r, b'', by rw [bind_ok h, h'], hs'.trans hs⟩

theorem Total.mapError {g : ε → ε'} {x : Get ε α} (hx : Total x) : Total (mapError g x) := by
  intro b
  obtain ⟨r, b', h, hs⟩ := hx b
  cases r with
  | error e => exact ⟨.error (g e), b', by simp only [Get.mapError, h], hs⟩
  | ok a => exact ⟨.ok a, b', by simp only [Get.mapError, h], hs⟩

theorem total_tryGetSlice (n : ℕ) : Total (tryGetSlice n) := by
  intro b
  by_cases h : n ≤ b.length
  · exact ⟨.ok (b.take n), b.drop n, by rw [tryGetSlice, if_pos h], List.drop_suffix n b⟩
  · exact ⟨.error ⟨n, b.length⟩, b, by rw [tryGetSlice, if_neg h], List.suffix_refl b⟩

theorem total_tryGetUint (n : ℕ) : Total (tryGetUint n) := by
  intro b
  by_cases h : n ≤ b.length
  · exact ⟨.ok (beNat (b.take n)), b.drop n, by rw [tryGetUint, if_pos h], List.drop_suffix n b⟩
  · exact ⟨.error ⟨n, b.length⟩, b, by rw [tryGetUint, if_neg h], List.suffix_refl b⟩

/-! ## What is returned -/

/-- Every value that the reader returns satisfies `Q`. -/
def Yields (x : Get ε α) (Q : α → Prop) : Prop := ∀ b a b', x b = .ok (.ok a, b') → Q a

theorem Yields.any (x : Get ε α) : Yields x fun _ => True := fun _ _ _ _ => trivial

theorem Yields.pure {Q : α → Prop} {a : α} (h : Q a) : Yields (Pure.pure a : Get ε α) Q := by
  intro b a' b' h'
  cases h'
  exact h

theorem Yields.fail {Q : α → Prop} (e : ε) : Yields (Get.fail e : Get ε α) Q := by
  intro b a b' h
  cases h

theorem Yields.bind {P : α → Prop} {Q : β → Prop} {x : Get ε α} {f : α → Get ε β} (hx : Yields x P)
    (hf : ∀ a, P a → Yields (f a) Q) : Yields (x >>= f) Q := by
  intro b c b'' h
  obtain ⟨a, b', ha, h⟩ := bind_returns h
  exact hf a (hx b a b' ha) b' c b'' h

theorem Yields.mapError {g : ε → ε'} {Q : α → Prop} {x : Get ε α} (h : Yields x Q) : Yields (mapError g x) Q := by
  intro b a b' hb
  unfold Get.mapError at hb
  split at hb
  · cases hb
  · cases hb
  · rename_i a₁ b₁ hx
    cases hb
    exact h b _ _ hx

theorem Yields.ite {c : Prop} [Decidable c] {Q : α → Prop} {x y : Get ε α} (hx : c → Yields x Q)
    (hy : ¬ c → Yields y Q) : Yields (if c then x else y) Q := by
  split_ifs with h
  · exact hx h
  · exact hy h

/-- An integer of `n` bytes. -/
theorem yields_tryGetUint (n : ℕ) : Yields (tryGetUint n) fun v => v < 256 ^ n := by
  intro b v b' h
  unfold tryGetUint at h
  split_ifs at h with hn
  · cases h
    have := beNat_lt (b.take n)
    rwa [List.length_take_of_le hn] at this
  · cases h

/-! ## Readers that follow a grammar -/

/-- The reader returns the value and the rest that `w` gives, and fails where `w` gives none. -/
def Reads (x : Get ε α) (w : Bytes → Option (α × Bytes)) : Prop :=
  ∀ b, match w b with
    | some (a, b') => x b = .ok (.ok a, b')
    | none => ∃ e b', x b = .ok (.error e, b')

/-- Take a value with `w`, and go on with it. -/
def follow (w : Bytes → Option (α × Bytes)) (t : α → Bytes → Option Bytes) (b : Bytes) :
    Option Bytes := (w b).bind fun p => t p.1 p.2

/-- Go on only if `c` holds. -/
def require (c : Prop) [Decidable c] (t : Bytes → Option Bytes) (b : Bytes) : Option Bytes :=
  if c then t b else none

/-- On `b` the reader returns some value and leaves the rest that `s` gives, or fails if `s` gives
none. -/
def SkipsAt (x : Get ε α) (s : Bytes → Option Bytes) (b : Bytes) : Prop :=
  match s b with
  | some b' => ∃ a, x b = .ok (.ok a, b')
  | none => ∃ e b', x b = .ok (.error e, b')

/-- The reader follows `s` on every input. -/
def Skips (x : Get ε α) (s : Bytes → Option Bytes) : Prop := ∀ b, SkipsAt x s b

theorem require_eq_some {c : Prop} [Decidable c] {t : Bytes → Option Bytes} {b b' : Bytes} :
    require c t b = some b' ↔ c ∧ t b = some b' := by
  unfold require
  split_ifs with h <;> simp [h]

theorem SkipsAt.of_some {x : Get ε α} {s : Bytes → Option Bytes} {b b' : Bytes} {a : α}
    (hs : s b = some b') (h : x b = .ok (.ok a, b')) : SkipsAt x s b := by
  unfold SkipsAt
  rw [hs]
  exact ⟨a, h⟩

theorem SkipsAt.of_none {x : Get ε α} {s : Bytes → Option Bytes} {b b' : Bytes} {e : ε}
    (hs : s b = none) (h : x b = .ok (.error e, b')) : SkipsAt x s b := by
  unfold SkipsAt
  rw [hs]
  exact ⟨e, b', h⟩

theorem SkipsAt.returns {x : Get ε α} {s : Bytes → Option Bytes} {b b' : Bytes} (h : SkipsAt x s b)
    (hs : s b = some b') : ∃ a, x b = .ok (.ok a, b') := by
  unfold SkipsAt at h
  rw [hs] at h
  exact h

theorem SkipsAt.fails {x : Get ε α} {s : Bytes → Option Bytes} {b : Bytes} (h : SkipsAt x s b)
    (hs : s b = none) : ∃ e b', x b = .ok (.error e, b') := by
  unfold SkipsAt at h
  rw [hs] at h
  exact h

/-- What follows the grammar after a step follows it before the step. -/
theorem SkipsAt.of_eq {x y : Get ε α} {s t : Bytes → Option Bytes} {b b' : Bytes} (hs : s b = t b')
    (hx : x b = y b') (h : SkipsAt y t b') : SkipsAt x s b := by
  unfold SkipsAt at h ⊢
  rw [hs, hx]
  exact h

theorem Skips.pure (a : α) : Skips (Pure.pure a : Get ε α) some := fun _ => ⟨a, rfl⟩

theorem Reads.returns {x : Get ε α} {w : Bytes → Option (α × Bytes)} (h : Reads x w) {b b' : Bytes}
    {a : α} (hw : w b = some (a, b')) : x b = .ok (.ok a, b') := by
  have hb := h b
  rw [hw] at hb
  exact hb

theorem Reads.fails {x : Get ε α} {w : Bytes → Option (α × Bytes)} (h : Reads x w) {b : Bytes}
    (hw : w b = none) : ∃ e b', x b = .ok (.error e, b') := by
  have hb := h b
  rw [hw] at hb
  exact hb

theorem Reads.skips {x : Get ε α} {w : Bytes → Option (α × Bytes)} (h : Reads x w) :
    Skips x fun b => (w b).map Prod.snd := by
  intro b
  cases hw : w b with
  | none =>
      obtain ⟨e, b', hb⟩ := h.fails hw
      exact .of_none (by rw [hw]; rfl) hb
  | some p => exact .of_some (by rw [hw]; rfl) (h.returns hw)

theorem Reads.mapError {g : ε → ε'} {x : Get ε α} {w : Bytes → Option (α × Bytes)} (h : Reads x w) :
    Reads (mapError g x) w := by
  intro b
  cases hw : w b with
  | none =>
      obtain ⟨e, b', hb⟩ := h.fails hw
      exact ⟨g e, b', by simp only [Get.mapError, hb]⟩
  | some p =>
      obtain ⟨a, b'⟩ := p
      exact mapError_ok (h.returns hw)

/-- What is read next may depend on what was read. -/
theorem Reads.bind_at {x : Get ε α} {f : α → Get ε β} {w : Bytes → Option (α × Bytes)}
    {t : α → Bytes → Option Bytes} (hx : Reads x w) {b : Bytes}
    (hf : ∀ a b', w b = some (a, b') → SkipsAt (f a) (t a) b') :
    SkipsAt (x >>= f) (follow w t) b := by
  cases hw : w b with
  | none =>
      obtain ⟨e, b', hb⟩ := hx.fails hw
      exact .of_none (by rw [follow, hw]; rfl) (bind_fail hb)
  | some p =>
      refine (hf p.1 p.2 hw).of_eq ?_ (bind_ok (hx.returns hw))
      rw [follow, hw, Option.bind_some]

theorem Reads.bind {x : Get ε α} {f : α → Get ε β} {w : Bytes → Option (α × Bytes)}
    {t : α → Bytes → Option Bytes} (hx : Reads x w) (hf : ∀ a, Skips (f a) (t a)) :
    Skips (x >>= f) (follow w t) := fun _ => hx.bind_at fun a b' _ => hf a b'

theorem Skips.bind {x : Get ε α} {f : α → Get ε β} {s t : Bytes → Option Bytes} (hx : Skips x s)
    (hf : ∀ a, Skips (f a) t) : Skips (x >>= f) fun b => (s b).bind t := by
  intro b
  cases hs : s b with
  | none =>
      obtain ⟨e, b', hb⟩ := (hx b).fails hs
      exact .of_none (by rw [hs]; rfl) (bind_fail hb)
  | some b' =>
      obtain ⟨a, hb⟩ := (hx b).returns hs
      refine (hf a b').of_eq ?_ (bind_ok hb)
      rw [hs, Option.bind_some]

end Get

end Lib
