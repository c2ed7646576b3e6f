import MzQuic.Lib.Bytes

/-!
# Variable-length integers (`proto/src/varint.rs`)

The two top bits of the first byte give the length, one of `1`, `2`, `4` and `8` bytes; the other
bits carry the value, most significant first.

* `varintLen`, `varintParseLen`, `tryGetVarint`, `putVarint`, and the two functions for
  length-prefixed byte strings;
* `tryGetVarint_eq`: what the reader does, in one line for all four lengths;
* `varintBytes`, `appends_putVarint`: what the writer appends;
* **`tryGetVarint_varintBytes`**: reading back what was written;
* `VarintSpan`, `tryGetVarint_span`: the bytes that a read takes, one span for each length (`VarintSpan.unique`);
* **`varint_round_trip`**: both directions.
-/

namespace MzQuic

open Lib

def varintMax1 : ℕ := 2 ^ 6 - 1
def varintMax2 : ℕ := 2 ^ 14 - 1
def varintMax4 : ℕ := 2 ^ 30 - 1
def varintMax8 : ℕ := 2 ^ 62 - 1

/-- How many bytes it takes to encode `v`; larger values panic. -/
def varintLen (v : ℕ) : Checked ℕ :=
  if v ≤ varintMax1 then .ok 1
  else if v ≤ varintMax2 then .ok 2
  else if v ≤ varintMax4 then .ok 4
  else if v ≤ varintMax8 then .ok 8
  else .error .explicit

/-- How long the integer is, given its first byte. -/
def varintParseLen (first : UInt8) : ℕ := 1 <<< (first >>> 6).toNat

/-- Read a variable-length integer. -/
def tryGetVarint : Get TryGetError ℕ := do
  match (← Get.rest).head? with
  | none => Get.fail ⟨1, 0⟩
  | some first =>
    match varintParseLen first with
    | 1 => return (← Get.tryGetUint 1) &&& varintMax1
    | 2 => return (← Get.tryGetUint 2) &&& varintMax2
    | 4 => return (← Get.tryGetUint 4) &&& varintMax4
    | 8 => return (← Get.tryGetUint 8) &&& varintMax8
    | _ => Get.panic .unreachable

/-- Read a byte string prefixed with its length. -/
def tryGetBytesWithVarintLength : Get TryGetError Bytes := do
  let len ← tryGetVarint
  Get.tryGetSlice len

/-- Write a variable-length integer. -/
def putVarint (v : ℕ) (out : BufMut) : Checked BufMut := do
  match ← varintLen v with
  | 1 => out.putUint 1 v
  | 2 => out.putUint 2 ((0b01 <<< 14) ||| v)
  | 4 => out.putUint 4 ((0b10 <<< 30) ||| v)
  | 8 => out.putUint 8 ((0b11 <<< 62) ||| v)
  | _ => .error .unreachable

/-- Write a byte string prefixed with its length. -/
def putBytesWithVarintLength (bytes : Bytes) (out : BufMut) : Checked BufMut := do
  let out ← putVarint bytes.length out
  out.putSlice bytes

/-! ## The reader -/

theorem varintParseLen_eq (first : UInt8) : varintParseLen first = 2 ^ (first.toNat / 64) := by
  have h : (first >>> 6).toNat = first.toNat / 64 := by
    simp [Nat.shiftRight_eq_div_pow]
  rw [varintParseLen, h, Nat.one_shiftLeft]

theorem varintParseLen_cases (first : UInt8) : varintParseLen first = 1 ∨ varintParseLen first = 2 ∨
    varintParseLen first = 4 ∨ varintParseLen first = 8 := by
  have h : first.toNat < 256 := first.toNat_lt
  have h4 : first.toNat / 64 < 4 := by omega
  rw [varintParseLen_eq]
  generalize first.toNat / 64 = t at h4
  interval_cases t <;> simp

theorem tryGetVarint_nil : tryGetVarint [] = .ok (.error ⟨1, 0⟩, []) := rfl

theorem map_tryGetUint {k m : ℕ} {b : Bytes} :
    ((do return (← Get.tryGetUint k) &&& m : Get TryGetError ℕ)) b =
      if k ≤ b.length then .ok (.ok (beNat (b.take k) &&& m), b.drop k)
      else .ok (.error ⟨k, b.length⟩, b) := by
  by_cases h : k ≤ b.length
  · have hget : (Get.tryGetUint k : Get TryGetError ℕ) b = .ok (.ok (beNat (b.take k)), b.drop k) := by
      rw [Get.tryGetUint, if_pos h]
    rw [if_pos h, Get.bind_ok hget]
    rfl
  · rw [if_neg h, Get.bind_fail]
    rw [Get.tryGetUint, if_neg h]

/-- **The reader, for all four lengths at once.** -/
theorem tryGetVarint_eq (x : UInt8) (b : Bytes) :
    tryGetVarint (x :: b) =
      if varintParseLen x ≤ (x :: b).length then
        .ok (.ok (beNat ((x :: b).take (varintParseLen x)) % 2 ^ (8 * varintParseLen x - 2)),
          (x :: b).drop (varintParseLen x))
      else .ok (.error ⟨varintParseLen x, (x :: b).length⟩, x :: b) := by
  have hm : ∀ n k : ℕ, n &&& (2 ^ k - 1) = n % 2 ^ k := Nat.and_two_pow_sub_one_eq_mod
  have hrest : (Get.rest : Get TryGetError Bytes) (x :: b) = .ok (.ok (x :: b), x :: b) := rfl
  rw [tryGetVarint, Get.bind_ok hrest]
  simp only [List.head?_cons]
  rcases varintParseLen_cases x with h | h | h | h
  · simp only [h]; rw [map_tryGetUint, varintMax1, hm]
  · simp only [h]; rw [map_tryGetUint, varintMax2, hm]
  · simp only [h]; rw [map_tryGetUint, varintMax4, hm]
  · simp only [h]; rw [map_tryGetUint, varintMax8, hm]

theorem total_tryGetVarint : Get.Total tryGetVarint := by
  intro b
  cases b with
  | nil => exact ⟨_, _, tryGetVarint_nil, List.suffix_refl _⟩
  | cons x b =>
      rw [tryGetVarint_eq]
      split_ifs
      · exact ⟨_, _, rfl, List.drop_suffix _ _⟩
      · exact ⟨_, _, rfl, List.suffix_refl _⟩

theorem total_tryGetBytesWithVarintLength : Get.Total tryGetBytesWithVarintLength :=
  total_tryGetVarint.bind fun n => Get.total_tryGetSlice n

/-- A successful read takes at least one byte and gives a value below `2 ^ 62`. -/
theorem tryGetVarint_ok {b b' : Bytes} {v : ℕ} (h : tryGetVarint b = .ok (.ok v, b')) :
    b'.length < b.length ∧ v < 2 ^ 62 := by
  cases b with
  | nil => rw [tryGetVarint_nil] at h; cases h
  | cons x b =>
      rw [tryGetVarint_eq] at h
      split_ifs at h with hk
      · obtain ⟨rfl, rfl⟩ : _ = v ∧ _ = b' := by simpa using h
        have hc := varintParseLen_cases x
        refine ⟨by rw [List.length_drop]; omega, ?_⟩
        refine lt_of_lt_of_le (Nat.mod_lt _ (by positivity)) (Nat.pow_le_pow_right (by norm_num) ?_)
        omega
      · cases h

/-! ## The writer -/

/-- The encoding of `v`. -/
def varintBytes (v : ℕ) : Bytes :=
  if v < 2 ^ 6 then beBytes 1 v
  else if v < 2 ^ 14 then beBytes 2 (1 * 2 ^ 14 + v)
  else if v < 2 ^ 30 then beBytes 4 (2 * 2 ^ 30 + v)
  else beBytes 8 (3 * 2 ^ 62 + v)

/-- The length of the encoding of `v`. -/
def varintSize (v : ℕ) : ℕ :=
  if v < 2 ^ 6 then 1 else if v < 2 ^ 14 then 2 else if v < 2 ^ 30 then 4 else 8

@[simp] theorem length_varintBytes (v : ℕ) : (varintBytes v).length = varintSize v := by
  unfold varintBytes varintSize
  split_ifs <;> simp

theorem varintSize_pos (v : ℕ) : 1 ≤ varintSize v := by
  unfold varintSize; split_ifs <;> omega

theorem varintSize_le (v : ℕ) : varintSize v ≤ 8 := by
  unfold varintSize; split_ifs <;> omega

theorem varintLen_eq {v : ℕ} (h : v < 2 ^ 62) : varintLen v = .ok (varintSize v) := by
  unfold varintLen varintSize varintMax1 varintMax2 varintMax4 varintMax8
  split_ifs <;> first | rfl | (exfalso; omega)

theorem varintLen_eq_error {v : ℕ} (h : 2 ^ 62 ≤ v) : varintLen v = .error .explicit := by
  unfold varintLen varintMax1 varintMax2 varintMax4 varintMax8
  split_ifs <;> first | rfl | (exfalso; omega)

theorem shiftLeft_or {a k v : ℕ} (h : v < 2 ^ k) : (a <<< k) ||| v = a * 2 ^ k + v := by
  rw [Nat.shiftLeft_eq, Nat.mul_comm a, Nat.two_pow_add_eq_or_of_lt h]

/-- **The writer appends `varintBytes v`.** -/
theorem appends_putVarint {v : ℕ} (h : v < 2 ^ 62) : Appends (putVarint v) (varintBytes v) := by
  have key : putVarint v = fun out => out.putSlice (varintBytes v) := by
    funext out
    unfold putVarint varintBytes
    rw [varintLen_eq h]
    unfold varintSize
    split_ifs with h1 h2 h3
    · rfl
    · simp only [Checked.ok_bind]; rw [shiftLeft_or h2]; rfl
    · simp only [Checked.ok_bind]; rw [shiftLeft_or h3]; rfl
    · simp only [Checked.ok_bind]; rw [shiftLeft_or h]; rfl
  rw [key]
  exact appends_putSlice _

theorem putVarint_eq_error {v : ℕ} (h : 2 ^ 62 ≤ v) (out : BufMut) :
    putVarint v out = .error .explicit := by
  rw [putVarint, varintLen_eq_error h]; rfl

theorem appends_putBytesWithVarintLength {bs : Bytes} (h : bs.length < 2 ^ 62) :
    Appends (putBytesWithVarintLength bs) (varintBytes bs.length ++ bs) :=
  (appends_putVarint h).seq (appends_putSlice bs)

/-! ## Round trip -/

/-- The head of a tagged big-endian integer carries the tag. -/
theorem beBytes_tag {t n v : ℕ} (ht : t < 4) (hv : v < 2 ^ (8 * n + 6)) :
    ∃ x b, beBytes (n + 1) (t * 2 ^ (8 * n + 6) + v) = x :: b ∧ x.toNat / 64 = t := by
  refine ⟨_, _, rfl, ?_⟩
  have e : (2 : ℕ) ^ (8 * n + 6) = 64 * 256 ^ n := by
    rw [pow_add, pow_mul]; norm_num; ring
  rw [e] at hv ⊢
  have hq : v / 256 ^ n < 64 := Nat.div_lt_of_lt_mul (by rw [Nat.mul_comm]; exact hv)
  have hd : (t * (64 * 256 ^ n) + v) / 256 ^ n = t * 64 + v / 256 ^ n := by
    rw [← Nat.mul_assoc, Nat.mul_comm, Nat.mul_add_div (by positivity)]
  rw [hd, UInt8.toNat_ofNat']
  generalize v / 256 ^ n = q at hq
  omega

theorem tryGetVarint_tagged {t n v : ℕ} (ht : t < 4) (hn : n + 1 = 2 ^ t)
    (hv : v < 2 ^ (8 * n + 6)) (s : Bytes) :
    tryGetVarint (beBytes (n + 1) (t * 2 ^ (8 * n + 6) + v) ++ s) = .ok (.ok v, s) := by
  obtain ⟨x, b, hb, hx⟩ := beBytes_tag ht hv
  have hlen : (x :: b).length = n + 1 := by rw [← hb, length_beBytes]
  have hk : varintParseLen x = n + 1 := by rw [varintParseLen_eq, hx, hn]
  have hval : beNat (x :: b) = t * 2 ^ (8 * n + 6) + v := by
    rw [← hb, beNat_beBytes, Nat.mod_eq_of_lt]
    have e : (256 : ℕ) ^ (n + 1) = 4 * 2 ^ (8 * n + 6) := by
      rw [show (256 : ℕ) = 2 ^ 8 by norm_num, ← pow_mul, show (4 : ℕ) = 2 ^ 2 by norm_num, ← pow_add]
      congr 1; ring
    rw [e]
    have := Nat.mul_le_mul_right (2 ^ (8 * n + 6)) (show t ≤ 3 by omega)
    omega
  rw [hb, List.cons_append, tryGetVarint_eq, ← List.cons_append, hk, if_pos (by
    rw [List.length_append]; omega), ← hlen, List.take_left, List.drop_left, hval, hlen,
    show 8 * (n + 1) - 2 = 8 * n + 6 by omega, Nat.mul_comm, Nat.mul_add_mod, Nat.mod_eq_of_lt hv]

/-- **Reading back what was written**, whatever follows it. -/
theorem tryGetVarint_varintBytes {v : ℕ} (h : v < 2 ^ 62) (s : Bytes) :
    tryGetVarint (varintBytes v ++ s) = .ok (.ok v, s) := by
  unfold varintBytes
  split_ifs with h1 h2 h3
  · simpa using tryGetVarint_tagged (t := 0) (n := 0) (v := v) (by norm_num) rfl (by simpa using h1) s
  · exact tryGetVarint_tagged (t := 1) (n := 1) (by norm_num) rfl h2 s
  · exact tryGetVarint_tagged (t := 2) (n := 3) (by norm_num) rfl h3 s
  · exact tryGetVarint_tagged (t := 3) (n := 7) (by norm_num) rfl h s

theorem tryGetBytesWithVarintLength_append {bs : Bytes} (h : bs.length < 2 ^ 62) (s : Bytes) :
    tryGetBytesWithVarintLength (varintBytes bs.length ++ bs ++ s) = .ok (.ok bs, s) := by
  rw [List.append_assoc, tryGetBytesWithVarintLength, Get.bind_ok (tryGetVarint_varintBytes h _)]
  exact Get.tryGetSlice_append bs s

/-! ## Both directions -/

theorem varintSize_cases (v : ℕ) : varintSize v = 1 ∨ varintSize v = 2 ∨ varintSize v = 4 ∨ varintSize v = 8 := by
  unfold varintSize
  split_ifs <;> simp

theorem varintSize_mono {v w : ℕ} (h : v ≤ w) : varintSize v ≤ varintSize w := by
  unfold varintSize
  split_ifs <;> omega

/-- No value that is read from as many bytes takes more. -/
theorem varintSize_le_parseLen {x : UInt8} {v : ℕ} (h : v < 2 ^ (8 * varintParseLen x - 2)) :
    varintSize v ≤ varintParseLen x := by
  unfold varintSize
  rcases varintParseLen_cases x with hk | hk | hk | hk <;> rw [hk] at h ⊢ <;> norm_num at h <;>
    split_ifs <;> omega

/-- The bytes are those of one integer, `x` the first of them: the length is the one that `x` gives, and the
integer is the tag of `x` and the value. -/
structure VarintSpan (v : ℕ) (x : UInt8) (bs : Bytes) : Prop where
  head : bs.head? = some x
  length : bs.length = varintParseLen x
  value : beNat bs = x.toNat / 64 * 2 ^ (8 * varintParseLen x - 2) + v
  lt : v < 2 ^ (8 * varintParseLen x - 2)

/-- The tag and the value, split off an integer of as many bytes as the tag says. -/
theorem beNat_tag (x : UInt8) {bs : Bytes} (hl : bs.length + 1 = varintParseLen x) :
    beNat (x :: bs) / 2 ^ (8 * varintParseLen x - 2) = x.toNat / 64 := by
  have e : (2 : ℕ) ^ (8 * varintParseLen x - 2) = 256 ^ bs.length * 64 := by
    rw [show 8 * varintParseLen x - 2 = 8 * bs.length + 6 by omega, pow_add, pow_mul]
    norm_num
  rw [beNat_cons, e, ← Nat.div_div_eq_div_mul, Nat.mul_comm, Nat.mul_add_div (by positivity),
    Nat.div_eq_of_lt (beNat_lt bs), Nat.add_zero]

/-- **What a successful read consumes.** -/
theorem tryGetVarint_span {b b' : Bytes} {v : ℕ} (h : tryGetVarint b = .ok (.ok v, b')) :
    ∃ x bs, b = bs ++ b' ∧ VarintSpan v x bs := by
  cases b with
  | nil => rw [tryGetVarint_nil] at h; cases h
  | cons x b =>
      rw [tryGetVarint_eq] at h
      split_ifs at h with hk
      · obtain ⟨rfl, rfl⟩ : _ = v ∧ _ = b' := by simpa using h
        obtain ⟨k, hk'⟩ : ∃ k, varintParseLen x = k + 1 := by
          rcases varintParseLen_cases x with h | h | h | h <;> rw [h] <;> exact ⟨_, rfl⟩
        have htake : (x :: b).take (varintParseLen x) = x :: b.take k := by rw [hk', List.take_succ_cons]
        have hlen : ((x :: b).take (varintParseLen x)).length = varintParseLen x := List.length_take_of_le hk
        have hk₁ : (b.take k).length + 1 = varintParseLen x := by rw [← hlen, htake, List.length_cons]
        have htag := beNat_tag x hk₁
        refine ⟨x, (x :: b).take (varintParseLen x), (List.take_append_drop _ _).symm, by rw [htake]; rfl, hlen,
          ?_, Nat.mod_lt _ (by positivity)⟩
        rw [htake, ← htag, Nat.mul_comm]
        exact (Nat.div_add_mod _ _).symm
      · cases h

/-- **A value has one encoding of each length.** -/
theorem VarintSpan.unique {v : ℕ} {x y : UInt8} {bs cs : Bytes} (h : VarintSpan v x bs) (h' : VarintSpan v y cs)
    (hl : bs.length = cs.length) : bs = cs := by
  have hk : varintParseLen x = varintParseLen y := by rw [← h.length, ← h'.length, hl]
  have htag : x.toNat / 64 = y.toNat / 64 := by
    rw [varintParseLen_eq, varintParseLen_eq] at hk
    exact Nat.pow_right_injective le_rfl hk
  refine beNat_inj hl ?_
  rw [h.value, h'.value, htag, hk]

/-- What is written is the encoding of its length. -/
theorem varintSpan_varintBytes {v : ℕ} (h : v < 2 ^ 62) : ∃ x, VarintSpan v x (varintBytes v) := by
  obtain ⟨x, bs, hb, hspan⟩ := tryGetVarint_span (tryGetVarint_varintBytes h [])
  rw [List.append_nil, List.append_nil] at hb
  rw [hb]
  exact ⟨x, hspan⟩

/-- A span is what is written of its value if and only if it has the length of that. -/
theorem VarintSpan.appends_iff {v : ℕ} {x : UInt8} {bs : Bytes} (h : VarintSpan v x bs) (hv : v < 2 ^ 62) :
    Appends (putVarint v) bs ↔ varintSize v = bs.length := by
  obtain ⟨y, hspan⟩ := varintSpan_varintBytes hv
  constructor
  · intro ha
    rw [← length_varintBytes, (appends_putVarint hv).unique ha]
  · intro hl
    rw [h.unique hspan (by rw [length_varintBytes, hl])]
    exact appends_putVarint hv

/-- **Varints round-trip in both directions.** What is written of a value below `2 ^ 62` has the length that
`varint_len` gives; followed by anything, it is read as the value, and what followed is left. Conversely, every
read returns. If it succeeds, the value is below `2 ^ 62`, the bytes that it took are as many as the first of
them says and at least as many as the value needs, and they are what is written of the value if and only if they
are no more than that. If it fails, it took nothing, and there is no byte or there are fewer than the first one
says. -/
theorem varint_round_trip :
    (∀ v < 2 ^ 62, ∃ bs n, Appends (putVarint v) bs ∧ varintLen v = .ok n ∧ bs.length = n ∧
      ∀ s, tryGetVarint (bs ++ s) = .ok (.ok v, s)) ∧
    ∀ b, ∃ r b', tryGetVarint b = .ok (r, b') ∧
      (∀ v, r = .ok v → v < 2 ^ 62 ∧ ∃ x bs n, b = bs ++ b' ∧ b.head? = some x ∧ bs.length = varintParseLen x ∧
        varintLen v = .ok n ∧ n ≤ bs.length ∧ (Appends (putVarint v) bs ↔ n = bs.length)) ∧
      ∀ e, r = .error e → b' = b ∧ (b = [] ∨ ∃ x, b.head? = some x ∧ b.length < varintParseLen x) := by
  refine ⟨fun v hv => ?_, fun b => ?_⟩
  · exact ⟨varintBytes v, varintSize v, appends_putVarint hv, varintLen_eq hv, length_varintBytes v,
      tryGetVarint_varintBytes hv⟩
  · obtain ⟨r, b', h, -⟩ := total_tryGetVarint b
    refine ⟨r, b', h, fun v hr => ?_, fun e hr => ?_⟩
    · subst hr
      have hv := (tryGetVarint_ok h).2
      obtain ⟨x, bs, rfl, hspan⟩ := tryGetVarint_span h
      refine ⟨hv, x, bs, varintSize v, rfl, ?_, hspan.length, varintLen_eq hv, ?_, hspan.appends_iff hv⟩
      · rw [List.head?_append, hspan.head, Option.some_or]
      · rw [hspan.length]
        exact varintSize_le_parseLen hspan.lt
    · subst hr
      cases b with
      | nil =>
          cases h
          exact ⟨rfl, .inl rfl⟩
      | cons x b =>
          rw [tryGetVarint_eq] at h
          split_ifs at h with hk
          · cases h
          · cases h
            exact ⟨rfl, .inr ⟨x, rfl, Nat.lt_of_not_le hk⟩⟩

/-- 37 is read from two bytes, of which the writer needs one. -/
example : tryGetVarint [0x40, 0x25, 7] = .ok (.ok 37, [7]) ∧ varintBytes 37 = [0x25] := ⟨rfl, rfl⟩

end MzQuic
