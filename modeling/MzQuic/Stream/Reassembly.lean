import MzQuic.Stream.Segments

/-!
# Reassembly of a byte string

One assembler, driven by inserts of slices of a string `S` and by ordered reads. `AsmRun` carries
the ranges inserted and the bytes delivered so far beside the assembler.

* `AsmRun.Inv`: the delivered bytes are a prefix of `S`, and the offsets inserted so far are those
  delivered and those held; `asmStep_spec` keeps it;
* `readOn`: reading on until `read` returns `None`;
* **`reassembly_complete`**: if every frame arrives `Apart` and the assembler has `Room` for it, all inserted
  bytes of the contiguous prefix are delivered;
* `reassembly_drops_bytes`: a frame that begins inside a buffered segment makes `insert` drop the
  part of that segment before it.
-/

namespace MzQuic

open Lib

/-- An operation on the assembler: insert `S[o..o+l]` with allocation size `a`, or read. -/
inductive AsmOp
  | insert (o l a : ℕ)
  | read (m : ℕ)
  deriving DecidableEq

/-- The call that the operation makes. -/
def AsmOp.call (S : Bytes) : AsmOp → AssemblerCall
  | .insert o l a => .insert o ((S.drop o).take l) a
  | .read m => .read m

/-- The range that the operation inserts. -/
def AsmOp.ranges : AsmOp → List Range
  | .insert o l _ => [⟨o, o + l⟩]
  | .read _ => []

/-- The slice exists and its allocation is large enough. -/
def AsmOp.Valid (S : Bytes) : AsmOp → Prop
  | .insert o l a => o + l ≤ S.length ∧ l ≤ a
  | .read _ => True

/-- An assembler with the history of its run. -/
structure AsmRun where
  asm : Assembler
  inserted : List Range
  delivered : Bytes
  deriving DecidableEq

/-- The start of a run. -/
def AsmRun.init : AsmRun := ⟨Assembler.default, [], []⟩

/-- Some inserted range holds `x`. -/
def AsmRun.Inserted (r : AsmRun) (x : ℕ) : Prop := ∃ i ∈ r.inserted, x ∈ i

/-- One operation: the call is made, and a chunk that it hands out is delivered. -/
def asmStep (S : Bytes) (r : AsmRun) (op : AsmOp) : Checked AsmRun := do
  let (chunk, asm) ← (op.call S).apply r.asm
  return ⟨asm, op.ranges ++ r.inserted, r.delivered ++ chunk.elim [] Chunk.bytes⟩

/-- No buffered segment contains the first unread offset of the slice in its inside, and the counter of allocated
bytes has room for it. -/
def AsmOp.Fits (S : Bytes) (r : AsmRun) : AsmOp → Prop
  | .insert o l a => r.asm.Apart o ((S.drop o).take l) ∧ r.asm.Room o ((S.drop o).take l) a
  | .read _ => True

instance AsmOp.decidableFits (S : Bytes) (r : AsmRun) : ∀ op : AsmOp, Decidable (op.Fits S r)
  | .insert o l a => inferInstanceAs (Decidable (r.asm.Apart o ((S.drop o).take l) ∧ r.asm.Room o _ a))
  | .read _ => .isTrue trivial

/-- Read with the lengths `ms` until `read` returns `None`; whether it did, and what was read. -/
def readOn (a : Assembler) : List ℕ → Checked (Bool × Bytes)
  | [] => .ok (false, [])
  | m :: ms => do
    match ← a.read m true with
    | (none, _) => return (true, [])
    | (some c, a') =>
      let (done, bs) ← readOn a' ms
      return (done, c.bytes ++ bs)

/-! ## The invariant -/

/-- The delivered bytes are the first `bytesRead` bytes of `S`, and the offsets inserted so far are
the delivered and the held ones. -/
structure AsmRun.Inv (S : Bytes) (r : AsmRun) : Prop where
  wf : r.asm.WF
  agrees : Agrees S r.asm.data
  read_le : r.asm.bytesRead ≤ S.length
  delivered : r.delivered = S.take r.asm.bytesRead
  inserted : ∀ x, r.Inserted x ↔ x < r.asm.bytesRead ∨ Held r.asm.data x

theorem AsmRun.inv_init (S : Bytes) : AsmRun.init.Inv S where
  wf := Assembler.WF.default
  agrees := fun b hb => by cases hb
  read_le := Nat.zero_le _
  delivered := rfl
  inserted x := by simp [AsmRun.Inserted, AsmRun.init, Assembler.default, held_nil]

variable {S : Bytes}

/-- A chunk that continues the delivered prefix extends it. -/
theorem take_append_slice {n k : ℕ} {bs : Bytes} (h : bs = (S.drop n).take bs.length)
    (hk : bs.length = k) : S.take n ++ bs = S.take (n + k) := by
  rw [h, hk, List.take_add]

theorem slice_bound {n : ℕ} {bs : Bytes} (h : bs = (S.drop n).take bs.length) (hn : n ≤ S.length) :
    n + bs.length ≤ S.length := by
  have := congrArg List.length h
  rw [List.length_take, List.length_drop] at this
  omega

/-- A read that hands out a chunk. -/
theorem asmStep_read {r : AsmRun} {m : ℕ} {c : Chunk} {a' : Assembler}
    (h : r.asm.read m true = .ok (some c, a')) :
    asmStep S r (.read m) = .ok ⟨a', r.inserted, r.delivered ++ c.bytes⟩ := by
  rw [asmStep, AsmOp.call, AssemblerCall.apply, h]
  rfl

/-- **One operation keeps the invariant and returns.** -/
theorem asmStep_spec (r : AsmRun) (op : AsmOp) (hI : r.Inv S) (hv : op.Valid S ∧ op.Fits S r) :
    ∃ r', asmStep S r op = .ok r' ∧ r'.Inv S := by
  obtain ⟨hv, hfits⟩ := hv
  cases op with
  | insert o l a =>
      obtain ⟨hol, hla⟩ := hv
      have hlen : ((S.drop o).take l).length = l := by rw [List.length_take, List.length_drop]; omega
      obtain ⟨a', e, hwf, hread, -, hheld, hag⟩ := Assembler.insert_total hI.wf
        (show _ ≤ a by rw [hlen]; exact hla) hfits.1 hfits.2
      have hstep : asmStep S r (.insert o l a) = .ok ⟨a', ⟨o, o + l⟩ :: r.inserted, r.delivered⟩ := by
        rw [asmStep, AsmOp.call, AssemblerCall.apply, e]
        simp [AsmOp.ranges]
      refine ⟨_, hstep, ⟨hwf, hag S hI.agrees (by rw [hlen]), by rw [hread]; exact hI.read_le,
        by rw [hread]; exact hI.delivered, fun x => ?_⟩⟩
      have : AsmRun.Inserted ⟨a', ⟨o, o + l⟩ :: r.inserted, r.delivered⟩ x ↔
          (o ≤ x ∧ x < o + l) ∨ r.Inserted x := by
        simp [AsmRun.Inserted, Range.mem_iff]
      rw [this, hI.inserted, hread, hheld, hlen]
      constructor
      · rintro (h | h | h)
        · by_cases hx : x < r.asm.bytesRead
          · exact .inl hx
          · exact .inr (.inr (by omega))
        · exact .inl h
        · exact .inr (.inl h)
      · rintro (h | h | h)
        · exact .inr (.inl h)
        · exact .inr (.inr h)
        · exact .inl (by omega)
  | read m =>
      rcases Assembler.read_spec hI.wf m with ⟨e, _⟩ | ⟨c, a', e, hwf, -, hread, -, -, -, -, hheld, hag⟩
      · have hstep : asmStep S r (.read m) = .ok r := by
          rw [asmStep, AsmOp.call, AssemblerCall.apply, e]
          simp [AsmOp.ranges]
        exact ⟨r, hstep, hI⟩
      · obtain ⟨hag', hc⟩ := hag S hI.agrees
        refine ⟨⟨a', r.inserted, r.delivered ++ c.bytes⟩, asmStep_read e,
          ⟨hwf, hag', by rw [hread]; exact slice_bound hc hI.read_le, ?_, fun x => ?_⟩⟩
        · rw [hread, hI.delivered]; exact take_append_slice hc rfl
        · rw [show AsmRun.Inserted ⟨a', r.inserted, r.delivered ++ c.bytes⟩ x ↔ r.Inserted x from Iff.rfl,
            hI.inserted, hheld]
          constructor
          · rintro (h | h | h)
            · exact .inl (by rw [hread]; omega)
            · exact .inl h.2
            · exact .inr h
          · rintro (h | h)
            · by_cases hx : x < r.asm.bytesRead
              · exact .inl hx
              · exact .inr (.inl ⟨by omega, h⟩)
            · exact .inr (.inr h)

/-! ## Reading on -/

/-- **Reading on** returns, stops after as many reads as there are bytes buffered, and has then
delivered everything below the first offset that was not inserted. -/
theorem readOn_spec {r : AsmRun} (hI : r.Inv S) {n : ℕ}
    (hn : IsGreatest {k | ∀ x < k, r.Inserted x} n) (ms : List ℕ) (hms : ∀ m ∈ ms, 1 ≤ m) :
    ∃ done bs, readOn r.asm ms = .ok (done, bs) ∧
      (done = true → r.delivered ++ bs = S.take n ∧ (r.delivered ++ bs).length = n) ∧
      (r.asm.buffered < ms.length → done = true) := by
  induction ms generalizing r with
  | nil => exact ⟨false, [], rfl, (fun h => by cases h), (fun h => by simp at h)⟩
  | cons m ms ih =>
      have hm : 1 ≤ m := hms m (by simp)
      rcases Assembler.read_spec hI.wf m with ⟨e, hmiss⟩ | ⟨c, a', e, hwf, -, hread, -, hbuf, -, hpos, hheld, hag⟩
      · refine ⟨true, [], by simp only [readOn, e]; rfl, fun _ => ?_, fun _ => rfl⟩
        have hall : ∀ x < r.asm.bytesRead, r.Inserted x := fun x hx => (hI.inserted x).mpr (.inl hx)
        have h1 : r.asm.bytesRead ≤ n := hn.2 hall
        have h2 : n ≤ r.asm.bytesRead := by
          by_contra h
          rcases (hI.inserted _).mp (hn.1 r.asm.bytesRead (by omega)) with h | h
          · omega
          · exact hmiss h
        have hnn : r.asm.bytesRead = n := le_antisymm h1 h2
        have hle := hI.read_le
        rw [List.append_nil, hI.delivered, hnn]
        exact ⟨rfl, by rw [List.length_take]; omega⟩
      · obtain ⟨r', e', hI'⟩ := asmStep_spec r (.read m) hI ⟨trivial, trivial⟩
        have hr' : r' = ⟨a', r.inserted, r.delivered ++ c.bytes⟩ := by
          exact Except.ok.inj (e'.symm.trans (asmStep_read e))
        subst hr'
        obtain ⟨done, bs, h1, h2, h3⟩ := ih hI' hn fun x hx => hms x (by simp [hx])
        have hc := List.length_pos_iff.mpr (hpos hm)
        refine ⟨done, c.bytes ++ bs, by simp only [readOn, e, Checked.ok_bind] at h1 ⊢; rw [h1]; rfl,
          fun h => ?_, fun h => h3 ?_⟩
        · rw [← List.append_assoc]; exact h2 h
        · rw [List.length_cons] at h
          dsimp only
          omega

/-- **No inserted byte of the contiguous prefix is lost**, in every run in which no frame begins strictly inside a
buffered segment and the counter of allocated bytes stays in range: the run returns, reading on with lengths of at
least one ends with `None`, and by then exactly the first `n` bytes have been delivered. -/
theorem reassembly_complete (S : Bytes) (_hS : S.length < 2 ^ 62) (ops : List AsmOp)
    (hv : ∀ op ∈ ops, op.Valid S) (hg : Meets (asmStep S) (fun r op => op.Fits S r) AsmRun.init ops) :
    ∃ r, run (asmStep S) AsmRun.init ops = .ok r ∧
      ∀ n, IsGreatest {k | ∀ x < k, r.Inserted x} n → ∀ ms : List ℕ, (∀ m ∈ ms, 1 ≤ m) →
        ∃ done bs, readOn r.asm ms = .ok (done, bs) ∧
          (done = true → r.delivered ++ bs = S.take n ∧ (r.delivered ++ bs).length = n) ∧
          (r.asm.buffered < ms.length → done = true) := by
  obtain ⟨r, hr, hI⟩ := run_total asmStep_spec (AsmRun.inv_init S) ((Meets.of_forall hv).and hg)
  exact ⟨r, hr, fun n hn ms hms => readOn_spec hI hn ms hms⟩

/-- Two overlapping segments out of order, the later one first, and a read in between. -/
theorem reassembly_complete_six : ∃ r, run (asmStep [10, 11, 12, 13, 14, 15]) AsmRun.init
      [.insert 2 4 4, .read 8, .insert 0 3 3] = .ok r ∧
    ∀ n, IsGreatest {k | ∀ x < k, r.Inserted x} n → ∀ ms : List ℕ, (∀ m ∈ ms, 1 ≤ m) →
      ∃ done bs, readOn r.asm ms = .ok (done, bs) ∧
        (done = true → r.delivered ++ bs = List.take n [10, 11, 12, 13, 14, 15] ∧
          (r.delivered ++ bs).length = n) ∧
        (r.asm.buffered < ms.length → done = true) :=
  reassembly_complete [10, 11, 12, 13, 14, 15] (by decide) [.insert 2 4 4, .read 8, .insert 0 3 3]
    (by simp [AsmOp.Valid]) (by decide)

/-- The bytes `0..4` are inserted and then the bytes `2..6`, which together cover `0..6`; the second
insert removes the whole first segment, and reading on delivers nothing. -/
theorem reassembly_drops_bytes : ∃ (S : Bytes) (ops : List AsmOp), (∀ op ∈ ops, op.Valid S) ∧
    ∃ r, run (asmStep S) AsmRun.init ops = .ok r ∧ IsGreatest {k | ∀ x < k, r.Inserted x} 6 ∧
      readOn r.asm [1] = .ok (true, []) ∧ (r.delivered ++ []).length ≠ 6 := by
  refine ⟨[10, 11, 12, 13, 14, 15], [.insert 0 4 4, .insert 2 4 4], by simp [AsmOp.Valid],
    ⟨⟨.ordered, [⟨2, [12, 13, 14, 15], 4, false⟩], 4, 4, 0, 6⟩, [⟨2, 6⟩, ⟨0, 4⟩], []⟩, rfl,
    ⟨fun x hx => ?_, fun k hk => ?_⟩, rfl, by simp⟩
  · simp only [AsmRun.Inserted, List.mem_cons, List.not_mem_nil, or_false, exists_eq_or_imp,
      exists_eq_left, Range.mem_iff]
    omega
  · by_contra h
    obtain ⟨i, hi, hx⟩ := hk 6 (by omega)
    simp only [List.mem_cons, List.not_mem_nil, or_false] at hi
    rcases hi with rfl | rfl <;> rw [Range.mem_iff] at hx <;> dsimp only at hx <;> omega

end MzQuic
