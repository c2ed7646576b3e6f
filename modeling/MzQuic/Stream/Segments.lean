import MzQuic.Lib.Run
import MzQuic.Stream.Assembler

/-!
# The representation of the assembler (`core/src/connection/stream/recv.rs`)

What every sequence of inserts, ordered reads and clears keeps of an assembler, and which inserts panic.

* `Assembler.kept a start stop`: the segments that a new one from `start` to `stop` leaves in place;
* `place_returns_iff`: `place` panics exactly if the new segment lies inside one that begins before it, or the
  counter of allocated bytes overflows; `insert_total`: what `insert` does if neither happens;
* `AssemblerCall`, `AssemblerCall.apply`: runs of calls; `Admitted`: the condition on an insert;
* `Represented`: the representation invariant, as the field comments put it;
* **`assembler_represented_iff`**: every call of a run returns and leaves a represented assembler if and only
  if every insert is admitted.
-/

namespace MzQuic

open Lib

/-! ## What the loop of `insert` keeps -/

theorem totalAlloc_filter_le (p : Buffer → Bool) (data : List Buffer) :
    totalAlloc (data.filter p) ≤ totalAlloc data := by
  induction data with
  | nil => exact le_rfl
  | cons b data ih =>
      rw [List.filter_cons, totalAlloc_cons]
      split_ifs
      · rw [totalAlloc_cons]
        omega
      · omega

/-- The loop returns if no segment begins before the new one and ends after it. The counter of allocated bytes loses
the sizes of the segments that it removes. -/
theorem dropCovered_returns {offset newEnd : ℕ} {post : List Buffer} {bytes : Bytes} {B A : ℕ}
    (hnot : ∀ b ∈ post, ¬ (b.offset < offset ∧ newEnd < b.bufEnd)) (hB : totalLen post ≤ B) (hA : totalAlloc post ≤ A) :
    ∃ rest left B' A', dropCovered offset newEnd post bytes B A = .ok (rest, left, B', A') ∧
      A' + totalAlloc post = A + totalAlloc rest := by
  induction post generalizing B A with
  | nil => exact ⟨[], bytes, B, A, rfl, rfl⟩
  | cons buf post ih =>
      obtain ⟨hbuf, hpost⟩ := List.forall_mem_cons.mp hnot
      rw [totalLen_cons] at hB
      rw [totalAlloc_cons] at hA
      rw [dropCovered]
      by_cases hge : buf.offset ≥ newEnd
      · exact ⟨buf :: post, bytes, B, A, if_pos hge, rfl⟩
      rw [if_neg hge]
      by_cases hle : buf.bufEnd ≤ newEnd
      · obtain ⟨rest, left, B', A', e, hsum⟩ := ih hpost (B := B - buf.bytes.length) (A := A - buf.allocationSize)
          (by omega) (by omega)
        refine ⟨rest, left, B', A', ?_, ?_⟩
        · rw [if_pos hle, Checked.sub_of_le (by omega), Checked.ok_bind, Checked.sub_of_le (by omega),
            Checked.ok_bind, e]
        · rw [totalAlloc_cons]
          omega
      · exact ⟨buf :: post, bytes.take (buf.offset - offset), B, A,
          by rw [if_neg hle, Checked.sub_of_le (by omega), Checked.ok_bind], rfl⟩

/-- The loop keeps the segments that end after the new one, and nothing is left of the new one if one of them
begins where it does. -/
theorem dropCovered_kept {offset newEnd lo : ℕ} {post rest : List Buffer} {bytes bytes' : Bytes} {B A B' A' : ℕ}
    (hs : SegsFrom lo post) (hlen : bytes.length = newEnd - offset) (hlt : offset < newEnd)
    (h : dropCovered offset newEnd post bytes B A = .ok (rest, bytes', B', A')) :
    rest = post.filter (fun b => newEnd < b.bufEnd) ∧
      (bytes' = [] ↔ ∃ b ∈ post, b.offset = offset ∧ newEnd < b.bufEnd) := by
  have hne : bytes ≠ [] := List.length_pos_iff.mp (by omega)
  induction post generalizing lo B A with
  | nil =>
      cases h
      exact ⟨rfl, iff_of_false hne fun ⟨b, hb, _⟩ => by cases hb⟩
  | cons buf post ih =>
      obtain ⟨h1, h2, h3⟩ := hs
      have hbuf := bufEnd_gt h2
      have hafter : ∀ b ∈ post, buf.bufEnd ≤ b.offset ∧ b.offset < b.bufEnd := h3.le_of_mem
      have hall : newEnd < buf.bufEnd → buf :: post = (buf :: post).filter fun b => newEnd < b.bufEnd := by
        refine fun hlt => (List.filter_eq_self.mpr fun b hb => ?_).symm
        rcases List.mem_cons.mp hb with rfl | hb
        · simpa using hlt
        · have := hafter b hb
          simpa using (by omega : newEnd < b.bufEnd)
      rw [dropCovered] at h
      by_cases hge : buf.offset ≥ newEnd
      · rw [if_pos hge] at h
        cases h
        refine ⟨hall (by omega), iff_of_false hne ?_⟩
        rintro ⟨b, hb, ho, -⟩
        rcases List.mem_cons.mp hb with rfl | hb
        · omega
        · have := hafter b hb
          omega
      rw [if_neg hge] at h
      by_cases hle : buf.bufEnd ≤ newEnd
      · rw [if_pos hle] at h
        obtain ⟨B₁, -, h⟩ := Checked.bind_eq_ok.mp h
        obtain ⟨A₁, -, h⟩ := Checked.bind_eq_ok.mp h
        obtain ⟨hr, he⟩ := ih h3 h
        refine ⟨?_, he.trans ⟨?_, ?_⟩⟩
        · rw [hr, List.filter_cons, if_neg (by simpa using hle)]
        · rintro ⟨b, hb, hx⟩
          exact ⟨b, List.mem_cons_of_mem _ hb, hx⟩
        · rintro ⟨b, hb, ho, hx⟩
          rcases List.mem_cons.mp hb with rfl | hb
          · omega
          · exact ⟨b, hb, ho, hx⟩
      · rw [if_neg hle] at h
        obtain ⟨keep, hkeep, h⟩ := Checked.bind_eq_ok.mp h
        obtain ⟨hle', rfl⟩ := Checked.sub_eq_ok.mp hkeep
        cases h
        refine ⟨hall (by omega), ?_⟩
        rw [List.take_eq_nil_iff]
        constructor
        · rintro (h | h)
          · exact ⟨buf, List.mem_cons_self, by omega, by omega⟩
          · exact absurd h hne
        · rintro ⟨b, hb, ho, -⟩
          rcases List.mem_cons.mp hb with rfl | hb
          · exact .inl (by omega)
          · have := hafter b hb
            omega

namespace Assembler

/-- The segments that end before a new one begins, or after it ends. -/
def kept (a : Assembler) (start stop : ℕ) : List Buffer :=
  a.data.filter fun b => b.bufEnd ≤ start ∨ stop < b.bufEnd

/-- A segment begins before the new one and ends after it. -/
def Encloses (a : Assembler) (start stop : ℕ) : Prop := ∃ b ∈ a.data, b.offset < start ∧ stop < b.bufEnd

/-- A segment begins where the new one does and ends after it. -/
def Repeats (a : Assembler) (start stop : ℕ) : Prop := ∃ b ∈ a.data, b.offset = start ∧ stop < b.bufEnd

instance (a : Assembler) (start stop : ℕ) : Decidable (a.Encloses start stop) :=
  inferInstanceAs (Decidable (∃ b ∈ a.data, b.offset < start ∧ stop < b.bufEnd))

instance (a : Assembler) (start stop : ℕ) : Decidable (a.Repeats start stop) :=
  inferInstanceAs (Decidable (∃ b ∈ a.data, b.offset = start ∧ stop < b.bufEnd))

section Place

variable {a : Assembler} (ha : a.WF) {offset : ℕ} (allocationSize : ℕ) {bytes : Bytes} (hne : bytes ≠ [])
include ha

theorem totalAlloc_kept_lt (start stop : ℕ) : totalAlloc (a.kept start stop) < 2 ^ 64 := by
  refine (totalAlloc_filter_le _ a.data).trans_lt ?_
  rw [← ha.allocated]
  exact ha.allocated_lt

/-- The segments before the insertion point stay, and those after it that end after the new one. -/
theorem kept_eq (start stop : ℕ) : a.kept start stop = a.data.take (insertAt a.data start) ++
    (a.data.drop (insertAt a.data start)).filter fun b => stop < b.bufEnd := by
  have hpre : (a.data.take (insertAt a.data start)).filter (fun b => b.bufEnd ≤ start ∨ stop < b.bufEnd) =
      a.data.take (insertAt a.data start) := List.filter_eq_self.mpr fun b hb => by simp [insertAt_take hb]
  have hpost : (a.data.drop (insertAt a.data start)).filter (fun b => b.bufEnd ≤ start ∨ stop < b.bufEnd) =
      (a.data.drop (insertAt a.data start)).filter fun b => stop < b.bufEnd :=
    List.filter_congr fun b hb => by simp [Nat.not_le.mpr (insertAt_drop ha.segs hb)]
  calc
    a.kept start stop = (a.data.take (insertAt a.data start) ++ a.data.drop (insertAt a.data start)).filter
        fun b => b.bufEnd ≤ start ∨ stop < b.bufEnd := by rw [List.take_append_drop]; rfl
    _ = _ := by rw [List.filter_append, hpre, hpost]

omit ha in
/-- A segment that repeats the new one stands after the insertion point. -/
theorem repeats_iff {start stop : ℕ} (hlt : start < stop) : a.Repeats start stop ↔
    ∃ b ∈ a.data.drop (insertAt a.data start), b.offset = start ∧ stop < b.bufEnd := by
  refine ⟨fun ⟨b, hb, ho, hgt⟩ => ⟨b, ?_, ho, hgt⟩, fun ⟨b, hb, hx⟩ => ⟨b, List.mem_of_mem_drop hb, hx⟩⟩
  rw [← List.take_append_drop (insertAt a.data start) a.data] at hb
  refine (List.mem_append.mp hb).resolve_left fun hb => ?_
  have := insertAt_take hb
  omega

include hne

/-- **What `place` allocates**, if no segment begins before the new one and ends after it: the sizes of the
segments that stay, and that of the new one unless a segment repeats it. -/
theorem place_allocates (hnot : ¬ a.Encloses offset (offset + bytes.length)) : ∃ a' : Assembler,
    a.place offset bytes allocationSize = a'.checked ∧
      a'.allocated = totalAlloc (a.kept offset (offset + bytes.length)) +
        if a.Repeats offset (offset + bytes.length) then 0 else allocationSize := by
  have hpos := List.length_pos_iff.mpr hne
  obtain ⟨i, hi⟩ : ∃ i, i = insertAt a.data offset := ⟨_, rfl⟩
  have hsplit : a.data = a.data.take i ++ a.data.drop i := (List.take_append_drop i a.data).symm
  have hpre : ∀ b ∈ a.data.take i, b.bufEnd ≤ offset := fun b hb => insertAt_take (hi ▸ hb)
  have hpost : ∀ b ∈ a.data.drop i, offset < b.bufEnd := fun b hb => insertAt_drop ha.segs (hi ▸ hb)
  have hsegs := ha.segs
  have hbuf := ha.buffered
  have hall := ha.allocated
  rw [hsplit] at hsegs
  rw [hsplit, totalLen_append] at hbuf
  rw [hsplit, totalAlloc_append] at hall
  obtain ⟨rest, left, B, A, hdrop, hsum⟩ : ∃ rest left B A, dropCovered offset (offset + bytes.length)
      (a.data.drop i) bytes a.buffered a.allocated = .ok (rest, left, B, A) ∧
      A + totalAlloc (a.data.drop i) = a.allocated + totalAlloc rest :=
    dropCovered_returns (fun b hb hin => hnot ⟨b, List.mem_of_mem_drop hb, hin⟩) (by omega) (by omega)
  obtain ⟨hrest, hnil⟩ := dropCovered_kept (segsFrom_append.mp hsegs).2.1 (by omega) (by omega) hdrop
  have hstay : A = totalAlloc (a.kept offset (offset + bytes.length)) := by
    rw [kept_eq ha, ← hi, ← hrest, totalAlloc_append]
    omega
  have hrep : a.Repeats offset (offset + bytes.length) ↔ left = [] := by
    rw [hnil, hi, repeats_iff (by omega)]
  refine ⟨_, place_piece hsplit hne hpre hpost hdrop (hstay ▸ totalAlloc_kept_lt ha _ _), ?_⟩
  rw [hstay, piece]
  simp only [List.isEmpty_iff, hrep]
  split_ifs
  · rfl
  · simp [totalAlloc, Buffer.new]

/-- **When `place` panics.** -/
theorem place_returns_iff : (∃ a', a.place offset bytes allocationSize = .ok a') ↔
    ¬ a.Encloses offset (offset + bytes.length) ∧ (a.Repeats offset (offset + bytes.length) ∨
      totalAlloc (a.kept offset (offset + bytes.length)) + allocationSize < 2 ^ 64) := by
  by_cases hin : a.Encloses offset (offset + bytes.length)
  · refine iff_of_false (fun ⟨a', e⟩ => ?_) fun h => h.1 hin
    obtain ⟨c, hc, h1, h2⟩ := hin
    obtain ⟨pre, rest, hd⟩ := List.append_of_mem hc
    rw [place_inside ha hd allocationSize hne h1 h2] at e
    cases e
  · obtain ⟨a', e, hsum⟩ := place_allocates ha allocationSize hne hin
    rw [e, and_iff_right hin]
    have hret : (∃ a₁, a'.checked = .ok a₁) ↔ a'.allocated < 2 ^ 64 := by simp [checked_eq_ok]
    rw [hret, hsum]
    split_ifs with hrep
    · exact iff_of_true (totalAlloc_kept_lt ha _ _) (.inl hrep)
    · exact ⟨.inr, fun h => h.resolve_left hrep⟩

end Place

/-- The frame carries a byte that has not been read. -/
def Carries (a : Assembler) (offset : ℕ) (bytes : Bytes) : Prop :=
  bytes ≠ [] ∧ a.bytesRead < offset + bytes.length

instance (a : Assembler) (offset : ℕ) (bytes : Bytes) : Decidable (a.Carries offset bytes) :=
  inferInstanceAs (Decidable (_ ∧ _))

/-- A frame that begins in no buffered segment lies inside none. -/
theorem Apart.not_encloses {a : Assembler} {offset : ℕ} {bytes : Bytes} (hap : a.Apart offset bytes)
    (hc : a.Carries offset bytes) : ¬ a.Encloses (max offset a.bytesRead) (offset + bytes.length) := by
  rintro ⟨b, hb, h1, h2⟩
  have hread := hc.2
  have hpos := List.length_pos_iff.mpr hc.1
  exact hap hc.1 hc.2 b hb ⟨h1, by omega⟩

/-- The counter of allocated bytes has room for the frame: a segment repeats its unread part, or the sizes of the
segments that stay and its own have a sum in range. -/
def Room (a : Assembler) (offset : ℕ) (bytes : Bytes) (allocationSize : ℕ) : Prop :=
  a.Carries offset bytes → a.Repeats (max offset a.bytesRead) (offset + bytes.length) ∨
    totalAlloc (a.kept (max offset a.bytesRead) (offset + bytes.length)) + allocationSize < 2 ^ 64

instance (a : Assembler) (offset : ℕ) (bytes : Bytes) (allocationSize : ℕ) :
    Decidable (a.Room offset bytes allocationSize) :=
  inferInstanceAs (Decidable (a.Carries offset bytes →
    a.Repeats (max offset a.bytesRead) (offset + bytes.length) ∨ _))

section Insert

variable {a : Assembler} (ha : a.WF) {offset allocationSize : ℕ} {bytes : Bytes}
  (hal : bytes.length ≤ allocationSize)
include ha hal

/-- **When `insert` panics.** -/
theorem insert_returns_iff : (∃ a', a.insert offset bytes allocationSize = .ok a') ↔
    (a.Carries offset bytes → ¬ a.Encloses (max offset a.bytesRead) (offset + bytes.length)) ∧
      a.Room offset bytes allocationSize := by
  by_cases hc : a.Carries offset bytes
  · obtain ⟨hne, e⟩ := insert_eq_place hal hc.1 hc.2
    rw [e, place_returns_iff (ha.grow (offset + bytes.length)) allocationSize hne, unread_end hc.2]
    exact ⟨fun h => ⟨fun _ => h.1, fun _ => h.2⟩, fun h => ⟨h.1 hc, h.2 hc⟩⟩
  · exact iff_of_true ⟨_, insert_of_read hal hc⟩ ⟨fun h => absurd h hc, fun h => absurd h hc⟩

/-- **`insert` returns and adds exactly the unread offsets of the frame**, if the first of them is in the inside of
no buffered segment and the counter of allocated bytes has room. -/
theorem insert_total (hap : a.Apart offset bytes) (hroom : a.Room offset bytes allocationSize) :
    ∃ a', a.insert offset bytes allocationSize = .ok a' ∧ a'.WF ∧ a'.bytesRead = a.bytesRead ∧
      a'.end = max a.end (offset + bytes.length) ∧
      (∀ x, Held a'.data x ↔ Held a.data x ∨ (max offset a.bytesRead ≤ x ∧ x < offset + bytes.length)) ∧
      ∀ S : Bytes, Agrees S a.data → bytes = (S.drop offset).take bytes.length → Agrees S a'.data := by
  obtain ⟨a', e, hshape, hspec⟩ := insert_spec ha hal hap
  obtain ⟨a₁, e₁⟩ := (insert_returns_iff ha hal).mpr ⟨hap.not_encloses, hroom⟩
  obtain ⟨hlt, rfl⟩ := checked_eq_ok.mp (e ▸ e₁)
  exact ⟨a₁, e₁, ⟨hshape, hlt⟩, hspec⟩

end Insert

end Assembler

/-! ## Runs of calls -/

/-- A call on an assembler that is read in order. -/
inductive AssemblerCall
  | insert (offset : ℕ) (bytes : Bytes) (allocationSize : ℕ)
  | read (maxLength : ℕ)
  | clear
  deriving DecidableEq

namespace AssemblerCall

/-- What a call hands out, and the assembler after it. -/
def apply (a : Assembler) : AssemblerCall → Checked (Option Chunk × Assembler)
  | insert offset bytes allocationSize => a.insert offset bytes allocationSize >>= fun a => .ok (none, a)
  | read maxLength => a.read maxLength true
  | clear => .ok (none, a.clear)

/-- The assembler after a call. -/
def step (a : Assembler) (call : AssemblerCall) : Checked Assembler := call.apply a >>= fun r => .ok r.2

/-- The offsets of a frame are varints, and it is allocated in full. -/
def Valid : AssemblerCall → Prop
  | insert offset bytes allocationSize => offset + bytes.length < 2 ^ 62 ∧ bytes.length ≤ allocationSize
  | _ => True

/-- If the frame carries a byte that has not been read, its unread part does not lie inside a segment that
begins before it, and the sizes of the segments that it leaves and its own have a sum in range, unless a segment
repeats it. -/
def Admitted (a : Assembler) : AssemblerCall → Prop
  | insert offset bytes allocationSize => a.Carries offset bytes →
    ¬ a.Encloses (max offset a.bytesRead) (offset + bytes.length) ∧
      (a.Repeats (max offset a.bytesRead) (offset + bytes.length) ∨
        totalAlloc (a.kept (max offset a.bytesRead) (offset + bytes.length)) + allocationSize < 2 ^ 64)
  | _ => True

instance (call : AssemblerCall) (a : Assembler) : Decidable (call.Admitted a) :=
  match call with
  | insert offset bytes _ =>
    inferInstanceAs (Decidable (a.Carries offset bytes → ¬ a.Encloses (max offset a.bytesRead) (offset + bytes.length) ∧
      (a.Repeats (max offset a.bytesRead) (offset + bytes.length) ∨ _)))
  | read _ => .isTrue trivial
  | clear => .isTrue trivial

end AssemblerCall

/-- The representation of an assembler: the segments are sorted by offset without overlaps, nonempty and not yet
read, and the counters are what their comments say. -/
structure Represented (a : Assembler) : Prop where
  sorted : a.data.Pairwise fun b c => b.offset + b.bytes.length ≤ c.offset
  nonempty : ∀ b ∈ a.data, b.bytes ≠ []
  unread : ∀ b ∈ a.data, a.bytesRead ≤ b.offset
  buffered : a.buffered = (a.data.map fun b => b.bytes.length).sum
  allocated : a.allocated = (a.data.map fun b => b.allocationSize).sum
  buffered_le : a.buffered ≤ a.allocated
  read_le : a.bytesRead ≤ a.end

theorem SegsFrom.pairwise {lo : ℕ} {data : List Buffer} (h : SegsFrom lo data) :
    data.Pairwise (fun b c => b.offset + b.bytes.length ≤ c.offset) ∧ ∀ b ∈ data, b.bytes ≠ [] := by
  induction data generalizing lo with
  | nil => exact ⟨List.Pairwise.nil, fun b hb => by cases hb⟩
  | cons c data ih =>
      obtain ⟨-, hne, hs⟩ := h
      obtain ⟨hp, hall⟩ := ih hs
      exact ⟨List.pairwise_cons.mpr ⟨fun b hb => (hs.le_of_mem b hb).1, hp⟩, List.forall_mem_cons.mpr ⟨hne, hall⟩⟩

theorem totalLen_le_totalAlloc {data : List Buffer} (h : ∀ b ∈ data, b.bytes.length ≤ b.allocationSize) :
    totalLen data ≤ totalAlloc data := by
  induction data with
  | nil => exact le_rfl
  | cons b data ih =>
      obtain ⟨hb, h⟩ := List.forall_mem_cons.mp h
      have := ih h
      rw [totalLen_cons, totalAlloc_cons]
      omega

theorem Assembler.WF.represented {a : Assembler} (h : a.WF) : Represented a where
  sorted := h.segs.pairwise.1
  nonempty := h.segs.pairwise.2
  unread b hb := (h.segs.le_of_mem b hb).1
  buffered := h.buffered
  allocated := h.allocated
  buffered_le := by
    rw [h.buffered, h.allocated]
    exact totalLen_le_totalAlloc h.alloc
  read_le := h.read_le

namespace AssemblerCall

variable {a a' : Assembler} {call : AssemblerCall}

/-- **A call that returns keeps the representation.** -/
theorem step_keeps (h : a.WF) (hs : call.step a = .ok a') : a'.WF := by
  obtain ⟨⟨o, a₁⟩, hcall, hs⟩ := Checked.bind_eq_ok.mp hs
  cases hs
  cases call with
  | insert offset bytes allocationSize =>
      obtain ⟨a₂, hi, hs⟩ := Checked.bind_eq_ok.mp hcall
      cases hs
      exact (Assembler.insert_ok h hi).1
  | read maxLength =>
      rcases Assembler.read_spec h maxLength with ⟨e, -⟩ | ⟨c, a₂, e, hwf, -⟩
      · cases hcall.symm.trans e
        exact h
      · cases hcall.symm.trans e
        exact hwf
  | clear =>
      cases hcall
      exact h.clear

/-- **A call returns if and only if it is admitted.** -/
theorem step_returns_iff (h : a.WF) (hv : call.Valid) :
    (∃ a', call.step a = .ok a' ∧ Represented a') ↔ call.Admitted a := by
  have hrep : (∃ a', call.step a = .ok a' ∧ Represented a') ↔ ∃ r, call.apply a = .ok r := by
    refine ⟨fun ⟨a', hs, _⟩ => ?_, fun ⟨r, hr⟩ => ?_⟩
    · obtain ⟨r, hr, -⟩ := Checked.bind_eq_ok.mp hs
      exact ⟨r, hr⟩
    · have hs : call.step a = .ok r.2 := by rw [step, hr, Checked.ok_bind]
      exact ⟨r.2, hs, (step_keeps h hs).represented⟩
  rw [hrep]
  cases call with
  | insert offset bytes allocationSize =>
      rw [Admitted, imp_and, ← Assembler.Room, ← Assembler.insert_returns_iff h hv.2]
      refine ⟨fun ⟨r, hr⟩ => ?_, fun ⟨a', e⟩ => ⟨(none, a'), by rw [apply, e, Checked.ok_bind]⟩⟩
      obtain ⟨a', e, -⟩ := Checked.bind_eq_ok.mp hr
      exact ⟨a', e⟩
  | read maxLength =>
      refine iff_of_true ?_ trivial
      rcases Assembler.read_spec h maxLength with ⟨e, -⟩ | ⟨c, a₁, e, -⟩
      · exact ⟨_, e⟩
      · exact ⟨_, e⟩
  | clear => exact iff_of_true ⟨_, rfl⟩ trivial

end AssemblerCall

/-- **The representation invariant.** In a run of calls on a new assembler every call returns, so that no
subtraction underflows, and leaves a represented assembler, if and only if every insert is admitted. -/
theorem assembler_represented_iff {calls : List AssemblerCall} (hv : ∀ call ∈ calls, call.Valid) :
    (∀ before after, calls = before ++ after →
      ∃ a, run AssemblerCall.step Assembler.default before = .ok a ∧ Represented a) ↔
      Meets AssemblerCall.step (fun a call => call.Admitted a) Assembler.default calls := by
  have hI : Assembler.default.WF := .default
  have hsteps : Meets AssemblerCall.step (fun a call => call.Valid → ∃ a', call.step a = .ok a' ∧ Represented a')
      Assembler.default calls ↔
      Meets AssemblerCall.step (fun a call => call.Valid → call.Admitted a) Assembler.default calls :=
    Meets.congr_inv (I := Assembler.WF)
      (fun _ _ h => imp_congr_right fun hv => AssemblerCall.step_returns_iff h hv)
      (fun _ _ _ h _ hs => AssemblerCall.step_keeps h hs) hI
  rw [Meets.imp_iff hv, Meets.imp_iff hv] at hsteps
  exact forall_returns_iff.trans ((and_iff_right hI.represented).trans hsteps)

/-- Frames that overlap on either side and cover a segment, between reads. -/
theorem assembler_represented_overlaps : ∃ a,
    run AssemblerCall.step Assembler.default [.insert 0 [1, 2, 3, 4] 4, .read 2, .insert 8 [9, 10] 2,
      .insert 1 [2, 3, 4, 5, 6] 9, .insert 5 [6, 7, 8, 9, 10, 11] 6, .read 9] = .ok a ∧ Represented a := by
  refine (assembler_represented_iff ?_).mpr ?_ _ [] (List.append_nil _).symm
  · simp [AssemblerCall.Valid]
  · decide

/-- A frame inside a segment that begins before it: `buf.offset - offset` is `0 - 3`. -/
theorem assembler_insert_underflows :
    (∀ call ∈ [AssemblerCall.insert 0 [0, 1, 2, 3, 4, 5, 6, 7, 8, 9] 10, .insert 3 [3, 4] 2], call.Valid) ∧
      run AssemblerCall.step Assembler.default
        [.insert 0 [0, 1, 2, 3, 4, 5, 6, 7, 8, 9] 10, .insert 3 [3, 4] 2] = .error .overflow := by
  refine ⟨?_, by decide⟩
  simp [AssemblerCall.Valid]

end MzQuic
