import MzQuic.Proto.Encode

/-!
# ACK frames are read as they were written (`proto/src/frame.rs`)

The set has exclusive ends, the wire has sizes and gaps less one, and both readers add the gap and two.

* `AckFits`: what `Ack::encode` needs so that no subtraction underflows and every integer can be encoded;
  `Ack.appends_encode`, `AckFits.of_encode`: it is enough, and it is needed;
* `AckFits.of_set`: a set of numbers below `2 ^ 62` fits, since its runs are nonempty and do not touch;
  `Ack.encode_above`: any other set cannot be written;
* **`ack_round_trip`**: what is written of such a set is read as an ACK frame of its largest number, the
  delay and the ECN counts, whose iterator returns the runs of the set, largest first.
-/

namespace MzQuic

open Lib

/-! ## The blocks -/

/-- What the loop of `Ack::encode` appends. -/
def blocksBytes : ℕ → List Range → Bytes
  | _, [] => []
  | prev, block :: rest => varintBytes (prev - block.end - 1) ++
      (varintBytes (block.end - block.start - 1) ++ blocksBytes block.start rest)

/-- The runs are nonempty and descending, do not touch, and have gaps and sizes that can be
encoded. -/
def Encodable : ℕ → List Range → Prop
  | _, [] => True
  | prev, block :: rest => block.start < block.end ∧ block.end < prev ∧
      prev - block.end - 1 < 2 ^ 62 ∧ block.end - block.start - 1 < 2 ^ 62 ∧ Encodable block.start rest

theorem Encodable.of_encode {prev : ℕ} {blocks : List Range} {out out' : BufMut}
    (h : encodeBlocks prev blocks out = .ok out') : Encodable prev blocks := by
  induction blocks generalizing prev out with
  | nil => trivial
  | cons block rest ih =>
      obtain ⟨size, h1, h⟩ := Checked.bind_eq_ok.mp h
      obtain ⟨gap, h2, h⟩ := Checked.bind_eq_ok.mp h
      obtain ⟨gap', h3, h⟩ := Checked.bind_eq_ok.mp h
      obtain ⟨out₁, h4, h⟩ := Checked.bind_eq_ok.mp h
      obtain ⟨size', h5, h⟩ := Checked.bind_eq_ok.mp h
      obtain ⟨out₂, h6, hrest⟩ := Checked.bind_eq_ok.mp h
      obtain ⟨l1, rfl⟩ := Checked.sub_eq_ok.mp h1
      obtain ⟨l2, rfl⟩ := Checked.sub_eq_ok.mp h2
      obtain ⟨l3, rfl⟩ := Checked.sub_eq_ok.mp h3
      obtain ⟨l5, rfl⟩ := Checked.sub_eq_ok.mp h5
      obtain ⟨hgap, -, -⟩ := putVarint_ok h4
      obtain ⟨hsize, -, -⟩ := putVarint_ok h6
      exact ⟨by omega, by omega, hgap, hsize, ih hrest⟩

theorem appends_encodeBlocks {prev : ℕ} {blocks : List Range} (h : Encodable prev blocks) :
    Appends (encodeBlocks prev blocks) (blocksBytes prev blocks) := by
  induction blocks generalizing prev with
  | nil =>
      intro out
      simp [encodeBlocks, blocksBytes]
  | cons block rest ih =>
      obtain ⟨h1, h2, h3, h4, hr⟩ := h
      have heq : encodeBlocks prev (block :: rest) = fun out => putVarint (prev - block.end - 1) out >>=
          fun out => putVarint (block.end - block.start - 1) out >>= encodeBlocks block.start rest := by
        funext out
        rw [encodeBlocks, Checked.sub_of_le (by omega), Checked.ok_bind, Checked.sub_of_le (by omega),
          Checked.ok_bind, Checked.sub_of_le (by omega), Checked.ok_bind, Checked.sub_of_le (by omega)]
        rfl
      rw [heq]
      exact (appends_putVarint h3).seq ((appends_putVarint h4).seq (ih hr))

/-- `scan_ack_blocks` accepts what was written and stops at its end. -/
theorem scanBlocks_blocksBytes {prev : ℕ} {blocks : List Range} (h : Encodable prev blocks) (s : Bytes) :
    scanBlocks prev blocks.length (blocksBytes prev blocks ++ s) = .ok (.ok (), s) := by
  induction blocks generalizing prev with
  | nil => rfl
  | cons block rest ih =>
      obtain ⟨h1, h2, h3, h4, hr⟩ := h
      have e1 : ∀ b, checkedSub prev (prev - block.end - 1 + 2) b = .ok (.ok (block.end - 1), b) := by
        intro b
        unfold checkedSub
        rw [if_pos (by omega), Get.pure_apply]
        congr 3
        omega
      have e2 : ∀ b, checkedSub (block.end - 1) (block.end - block.start - 1) b =
          .ok (.ok block.start, b) := by
        intro b
        unfold checkedSub
        rw [if_pos (by omega), Get.pure_apply]
        congr 3
        omega
      rw [List.length_cons, blocksBytes, List.append_assoc, List.append_assoc, scanBlocks,
        Get.bind_ok (getVarint_append h3 _), Get.bind_ok (e1 _), Get.bind_ok (getVarint_append h4 _),
        Get.bind_ok (e2 _)]
      exact ih hr

/-- The blocks of an ACK frame, as its iterator reads them. -/
def iterBytes (first : Range) (rest : List Range) : Bytes :=
  varintBytes (first.end - first.start - 1) ++ blocksBytes first.start rest

theorem length_iterBytes (first : Range) (rest : List Range) :
    rest.length + 1 ≤ (iterBytes first rest).length := by
  have hblocks : ∀ (l : List Range) (prev : ℕ), l.length ≤ (blocksBytes prev l).length := by
    intro l
    induction l with
    | nil => exact fun _ => le_rfl
    | cons block rest ih =>
        intro prev
        have h1 := varintSize_pos (prev - block.end - 1)
        have h2 := ih block.start
        simp only [blocksBytes, List.length_append, List.length_cons, length_varintBytes]
        omega
  have h1 := varintSize_pos (first.end - first.start - 1)
  have h2 := hblocks rest first.start
  simp only [iterBytes, List.length_append, length_varintBytes]
  omega

/-- The first and the last number of a run. -/
def inclusive (r : Range) : ℕ × ℕ := (r.start, r.end - 1)

/-- `AckIter::next` reads the size of a run and the gap after it, if there is one. -/
theorem AckIter.next_iterBytes {first : Range} {rest : List Range} (hf : first.start < first.end)
    (hs : first.end - first.start - 1 < 2 ^ 62) {gap : Except TryGetError ℕ} {data : Bytes}
    (hg : tryGetVarint (blocksBytes first.start rest) = .ok (gap, data)) :
    AckIter.next ⟨first.end - 1, iterBytes first rest⟩ = (match gap with
      | .ok gap => do
        let largest ← Checked.sub (first.end - 1) (first.end - first.start - 1 + gap + 2)
        pure ⟨largest, data⟩
      | .error _ => pure ⟨first.end - 1, data⟩) >>= fun it => .ok (some (inclusive first), it) := by
  have hne : (iterBytes first rest).isEmpty = false := by
    have := length_iterBytes first rest
    rw [List.isEmpty_eq_false_iff]
    intro h0
    rw [h0] at this
    exact absurd this (by simp)
  unfold AckIter.next
  rw [if_neg (by simp [hne]), iterBytes, tryGetVarint_varintBytes hs, Checked.ok_bind]
  dsimp only
  rw [hg, Checked.ok_bind]
  dsimp only
  rw [Checked.sub_of_le (show first.end - first.start - 1 ≤ first.end - 1 by omega)]
  have hfirst : first.end - 1 - (first.end - first.start - 1) = first.start := by omega
  cases gap with
  | error e => rw [hfirst]; rfl
  | ok gap => rw [hfirst]; rfl

/-- **The iterator of an ACK frame returns the runs that were written**, largest first. -/
theorem AckIter.collect_iterBytes {first : Range} {rest : List Range} (hf : first.start < first.end)
    (hs : first.end - first.start - 1 < 2 ^ 62) (h : Encodable first.start rest) {n : ℕ}
    (hn : rest.length + 1 ≤ n) : AckIter.collect n ⟨first.end - 1, iterBytes first rest⟩ =
      .ok ((first :: rest).map inclusive) := by
  induction rest generalizing first n with
  | nil =>
      obtain ⟨n, rfl⟩ : ∃ k, n = k + 1 := ⟨n - 1, by omega⟩
      have hnext : AckIter.next ⟨first.end - 1, iterBytes first []⟩ =
          .ok (some (inclusive first), ⟨first.end - 1, []⟩) :=
        AckIter.next_iterBytes hf hs
          (show tryGetVarint (blocksBytes first.start []) = _ from tryGetVarint_nil)
      rw [AckIter.collect, hnext]
      cases n with
      | zero => rfl
      | succ n => rfl
  | cons block rest ih =>
      obtain ⟨n, rfl⟩ : ∃ k, n = k + 1 := ⟨n - 1, by omega⟩
      obtain ⟨h1, h2, h3, h4, hr⟩ := h
      have hnext : AckIter.next ⟨first.end - 1, iterBytes first (block :: rest)⟩ =
          .ok (some (inclusive first), ⟨block.end - 1, iterBytes block rest⟩) := by
        rw [AckIter.next_iterBytes hf hs (tryGetVarint_varintBytes h3 _)]
        dsimp only
        have hl : first.end - 1 - (first.end - first.start - 1 + (first.start - block.end - 1) + 2) =
            block.end - 1 := by omega
        rw [Checked.sub_of_le (by omega), Checked.ok_bind, Checked.pure_eq, Checked.ok_bind, hl]
        rfl
      rw [AckIter.collect, hnext, Checked.ok_bind]
      dsimp only
      rw [ih h1 h4 hr (by simpa using hn)]
      rfl

/-! ## The frame -/

/-- The bytes of the ECN counts. -/
def ecnBytes : Option EcnCounts → Bytes
  | none => []
  | some x => varintBytes x.ect0 ++ (varintBytes x.ect1 ++ varintBytes x.ce)

/-- The type of an ACK frame. -/
def Ack.ty (ecn : Option EcnCounts) : FrameType := if ecn.isSome then .ackEcn else .ack

/-- What `Ack::encode` appends for the runs `first` and below. -/
def ackBytes (delay : ℕ) (first : Range) (rest : List Range) (ecn : Option EcnCounts) : Bytes :=
  varintBytes (Ack.ty ecn).val ++ (varintBytes (first.end - 1) ++ (varintBytes delay ++
    (varintBytes rest.length ++ (iterBytes first rest ++ ecnBytes ecn))))

/-- The runs are nonempty and do not touch, and every integer of the frame can be encoded. -/
structure AckFits (delay : ℕ) (first : Range) (rest : List Range) (ecn : Option EcnCounts) : Prop where
  run : first.start < first.end
  largest : first.end - 1 < 2 ^ 62
  delay : delay < 2 ^ 62
  count : rest.length < 2 ^ 62
  blocks : Encodable first.start rest
  ecn : ∀ x ∈ ecn, x.ect0 < 2 ^ 62 ∧ x.ect1 < 2 ^ 62 ∧ x.ce < 2 ^ 62

variable {delay : ℕ} {ranges : ArrayRangeSet} {first : Range} {rest : List Range} {ecn : Option EcnCounts}

theorem AckFits.size (h : AckFits delay first rest ecn) : first.end - first.start - 1 < 2 ^ 62 := by
  have := h.largest
  omega

theorem Ack.ty_lt (ecn : Option EcnCounts) : (Ack.ty ecn).val < 2 ^ 62 := by
  unfold Ack.ty
  split_ifs <;> decide

/-- The last lines of `Ack::encode`. -/
def encodeEcn : Option EcnCounts → BufMut → Checked BufMut
  | some x, out => x.encode out
  | none, out => .ok out

theorem appends_encodeEcn (h : AckFits delay first rest ecn) : Appends (encodeEcn ecn) (ecnBytes ecn) := by
  cases ecn with
  | none =>
      intro out
      simp [encodeEcn, ecnBytes]
  | some x =>
      obtain ⟨h1, h2, h3⟩ := h.ecn x rfl
      exact (appends_putVarint h1).seq ((appends_putVarint h2).seq (appends_putVarint h3))

/-- **`Ack::encode` writes the frame** if it fits. -/
theorem Ack.appends_encode (hr : ranges.ranges.reverse = first :: rest) (h : AckFits delay first rest ecn) :
    Appends (Ack.encode delay ranges ecn) (ackBytes delay first rest ecn) := by
  have hlen : ranges.len = rest.length + 1 := by
    rw [ArrayRangeSet.len, ← List.length_reverse, hr, List.length_cons]
  have hrun := h.run
  have heq : Ack.encode delay ranges ecn = fun out => putVarint (Ack.ty ecn).val out >>= fun out =>
      putVarint (first.end - 1) out >>= fun out => putVarint delay out >>= fun out =>
      putVarint rest.length out >>= fun out => (fun out => putVarint (first.end - first.start - 1) out >>=
        encodeBlocks first.start rest) out >>= encodeEcn ecn := by
    funext out
    unfold Ack.encode Ack.ty
    rw [hr]
    dsimp only
    rw [Checked.sub_of_le (by omega), Checked.ok_bind, Checked.sub_of_le (by omega), Checked.ok_bind, hlen,
      Checked.sub_of_le (by omega), Nat.add_sub_cancel, Checked.sub_of_le (by omega)]
    simp only [Checked.ok_bind, bind_assoc]
    cases ecn <;> rfl
  rw [heq]
  exact (appends_putVarint (Ack.ty_lt ecn)).seq ((appends_putVarint h.largest).seq
    ((appends_putVarint h.delay).seq ((appends_putVarint h.count).seq
      (((appends_putVarint h.size).seq (appends_encodeBlocks h.blocks)).seq (appends_encodeEcn h)))))

/-- A frame that was written fits. -/
theorem AckFits.of_encode {out out' : BufMut} (h : Ack.encode delay ranges ecn out = .ok out') :
    ∃ first rest, ranges.ranges.reverse = first :: rest ∧ AckFits delay first rest ecn := by
  unfold Ack.encode at h
  cases hr : ranges.ranges.reverse with
  | nil =>
      rw [hr] at h
      cases h
  | cons first rest =>
      rw [hr] at h
      dsimp only at h
      obtain ⟨largest, h1, h⟩ := Checked.bind_eq_ok.mp h
      obtain ⟨size, h2, h⟩ := Checked.bind_eq_ok.mp h
      obtain ⟨o1, h3, h⟩ := Checked.bind_eq_ok.mp h
      obtain ⟨o2, h4, h⟩ := Checked.bind_eq_ok.mp h
      obtain ⟨o3, h5, h⟩ := Checked.bind_eq_ok.mp h
      obtain ⟨n, h6, h⟩ := Checked.bind_eq_ok.mp h
      obtain ⟨o4, h7, h⟩ := Checked.bind_eq_ok.mp h
      obtain ⟨k, h8, h⟩ := Checked.bind_eq_ok.mp h
      obtain ⟨o5, h9, h⟩ := Checked.bind_eq_ok.mp h
      obtain ⟨o6, h10, hecn⟩ := Checked.bind_eq_ok.mp h
      obtain ⟨l1, rfl⟩ := Checked.sub_eq_ok.mp h1
      obtain ⟨l2, rfl⟩ := Checked.sub_eq_ok.mp h2
      obtain ⟨l6, rfl⟩ := Checked.sub_eq_ok.mp h6
      obtain ⟨l8, rfl⟩ := Checked.sub_eq_ok.mp h8
      have hlen : ranges.len - 1 = rest.length := by
        rw [ArrayRangeSet.len, ← List.length_reverse, hr, List.length_cons, Nat.add_sub_cancel]
      rw [hlen] at h7
      refine ⟨first, rest, rfl, by omega, (putVarint_ok h4).1, (putVarint_ok h5).1, (putVarint_ok h7).1,
        .of_encode h10, fun x hx => ?_⟩
      cases hx
      obtain ⟨o7, e1, hecn⟩ := Checked.bind_eq_ok.mp hecn
      obtain ⟨o8, e2, e3⟩ := Checked.bind_eq_ok.mp hecn
      exact ⟨(putVarint_ok e1).1, (putVarint_ok e2).1, (putVarint_ok e3).1⟩

/-- `scan_ack_blocks` finds the end of the blocks. -/
theorem scanAckBlocks_iterBytes (h : AckFits delay first rest ecn) (s : Bytes) :
    scanAckBlocks (first.end - 1) rest.length (iterBytes first rest ++ s) =
      .ok (.ok (iterBytes first rest).length, iterBytes first rest ++ s) := by
  have hrun := h.run
  have e : ∀ b, checkedSub (first.end - 1) (first.end - first.start - 1) b = .ok (.ok first.start, b) := by
    intro b
    unfold checkedSub
    rw [if_pos (by omega), Get.pure_apply]
    congr 3
    omega
  have hscan : scanAll (first.end - 1) rest.length (iterBytes first rest ++ s) = .ok (.ok (), s) := by
    rw [scanAll, iterBytes, List.append_assoc, Get.bind_ok (getVarint_append h.size _), Get.bind_ok (e _)]
    exact scanBlocks_blocksBytes h.blocks s
  unfold scanAckBlocks
  rw [hscan]
  dsimp only
  rw [Checked.sub_of_le (by simp), Checked.ok_bind, List.length_append, Nat.add_sub_cancel]
  rfl

/-- **What was written is read as an ACK frame**, whatever follows it. -/
theorem FrameParser.tryNext_ackBytes (h : AckFits delay first rest ecn) (ty : Option FrameType) (s : Bytes) :
    FrameParser.tryNext ⟨ackBytes delay first rest ecn ++ s, ty⟩ =
      .ok (.ok (.ack ⟨first.end - 1, delay, iterBytes first rest, ecn⟩), ⟨s, some (Ack.ty ecn)⟩) := by
  have hsplit : ∀ s, Get.splitTo (iterBytes first rest).length (iterBytes first rest ++ s) =
      (.ok (.ok (iterBytes first rest), s) : Checked (Except FrameParseError Bytes × Bytes)) := by
    intro s
    unfold Get.splitTo
    rw [if_pos (by simp), List.take_left, List.drop_left]
  unfold FrameParser.tryNext ackBytes
  simp only [List.append_assoc]
  rw [getVarint_append (Ack.ty_lt ecn), Checked.ok_bind]
  dsimp only
  cases ecn with
  | none =>
      have hbody : frameBody ⟨(Ack.ty none).val⟩ = (do
          let largest ← getVarint
          let delay ← getVarint
          let extraBlocks ← getVarint
          let n ← scanAckBlocks largest extraBlocks
          let additional ← Get.splitTo n
          let ecn ← pure none
          return .ack ⟨largest, delay, additional, ecn⟩) := rfl
      rw [hbody, Get.bind_ok (getVarint_append h.largest _), Get.bind_ok (getVarint_append h.delay _),
        Get.bind_ok (getVarint_append h.count _), Get.bind_ok (scanAckBlocks_iterBytes h _),
        Get.bind_ok (hsplit _)]
      rfl
  | some x =>
      obtain ⟨h1, h2, h3⟩ := h.ecn x rfl
      have hbody : frameBody ⟨(Ack.ty (some x)).val⟩ = (do
          let largest ← getVarint
          let delay ← getVarint
          let extraBlocks ← getVarint
          let n ← scanAckBlocks largest extraBlocks
          let additional ← Get.splitTo n
          let ecn ← (do
            let ect0 ← getVarint
            let ect1 ← getVarint
            let ce ← getVarint
            return some ⟨ect0, ect1, ce⟩)
          return .ack ⟨largest, delay, additional, ecn⟩) := rfl
      rw [hbody, Get.bind_ok (getVarint_append h.largest _), Get.bind_ok (getVarint_append h.delay _),
        Get.bind_ok (getVarint_append h.count _), Get.bind_ok (scanAckBlocks_iterBytes h _),
        Get.bind_ok (hsplit _)]
      have hcounts : (do
            let ect0 ← getVarint
            let ect1 ← getVarint
            let ce ← getVarint
            return some ⟨ect0, ect1, ce⟩ : Get FrameParseError (Option EcnCounts)) (ecnBytes (some x) ++ s) =
          .ok (.ok (some x), s) := by
        unfold ecnBytes
        rw [List.append_assoc, List.append_assoc, Get.bind_ok (getVarint_append h1 _),
          Get.bind_ok (getVarint_append h2 _), Get.bind_ok (getVarint_append h3 _)]
        rfl
      rw [Get.bind_ok hcounts]
      rfl

theorem ArrayRangeSet.max_of_reverse (ranges : ArrayRangeSet) (hr : ranges.ranges.reverse = first :: rest) :
    ranges.max = some (first.end - 1) := by
  unfold ArrayRangeSet.max
  rw [← List.head?_reverse, hr]
  rfl

/-- **An ACK frame is read as it was written**, whatever follows it: its largest number is the
largest of the set, and its ranges are those of the set. -/
theorem Ack.encode_ok {out out' : BufMut} (h : Ack.encode delay ranges none out = .ok out') :
    ∃ bs ack, out' = out.append bs ∧ ranges.max = some ack.largest ∧ ack.delay = delay ∧
      ack.iter = .ok (ranges.ranges.reverse.map inclusive) ∧
      ∀ ty s, FrameParser.tryNext ⟨bs ++ s, ty⟩ = .ok (.ok (.ack ack), ⟨s, some .ack⟩) := by
  obtain ⟨first, rest, hr, hf⟩ := AckFits.of_encode h
  obtain ⟨-, rfl⟩ := (Ack.appends_encode hr hf).eq_ok h
  refine ⟨_, _, rfl, ranges.max_of_reverse hr, rfl, ?_, FrameParser.tryNext_ackBytes hf⟩
  · rw [hr]
    exact AckIter.collect_iterBytes hf.run hf.size hf.blocks (length_iterBytes first rest)

/-- **An ACK frame is written**, with the largest number of the ranges. -/
theorem Ack.encode_wrote {out out' : BufMut} (h : Ack.encode delay ranges none out = .ok out') :
    ∃ ack : Ack, ranges.max = some ack.largest ∧ FrameParser.Wrote [.ack ack] out out' := by
  obtain ⟨first, rest, hr, hf⟩ := AckFits.of_encode h
  have hx : out.Extends out' := .of_appends (Ack.appends_encode hr hf) h
  obtain ⟨bs, ack, rfl, hmax, -, -, hread⟩ := Ack.encode_ok h
  exact ⟨ack, hmax, .single hx.of_append fun ty s => ⟨_, hread ty s⟩⟩

/-! ## Sets of packet numbers -/

theorem gapped_concat {lo : ℕ} {l : List Range} {r : Range} : Gapped lo (l ++ [r]) ↔
    Gapped lo l ∧ (∀ q ∈ l, q.end < r.start) ∧ lo ≤ r.start ∧ r.start < r.end := by
  induction l generalizing lo with
  | nil => simp [Gapped]
  | cons q l ih =>
      rw [List.cons_append, Gapped, ih, Gapped, List.forall_mem_cons]
      constructor
      · rintro ⟨h1, h2, h3, h4, h5, h6⟩
        exact ⟨⟨h1, h2, h3⟩, ⟨by omega, h4⟩, by omega, h6⟩
      · rintro ⟨⟨h1, h2, h3⟩, ⟨h4, h5⟩, -, h6⟩
        exact ⟨h1, h2, h3, h5, by omega, h6⟩

/-- Runs below a bound can be encoded downwards. -/
theorem Gapped.encodable {lo prev : ℕ} {l : List Range} (h : Gapped lo l) (hl : ∀ q ∈ l, q.end < prev)
    (hp : prev ≤ 2 ^ 62) : Encodable prev l.reverse := by
  induction l using List.reverseRecOn generalizing prev with
  | nil => trivial
  | append_singleton l r ih =>
      obtain ⟨h1, h2, -, h4⟩ := gapped_concat.mp h
      have hr : r.end < prev := hl r (by simp)
      rw [List.reverse_append, List.reverse_singleton, List.singleton_append]
      exact ⟨h4, hr, by omega, by omega, ih h1 h2 (by omega)⟩

/-- Two numbers for each run: one in it, and one after it. -/
theorem Gapped.length_le {lo M : ℕ} {l : List Range} (h : Gapped lo l) (hl : ∀ q ∈ l, q.end ≤ M)
    (hlo : lo ≤ M + 1) : lo + 2 * l.length ≤ M + 1 := by
  induction l generalizing lo with
  | nil => exact hlo
  | cons q l ih =>
      obtain ⟨h1, h2, h3⟩ := h
      obtain ⟨hq, hl⟩ := List.forall_mem_cons.mp hl
      have := ih h3 hl (by omega)
      rw [List.length_cons]
      omega

/-- The last run is nonempty and above the others, and its last number is the greatest of the set. -/
theorem ArrayRangeSet.last_run (hr : ranges.ranges.reverse = first :: rest) :
    Gapped 0 rest.reverse ∧ (∀ q ∈ rest.reverse, q.end < first.start) ∧ first.start < first.end ∧
      first.end - 1 ∈ ranges ∧ ∀ x ∈ ranges, x ≤ first.end - 1 := by
  have hrev : ranges.ranges = rest.reverse ++ [first] := by
    rw [← List.reverse_reverse ranges.ranges, hr, List.reverse_cons]
  have hg := ranges.gapped
  rw [hrev] at hg
  obtain ⟨h1, h2, -, h4⟩ := gapped_concat.mp hg
  refine ⟨h1, h2, h4, ⟨first, by rw [hrev]; simp, ?_⟩, ?_⟩
  · rw [Range.mem_iff]
    omega
  · rintro x ⟨q, hq, hx⟩
    rw [Range.mem_iff] at hx
    rw [hrev, List.mem_append, List.mem_singleton] at hq
    rcases hq with hq | rfl
    · have := h2 q hq
      omega
    · omega

/-- **A set of numbers below `2 ^ 62` fits**, and the last number of its last run is its greatest. -/
theorem AckFits.of_set (hr : ranges.ranges.reverse = first :: rest) (hlt : ∀ x ∈ ranges, x < 2 ^ 62)
    (hd : delay < 2 ^ 62) (hecn : ∀ x ∈ ecn, x.ect0 < 2 ^ 62 ∧ x.ect1 < 2 ^ 62 ∧ x.ce < 2 ^ 62) :
    AckFits delay first rest ecn ∧ first.end - 1 ∈ ranges ∧ ∀ x ∈ ranges, x ≤ first.end - 1 := by
  obtain ⟨h1, h2, h4, hmem, hgreatest⟩ := ArrayRangeSet.last_run hr
  have hmax := hlt _ hmem
  have hends : ∀ q ∈ rest.reverse, q.end ≤ 2 ^ 62 := fun q hq => by
    have := h2 q hq
    omega
  refine ⟨⟨h4, hmax, hd, ?_, ?_, hecn⟩, hmem, hgreatest⟩
  · have := h1.length_le hends (by omega)
    rw [List.length_reverse] at this
    omega
  · have := h1.encodable h2 (by omega)
    rwa [List.reverse_reverse] at this

/-- **A set with a number above cannot be written**: the encoder panics after the type of the frame. -/
theorem Ack.encode_above {n : ℕ} (hmem : n ∈ ranges) (hn : 2 ^ 62 ≤ n) {out : BufMut} (hroom : 0 < out.remainingMut) :
    Ack.encode delay ranges ecn out = .error .explicit := by
  cases hr : ranges.ranges.reverse with
  | nil =>
      obtain ⟨q, hq, -⟩ := hmem
      rw [List.reverse_eq_nil_iff.mp hr] at hq
      cases hq
  | cons first rest =>
      obtain ⟨-, -, hrun, -, hgreatest⟩ := ArrayRangeSet.last_run hr
      have hlargest := hgreatest n hmem
      have hty : (varintBytes (Ack.ty ecn).val).length ≤ out.remainingMut := by
        have : varintSize (Ack.ty ecn).val = 1 := by
          unfold Ack.ty
          split_ifs <;> rfl
        rw [length_varintBytes, this]
        exact hroom
      have hwrite := (appends_putVarint (Ack.ty_lt ecn) out).trans (if_pos hty)
      unfold Ack.encode
      rw [hr]
      dsimp only
      rw [Checked.sub_of_le (by omega), Checked.ok_bind, Checked.sub_of_le (by omega), Checked.ok_bind]
      rw [show (if ecn.isSome then FrameType.ackEcn else FrameType.ack) = Ack.ty ecn from rfl, hwrite, Checked.ok_bind,
        putVarint_eq_error (hn.trans hlargest), Checked.error_bind]

/-- **ACK frames round-trip.** For every nonempty set of numbers below `2 ^ 62`, every delay and every ECN
counts that can be encoded, `Ack::encode` writes the same bytes to every buffer with room for them; followed
by anything, they are read as an ACK frame of the greatest number of the set, the delay and the counts,
whose iterator returns the runs of the set downwards and then ends, and what is left is what followed. -/
theorem ack_round_trip (ranges : ArrayRangeSet) (hne : ranges.isEmpty = false) (hlt : ∀ x ∈ ranges, x < 2 ^ 62)
    (delay : ℕ) (hd : delay < 2 ^ 62) (ecn : Option EcnCounts)
    (hecn : ∀ x ∈ ecn, x.ect0 < 2 ^ 62 ∧ x.ect1 < 2 ^ 62 ∧ x.ce < 2 ^ 62) :
    ∃ (bs : Bytes) (ack : Ack), Appends (Ack.encode delay ranges ecn) bs ∧
      IsGreatest {x | x ∈ ranges} ack.largest ∧ ranges.max = some ack.largest ∧ ack.delay = delay ∧
      ack.ecn = ecn ∧ (∀ n, ack.additional.length ≤ n →
        AckIter.collect n ⟨ack.largest, ack.additional⟩ = .ok (ranges.ranges.reverse.map inclusive)) ∧
      ∀ suffix, ∃ p p', FrameParser.new (bs ++ suffix) = .ok p ∧
        p.next = .ok (some (.ok (.ack ack)), p') ∧ p'.bytes = suffix := by
  cases hr : ranges.ranges.reverse with
  | nil =>
      rw [List.reverse_eq_nil_iff] at hr
      rw [ArrayRangeSet.isEmpty, hr] at hne
      cases hne
  | cons first rest =>
  obtain ⟨hf, hmem, hmax⟩ := AckFits.of_set hr hlt hd hecn
  refine ⟨ackBytes delay first rest ecn, ⟨first.end - 1, delay, iterBytes first rest, ecn⟩,
    Ack.appends_encode hr hf, ⟨hmem, hmax⟩, ranges.max_of_reverse hr, rfl, rfl, fun n hn => ?_, fun suffix => ?_⟩
  · exact AckIter.collect_iterBytes hf.run hf.size hf.blocks ((length_iterBytes first rest).trans hn)
  · have hbytes : (ackBytes delay first rest ecn ++ suffix).isEmpty = false := by
      have := varintSize_pos (Ack.ty ecn).val
      rw [List.isEmpty_eq_false_iff, ← List.length_pos_iff, ackBytes, List.length_append, List.length_append,
        length_varintBytes]
      omega
    refine ⟨⟨ackBytes delay first rest ecn ++ suffix, none⟩, ⟨suffix, some (Ack.ty ecn)⟩, ?_, ?_, rfl⟩
    · unfold FrameParser.new
      rw [hbytes]
      rfl
    · unfold FrameParser.next
      dsimp only
      rw [hbytes, FrameParser.tryNext_ackBytes hf, Checked.ok_bind]
      rfl

/-- The numbers 1, 2 and 5 to 8, with ECN counts. -/
theorem ack_round_trip_two_runs : ∃ (ranges : ArrayRangeSet) (bs : Bytes) (ack : Ack),
    ranges = ((ArrayRangeSet.new.insert ⟨1, 3⟩).2.insert ⟨5, 9⟩).2 ∧
    Appends (Ack.encode 7 ranges (some ⟨1, 2, 3⟩)) bs ∧
    IsGreatest {x | x ∈ ranges} ack.largest ∧ ranges.max = some ack.largest ∧ ack.delay = 7 ∧
    ack.ecn = some ⟨1, 2, 3⟩ ∧ (∀ n, ack.additional.length ≤ n →
      AckIter.collect n ⟨ack.largest, ack.additional⟩ = .ok (ranges.ranges.reverse.map inclusive)) ∧
    ∀ suffix, ∃ p p', FrameParser.new (bs ++ suffix) = .ok p ∧
      p.next = .ok (some (.ok (.ack ack)), p') ∧ p'.bytes = suffix := by
  let ranges := ((ArrayRangeSet.new.insert ⟨1, 3⟩).2.insert ⟨5, 9⟩).2
  have hlt : ∀ x ∈ ranges, x < 2 ^ 62 := by
    intro x hx
    simp only [ranges, ArrayRangeSet.mem_insert, Range.mem_iff] at hx
    rcases hx with hx | hx | hx
    · omega
    · omega
    · exact absurd hx (ArrayRangeSet.notMem_new x)
  obtain ⟨bs, ack, h⟩ := ack_round_trip ranges (by decide) hlt 7 (by decide) (some ⟨1, 2, 3⟩)
    (fun x hx => by cases hx; decide)
  exact ⟨ranges, bs, ack, rfl, h⟩

end MzQuic
