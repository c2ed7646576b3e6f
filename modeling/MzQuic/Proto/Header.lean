import MzQuic.Proto.PacketNumber

/-!
# Packet headers round-trip (`proto/src/packet.rs`)

The first byte of a header holds its form, its type, its flags and the length of its packet number.

* `Header.firstByte`, `Header.bytes`: what `Header::encode` writes (`Header.appends_encode`);
* `Header.firstByte_long`, `Header.firstByte_short`: the bits of the first byte;
* `Header.decode_bytes`: the header is read back, up to the bits that its number is cut to;
* **`header_round_trip`**: a header whose number fits its width is read as it was written.
-/

namespace MzQuic

open Lib

/-- The number fits its width; only for three bytes does the type of the source not say so. -/
def PacketNumber.Fits (p : PacketNumber) : Prop := p.truncated < 2 ^ (8 * p.len)

theorem PacketNumber.Fits.wire_eq {p : PacketNumber} (h : p.Fits) : p.wire = p := by
  cases p with
  | u8 x => exact congrArg u8 (Nat.mod_eq_of_lt (by simpa [PacketNumber.Fits, truncated, len] using h))
  | u16 x => exact congrArg u16 (Nat.mod_eq_of_lt (by simpa [PacketNumber.Fits, truncated, len] using h))
  | u24 x => exact congrArg u24 (Nat.mod_eq_of_lt (by simpa [PacketNumber.Fits, truncated, len] using h))
  | u32 x => exact congrArg u32 (Nat.mod_eq_of_lt (by simpa [PacketNumber.Fits, truncated, len] using h))

namespace Header

/-- The header with its number as it is read. -/
def wire : Header → Header
  | initial h => initial { h with number := h.number.wire }
  | long ty dstCid srcCid number version => long ty dstCid srcCid number.wire version
  | short spin keyPhase dstCid number => short spin keyPhase dstCid number.wire
  | h => h

theorem wire_eq {h : Header} (hn : ∀ p ∈ h.number, p.Fits) : h.wire = h := by
  cases h with
  | initial h =>
      rw [wire, (hn h.number rfl).wire_eq]
  | long ty dstCid srcCid number version => rw [wire, (hn number rfl).wire_eq]
  | short spin keyPhase dstCid number => rw [wire, (hn number rfl).wire_eq]
  | retry => rfl
  | versionNegotiate => rfl

/-- A version that `decode` goes on with. -/
def Supported (versions : List ℕ) (version : ℕ) : Prop :=
  version ≠ 0 ∧ version < 2 ^ 32 ∧ version ∈ versions

/-- The header is one that `decode` can tell: its version is supported, the length of the id of a short
header is the agreed one, and a version negotiation has the bits of a long header. -/
def Valid (cidLen : ℕ) (versions : List ℕ) : Header → Prop
  | initial h => Supported versions h.version ∧ h.token.length < 2 ^ 62
  | long _ _ _ _ version => Supported versions version
  | retry _ _ version => Supported versions version
  | short _ _ dstCid _ => dstCid.bytes.length = cidLen
  | versionNegotiate random _ _ =>
      random &&& fixedBit ≠ 0 ∧ random &&& longReservedBits = 0 ∧ random &&& longHeaderForm = 0

/-! ## What is written -/

/-- The first byte of a header. -/
def firstByte : Header → UInt8
  | initial h => LongHeaderType.initial.toByte ||| h.number.tag
  | long ty _ _ number _ => (LongHeaderType.standard ty).toByte ||| number.tag
  | retry _ _ _ => LongHeaderType.retry.toByte
  | short spin keyPhase _ number => fixedBit ||| (if keyPhase then keyPhaseBit else 0) |||
      (if spin then spinBit else 0) ||| number.tag
  | versionNegotiate random _ _ => 0x80 ||| random

/-- A connection id with its length. -/
def cidBytes (cid : ConnectionId) : Bytes := beBytes 1 cid.bytes.length ++ cid.bytes

/-- What is written of a packet number in a long header. -/
def numberBytes (number : PacketNumber) : Bytes :=
  varintBytes number.len ++ beBytes number.len number.truncated

/-- What is written after the first byte. -/
def rest : Header → Bytes
  | initial h => beBytes 4 h.version ++ (cidBytes h.dstCid ++ (cidBytes h.srcCid ++
      ((varintBytes h.token.length ++ h.token) ++ numberBytes h.number)))
  | long _ dstCid srcCid number version => beBytes 4 version ++ (cidBytes dstCid ++ (cidBytes srcCid ++
      numberBytes number))
  | retry dstCid srcCid version => beBytes 4 version ++ (cidBytes dstCid ++ cidBytes srcCid)
  | short _ _ dstCid number => dstCid.bytes ++ beBytes number.len number.truncated
  | versionNegotiate _ srcCid dstCid => beBytes 4 0 ++ (cidBytes dstCid ++ cidBytes srcCid)

/-- What is written. -/
def bytes (h : Header) : Bytes := [h.firstByte] ++ h.rest

theorem len_lt (number : PacketNumber) : number.len < 2 ^ 62 := by
  cases number <;> norm_num [PacketNumber.len]

/-- **`Header::encode` writes the header.** -/
theorem appends_encode {h : Header} {cidLen : ℕ} {versions : List ℕ} (hv : h.Valid cidLen versions) :
    Appends h.encode h.bytes := by
  have hnum : ∀ number : PacketNumber, Appends (fun out => putVarint number.len out >>= number.encode)
      (numberBytes number) := fun number => (appends_putVarint (len_lt number)).seq number.appends_encode
  cases h with
  | initial h =>
      exact (appends_putSlice [_]).seq ((appends_putUint 4 _).seq (h.dstCid.appends_encode.seq
        (h.srcCid.appends_encode.seq ((appends_putBytesWithVarintLength hv.2).seq (hnum h.number)))))
  | long ty dstCid srcCid number version =>
      exact (appends_putSlice [_]).seq ((appends_putUint 4 _).seq (dstCid.appends_encode.seq
        (srcCid.appends_encode.seq (hnum number))))
  | retry dstCid srcCid version =>
      exact (appends_putSlice [_]).seq ((appends_putUint 4 _).seq (dstCid.appends_encode.seq
        srcCid.appends_encode))
  | short spin keyPhase dstCid number =>
      exact (appends_putSlice [_]).seq ((appends_putSlice _).seq number.appends_encode)
  | versionNegotiate random srcCid dstCid =>
      exact (appends_putSlice [_]).seq ((appends_putUint 4 _).seq (dstCid.appends_encode.seq
        srcCid.appends_encode))

/-! ## The first byte -/

theorem or_and_eq (a b c : UInt8) : (a ||| b) &&& c = (a &&& c) ||| (b &&& c) := by
  rw [← UInt8.toBitVec_inj]
  exact BitVec.and_or_distrib_right

/-- The bits of the first byte of a packet with a long header. -/
structure LongBits (first : UInt8) : Prop where
  fixed : first &&& fixedBit ≠ 0
  form : first &&& longHeaderForm ≠ 0
  reserved : first &&& longReservedBits = 0

theorem longBits_initial (number : PacketNumber) :
    LongBits (LongHeaderType.initial.toByte ||| number.tag) ∧
      LongHeaderType.ofByte (LongHeaderType.initial.toByte ||| number.tag) = .ok .initial ∧
      PacketNumber.decodeLen (LongHeaderType.initial.toByte ||| number.tag) = number.len := by
  cases number <;> simp only [PacketNumber.tag, PacketNumber.len] <;>
    exact ⟨⟨by decide, by decide, by decide⟩, by decide, by decide⟩

theorem longBits_standard (ty : LongType) (number : PacketNumber) :
    LongBits ((LongHeaderType.standard ty).toByte ||| number.tag) ∧
      LongHeaderType.ofByte ((LongHeaderType.standard ty).toByte ||| number.tag) = .ok (.standard ty) ∧
      PacketNumber.decodeLen ((LongHeaderType.standard ty).toByte ||| number.tag) = number.len := by
  cases ty <;> cases number <;> simp only [PacketNumber.tag, PacketNumber.len] <;>
    exact ⟨⟨by decide, by decide, by decide⟩, by decide, by decide⟩

theorem longBits_retry : LongBits LongHeaderType.retry.toByte ∧
    LongHeaderType.ofByte LongHeaderType.retry.toByte = .ok .retry :=
  ⟨⟨by decide, by decide, by decide⟩, by decide⟩

/-- The top bit does not disturb the random bits below it. -/
theorem longBits_random {random : UInt8} (hf : random &&& fixedBit ≠ 0) (hr : random &&& longReservedBits = 0)
    (hl : random &&& longHeaderForm = 0) :
    LongBits (0x80 ||| random) ∧ (0x80 ||| random) &&& ~~~longHeaderForm = random := by
  have hall : random &&& longHeaderForm ||| random &&& ~~~longHeaderForm = random := by
    rw [UInt8.and_comm random, UInt8.and_comm random, ← or_and_eq,
      show longHeaderForm ||| ~~~longHeaderForm = -1 by decide]
    simp
  refine ⟨⟨?_, ?_, ?_⟩, ?_⟩
  · rwa [or_and_eq, show (0x80 : UInt8) &&& fixedBit = 0 by decide, UInt8.zero_or]
  · rw [or_and_eq, hl]
    decide
  · rw [or_and_eq, hr]
    decide
  · rw [or_and_eq, show (0x80 : UInt8) &&& ~~~longHeaderForm = 0 by decide, UInt8.zero_or]
    rwa [hl, UInt8.zero_or] at hall

/-- The bits of the first byte of a packet with a short header. -/
theorem shortBits (spin keyPhase : Bool) (number : PacketNumber) {first : UInt8}
    (h : first = fixedBit ||| (if keyPhase then keyPhaseBit else 0) ||| (if spin then spinBit else 0) |||
      number.tag) :
    first &&& fixedBit ≠ 0 ∧ first &&& longHeaderForm = 0 ∧ first &&& shortReservedBits = 0 ∧
      (first &&& spinBit ≠ 0 ↔ spin = true) ∧ (first &&& keyPhaseBit ≠ 0 ↔ keyPhase = true) ∧
      PacketNumber.decodeLen first = number.len := by
  subst h
  cases spin <;> cases keyPhase <;> cases number <;> simp only [PacketNumber.tag, PacketNumber.len] <;> decide

/-! ## What is read -/

section Decode

variable {cidLen : ℕ} {versions : List ℕ}

theorem get_append {α : Type} {x : Get TryGetError α} {b s : Bytes} {a : α} (h : x b = .ok (.ok a, s)) :
    get x b = .ok (.ok a, s) := Get.mapError_ok h

theorem get_cid_append (cid : ConnectionId) (s : Bytes) :
    get ConnectionId.decode (cidBytes cid ++ s) = .ok (.ok cid, s) := by
  rw [cidBytes, List.append_assoc]
  exact get_append (cid.decode_append s)

/-- A long header up to its connection ids. -/
theorem decode_long {first : UInt8} (hb : LongBits first) {ty : LongHeaderType}
    (hty : LongHeaderType.ofByte first = .ok ty) {version : ℕ} (hv : version < 2 ^ 32)
    (dstCid srcCid : ConnectionId) (s : Bytes) :
    decode cidLen versions (first :: (beBytes 4 version ++ (cidBytes dstCid ++ (cidBytes srcCid ++ s)))) =
      (if version = 0 then return versionNegotiate (first &&& ~~~longHeaderForm) srcCid dstCid
      else if version ∉ versions then Get.fail (.unsupportedVersion srcCid dstCid version)
      else decodeLong ty first version dstCid srcCid : Get PacketDecodeError Header) s := by
  have hfirst : ∀ b, get Get.tryGetU8 (first :: b) = .ok (.ok first, b) := fun _ => rfl
  have hlift : ∀ b, (Get.lift (LongHeaderType.ofByte first) : Get PacketDecodeError LongHeaderType) b =
      .ok (.ok ty, b) := fun b => by
    rw [hty]
    rfl
  have hversion : ∀ b, get (Get.tryGetUint 4) (beBytes 4 version ++ b) = .ok (.ok version, b) := fun b => by
    refine get_append ?_
    rw [Get.tryGetUint_append b (length_beBytes 4 version), beNat_beBytes, Nat.mod_eq_of_lt (by simpa using hv)]
  rw [decode, Get.bind_ok (hfirst _), if_neg hb.fixed, if_neg hb.form, if_neg (not_not.mpr hb.reserved),
    Get.bind_ok (hlift _), Get.bind_ok (hversion _), Get.bind_ok (get_cid_append dstCid _),
    Get.bind_ok (get_cid_append srcCid _)]

/-- The packet number of a long header. -/
theorem decode_number {first : UInt8} {number : PacketNumber}
    (hlen : PacketNumber.decodeLen first = number.len) (f : PacketNumber → Header) (s : Bytes) :
    (do
      let _ ← get tryGetVarint
      let number ← PacketNumber.decode (PacketNumber.decodeLen first)
      return f number : Get PacketDecodeError Header) (numberBytes number ++ s) = .ok (.ok (f number.wire), s) := by
  rw [numberBytes, List.append_assoc, hlen,
    Get.bind_ok (get_append (tryGetVarint_varintBytes (len_lt number) _)), Get.bind_ok (number.decode_append s)]
  rfl

/-- **A header is read back**, up to the bits that its number is cut to, and what follows it is left. -/
theorem decode_bytes {h : Header} (hv : h.Valid cidLen versions) (s : Bytes) :
    decode cidLen versions (h.bytes ++ s) = .ok (.ok h.wire, s) := by
  rw [bytes, List.append_assoc, List.singleton_append]
  cases h with
  | initial h =>
      obtain ⟨⟨h0, h32, hmem⟩, htok⟩ := hv
      obtain ⟨hb, hty, hlen⟩ := longBits_initial h.number
      simp only [firstByte, rest, List.append_assoc]
      rw [decode_long hb hty h32, if_neg h0, if_neg (not_not.mpr hmem), decodeLong, ← List.append_assoc,
        Get.bind_ok (get_append (tryGetBytesWithVarintLength_append htok _))]
      exact decode_number hlen _ s
  | long ty dstCid srcCid number version =>
      obtain ⟨h0, h32, hmem⟩ := hv
      obtain ⟨hb, hty, hlen⟩ := longBits_standard ty number
      simp only [firstByte, rest, List.append_assoc]
      rw [decode_long hb hty h32, if_neg h0, if_neg (not_not.mpr hmem), decodeLong]
      exact decode_number hlen _ s
  | retry dstCid srcCid version =>
      obtain ⟨h0, h32, hmem⟩ := hv
      obtain ⟨hb, hty⟩ := longBits_retry
      simp only [firstByte, rest, List.append_assoc]
      rw [decode_long hb hty h32, if_neg h0, if_neg (not_not.mpr hmem), decodeLong]
      rfl
  | short spin keyPhase dstCid number =>
      obtain ⟨hfixed, hform, hres, hspin, hkey, hlen⟩ := shortBits spin keyPhase number rfl
      have hfirst : ∀ b, get Get.tryGetU8 ((short spin keyPhase dstCid number).firstByte :: b) =
          .ok (.ok (short spin keyPhase dstCid number).firstByte, b) := fun _ => rfl
      have hcid : get (ConnectionId.fromBuf cidLen) (dstCid.bytes ++ (beBytes number.len number.truncated ++ s)) =
          .ok (.ok dstCid, beBytes number.len number.truncated ++ s) := by
        rw [← (show dstCid.bytes.length = cidLen from hv)]
        exact get_append (dstCid.fromBuf_append _)
      rw [rest, List.append_assoc, decode, Get.bind_ok (hfirst _)]
      unfold firstByte
      rw [if_neg hfixed, if_pos hform, if_neg (not_not.mpr hres), Get.bind_ok hcid, hlen,
        Get.bind_ok (number.decode_append s)]
      simp only [hspin, hkey, Bool.decide_eq_true]
      rfl
  | versionNegotiate random srcCid dstCid =>
      obtain ⟨hf, hr, hl⟩ := hv
      obtain ⟨hb, hrandom⟩ := longBits_random hf hr hl
      obtain ⟨ty, hty⟩ := LongHeaderType.ofByte_total hb.form
      simp only [firstByte, rest, List.append_assoc]
      rw [decode_long hb hty (by norm_num), if_pos rfl, hrandom]
      rfl

end Decode

end Header

/-- **Packet headers round-trip.** A header that `decode` can tell and whose number fits its width is written as
the same bytes to every buffer with room for them; these, followed by any payload, are read as the header, and
the payload is left. -/
theorem header_round_trip (h : Header) (cidLen : ℕ) (versions : List ℕ) (hv : h.Valid cidLen versions)
    (hn : ∀ p ∈ h.number, p.Fits) :
    ∃ bs : Bytes, Appends h.encode bs ∧
      ∀ payload, Header.decode cidLen versions (bs ++ payload) = .ok (.ok h, payload) := by
  refine ⟨h.bytes, Header.appends_encode hv, fun payload => ?_⟩
  rw [Header.decode_bytes hv payload, Header.wire_eq hn]

/-- An Initial header with a token. -/
theorem header_round_trip_initial : ∃ h : Header,
    h = .initial ⟨⟨[1, 2], by decide⟩, ⟨[], by decide⟩, [7, 8, 9], .u24 70000, 1⟩ ∧
    ∃ bs : Bytes, Appends h.encode bs ∧
      ∀ payload, Header.decode 8 [1] (bs ++ payload) = .ok (.ok h, payload) := by
  refine ⟨_, rfl, header_round_trip _ 8 [1] ⟨⟨by decide, by decide, by decide⟩, by decide⟩ fun p hp => ?_⟩
  cases hp
  norm_num [PacketNumber.Fits, PacketNumber.truncated, PacketNumber.len]

end MzQuic
