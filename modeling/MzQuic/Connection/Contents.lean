import MzQuic.Connection.HonestAcks
import MzQuic.Connection.Pruning
import MzQuic.Connection.Truthful

/-!
# What is in a packet (`core/src/connection/mod.rs`, `stream/state.rs`)

* `FrameParser.Puts`: frames that have a property in common were written;
* `Offers`: the frames that a connection has for a packet, apart from STREAM frames;
* `populateControl_puts`, `populatePacket_puts`: these are written, and the STREAM frames that are noted;
* **`composePacket_contents`**: how the peer reads the packet of a space.
-/

namespace MzQuic

open Lib

/-- Frames of which `P` holds were written to the buffer. -/
def FrameParser.Puts (P : Frame → Prop) (out out' : BufMut) : Prop :=
  ∃ fs, FrameParser.Wrote fs out out' ∧ ∀ f ∈ fs, P f

namespace FrameParser.Puts

variable {P Q : Frame → Prop} {out out₁ out₂ : BufMut}

theorem none (out : BufMut) : Puts P out out := ⟨[], .nil out, nofun⟩

theorem one {f : Frame} (h : Wrote [f] out out₁) (hf : P f) : Puts P out out₁ :=
  ⟨[f], h, fun g hg => by rwa [List.mem_singleton.mp hg]⟩

theorem append (h : Puts P out out₁) (h' : Puts P out₁ out₂) : Puts P out out₂ := by
  obtain ⟨fs, hw, hf⟩ := h
  obtain ⟨gs, hw', hg⟩ := h'
  exact ⟨fs ++ gs, hw.append hw', fun f hm => (List.mem_append.mp hm).elim (hf f) (hg f)⟩

theorem mono (h : Puts P out out₁) (hPQ : ∀ f, P f → Q f) : Puts Q out out₁ := by
  obtain ⟨fs, hw, hf⟩ := h
  exact ⟨fs, hw, fun f hm => hPQ f (hf f hm)⟩

end FrameParser.Puts

open FrameParser (Puts)

namespace Connection

/-- The frames that a connection has for a packet of the space `id`, apart from STREAM frames. -/
inductive Offers (c : Connection) (id : SpaceId) : Frame → Prop
  /-- An ACK of numbers that are to be acknowledged. -/
  | ack {a : Ack} (hl : a.largest ∈ (c.spaces id).pendingAcks.ranges) (h : ∀ ranges, a.iter = .ok ranges →
      ∀ n ∈ ranges.flatMap rangeInclusive, n ∈ (c.spaces id).pendingAcks.ranges) : Offers c id (.ack a)
  | hello (h : (c.spaces id).pending.hello = true) : Offers c id (.crypto 0 [0])
  | ping : Offers c id .ping
  | reset {i : StreamId} {errorCode : ℕ} {stream : Send} (hid : id = .data)
      (h : (i, errorCode) ∈ (c.spaces .data).pending.resetStream) (hs : c.streams.send i = some stream) :
      Offers c id (.resetStream ⟨i, errorCode, stream.offset⟩)
  | stop {frame : StopSending} (hid : id = .data) (h : frame ∈ (c.spaces .data).pending.stopSending) :
      Offers c id (.stopSending frame)

section Puts

variable {c c' : Connection} {now : Instant} {id : SpaceId} {buf buf' : BufMut}

/-! ## The parts of a packet -/

/-- **The ACK frame of a packet** acknowledges what the space has received. -/
theorem populateAnyAcks_puts {largest : Option ℕ} (h : populateAnyAcks now (c.spaces id) buf = .ok (largest, buf')) :
    Puts (fun f => c.Offers id f ∧ ∃ a, f = .ack a) buf buf' := by
  rcases populateAnyAcks_wrote h with ⟨-, -, rfl⟩ | ⟨ack, -, hw⟩
  · exact .none _
  · unfold populateAnyAcks at h
    split_ifs at h with hr
    · obtain ⟨u, -, h⟩ := Checked.bind_eq_ok.mp h
      obtain ⟨buf₁, he, h⟩ := Checked.bind_eq_ok.mp h
      cases h
      obtain ⟨bs, ack', rfl, hmax, -, hiter, hread⟩ := Ack.encode_ok he
      refine .one (.single hw.toExtends.of_append fun ty s => ⟨_, hread ty s⟩)
        ⟨.ack (ArrayRangeSet.mem_max hmax) ?_, ack', rfl⟩
      intro ranges hranges n hn
      rw [hiter] at hranges
      cases hranges
      obtain ⟨r, hr, h1, h2⟩ := mem_flatMap_rangeInclusive.mp hn
      exact PendingAcks.mem_of_inclusive hr h1 h2
    · cases h
      exact .none _

theorem populateHello_puts {sent sent' : SentFrames} {space' : PacketSpace}
    (h : populateHello id sent (c.spaces id) buf = .ok (sent', space', buf')) : Puts (c.Offers id) buf buf' := by
  obtain ⟨⟨sent₁, space₁, buf₁⟩, h1, h⟩ := Checked.bind_eq_ok.mp h
  have hhello : Puts (c.Offers id) buf buf₁ := by
    split_ifs at h1 with hh
    · obtain ⟨b1, e1, h1⟩ := Checked.bind_eq_ok.mp h1
      obtain ⟨b2, e2, h1⟩ := Checked.bind_eq_ok.mp h1
      obtain ⟨b3, e3, h1⟩ := Checked.bind_eq_ok.mp h1
      obtain ⟨b4, e4, h1⟩ := Checked.bind_eq_ok.mp h1
      cases h1
      exact .one (hello_wrote e1 e2 e3 e4) (.hello hh)
    · cases h1
      exact .none _
  dsimp only at h
  split_ifs at h with hp
  · obtain ⟨b, e, h⟩ := Checked.bind_eq_ok.mp h
    cases h
    exact hhello.append (.one (ping_wrote e) .ping)
  · cases h
    exact hhello

/-- The RESET_STREAM frames tell how much was written. -/
theorem resetLoop_puts {s : StreamsState} {queue rest : List (StreamId × ℕ)} {sent sent' : ThinRetransmits}
    (h : s.resetLoop queue sent buf = .ok (rest, sent', buf')) : Puts (fun f => ∃ x ∈ queue, ∃ stream,
      s.send x.1 = some stream ∧ f = .resetStream ⟨x.1, x.2, stream.offset⟩) buf buf' := by
  induction queue generalizing sent buf with
  | nil =>
      cases h
      exact .none _
  | cons x queue ih =>
      have htail : ∀ {b : BufMut} {sent : ThinRetransmits}, s.resetLoop queue sent b = .ok (rest, sent', buf') →
          Puts (fun f => ∃ y ∈ x :: queue, ∃ stream, s.send y.1 = some stream ∧
            f = .resetStream ⟨y.1, y.2, stream.offset⟩) b buf' := fun h =>
        (ih h).mono fun f hf => by
          obtain ⟨y, hy, hrest⟩ := hf
          exact ⟨y, List.mem_cons_of_mem x hy, hrest⟩
      obtain ⟨i, errorCode⟩ := x
      unfold StreamsState.resetLoop at h
      split_ifs at h
      · split at h
        next => exact htail h
        next stream hs =>
          obtain ⟨buf₁, h1, h⟩ := Checked.bind_eq_ok.mp h
          exact (Puts.one (ResetStream.encode_wrote h1) ⟨(i, errorCode), List.mem_cons_self, stream, hs, rfl⟩).append
            (htail h)
      · cases h
        exact .none _

theorem stopLoop_puts {queue rest : List StopSending} {sent sent' : ThinRetransmits}
    (h : StreamsState.stopLoop queue sent buf = .ok (rest, sent', buf')) :
    Puts (fun f => ∃ x ∈ queue, f = .stopSending x) buf buf' := by
  induction queue generalizing sent buf with
  | nil =>
      cases h
      exact .none _
  | cons x queue ih =>
      unfold StreamsState.stopLoop at h
      split_ifs at h
      · obtain ⟨buf₁, h1, h⟩ := Checked.bind_eq_ok.mp h
        refine (Puts.one (StopSending.encode_wrote h1) ⟨x, List.mem_cons_self, rfl⟩).append ((ih h).mono ?_)
        rintro f ⟨y, hy, rfl⟩
        exact ⟨y, List.mem_cons_of_mem x hy, rfl⟩
      · cases h
        exact .none _

/-- **The frames before the STREAM frames.** -/
theorem populateControl_puts {sent : SentFrames} {space : PacketSpace}
    (h : c.populateControl now id buf = .ok (sent, space, buf')) : Puts (c.Offers id) buf buf' := by
  obtain ⟨⟨largest, buf₁⟩, h1, h⟩ := Checked.bind_eq_ok.mp h
  obtain ⟨⟨sent₁, space₁, buf₂⟩, h2, h⟩ := Checked.bind_eq_ok.mp h
  have hfirst : Puts (c.Offers id) buf buf₂ :=
    ((populateAnyAcks_puts h1).mono fun f hf => hf.1).append (populateHello_puts h2)
  obtain ⟨-, -, hr, hst⟩ := populateHello_controls h2
  dsimp only at h
  split_ifs at h with hid
  · obtain ⟨⟨b, pending, retransmits⟩, h3, h⟩ := Checked.bind_eq_ok.mp h
    cases h
    obtain ⟨⟨resets, sent₂, buf₃⟩, h4, h3⟩ := Checked.bind_eq_ok.mp h3
    obtain ⟨⟨stops, sent₃, buf₄⟩, h5, h3⟩ := Checked.bind_eq_ok.mp h3
    cases h3
    rw [hr] at h4
    rw [hst] at h5
    subst hid
    refine hfirst.append (((resetLoop_puts h4).mono ?_).append ((stopLoop_puts h5).mono ?_))
    · rintro f ⟨x, hx, stream, hs, rfl⟩
      exact .reset rfl (List.mem_reverse.mp hx) hs
    · rintro f ⟨x, hx, rfl⟩
      exact .stop rfl (List.mem_reverse.mp hx)
  · cases h
    exact hfirst

/-- The noted STREAM frames are those that `write_stream_frames` has written, if it was called. -/
def Streamed (c c' : Connection) (metas : List StreamMeta) : Prop :=
  c'.streams = c.streams ∧ metas = [] ∨
    ∃ buf buf', c.streams.writeStreamFrames buf true = .ok (metas, c'.streams, buf')

/-- **The frames of a packet.** The STREAM frames are those that are noted. -/
theorem populatePacket_puts {wrote : StreamId → Bytes}
    (hb : id = .data → ∀ i, ∀ stream ∈ c.streams.send i, stream.pending.WF (wrote i)) {sent : SentFrames}
    (hw : ∀ sent space buf₁, id = .data → c.populateControl now id buf = .ok (sent, space, buf₁) →
      StreamsState.TurnsMeet true StreamsState.Whole (c.streams.writeFuel buf₁) c.streams buf₁)
    (h : c.populatePacket now id buf = .ok (sent, c', buf')) :
    ∃ fs, (∀ f ∈ fs, c.Offers id f) ∧
      FrameParser.Wrote (fs ++ sent.streamFrames.map fun m => .stream (m.frame (wrote m.id))) buf buf' ∧
      (∀ m ∈ sent.streamFrames, m.offsets.start ≤ m.offsets.end ∧ m.offsets.end ≤ (wrote m.id).length) ∧
      c.Streamed c' sent.streamFrames := by
  obtain ⟨⟨sent₁, space, buf₁⟩, h1, h⟩ := Checked.bind_eq_ok.mp h
  obtain ⟨fs, hfs, hoffers⟩ := populateControl_puts h1
  obtain ⟨hnil, -⟩ := populateControl_ok h1
  dsimp only at h
  split_ifs at h with hid
  · obtain ⟨⟨metas, s, buf₂⟩, h2, h⟩ := Checked.bind_eq_ok.mp h
    cases h
    have hsent := writeStreamFrames_sentSince (hb hid) (hw sent₁ space buf₁ hid h1) h2
    exact ⟨fs, hoffers, hfs.append hsent.frames, hsent.ranges, .inr ⟨buf₁, buf₂, h2⟩⟩
  · cases h
    rw [hnil]
    refine ⟨fs, hoffers, ?_, nofun, .inl ⟨rfl, rfl⟩⟩
    rwa [List.map_nil, List.append_nil]

/-! ## Packets -/

/-- What the peer reads of a packet: a header of its space, and the frames `fs` followed by the STREAM frames that
are noted of it, with the bytes of `wrote`. -/
structure Reads (wrote : StreamId → Bytes) (p : ScheduledPacket) (fs : List Frame) (packet : Packet) : Prop where
  decode : packetOf p.packet = some packet
  space : packet.header.space = p.metaInfo.spaceId
  spells : FrameParser.Spells (fs ++ p.metaInfo.streamFrames.map fun m => .stream (m.frame (wrote m.id))) packet.payload
  ranges : ∀ m ∈ p.metaInfo.streamFrames, m.offsets.start ≤ m.offsets.end ∧ m.offsets.end ≤ (wrote m.id).length

/-- **The packet of a space** is read as what the connection has for it: nothing but an ACK if it is to close the
connection. -/
theorem composePacket_contents {close ackEliciting : Bool} {wrote : StreamId → Bytes}
    (hb : id = .data → ∀ i, ∀ stream ∈ c.streams.send i, stream.pending.WF (wrote i))
    (hw : close = false → id = .data → c.StreamsWhole now) (h : composePacket now close c id ackEliciting = .ok c') :
    ∃ p fs packet, c'.path.sendingQueue = c.path.sendingQueue ++ [p] ∧ p.metaInfo.spaceId = id ∧
      p.metaInfo.number = (c.spaces id).nextPacketNumber ∧ Reads wrote p fs packet ∧
      (∀ f ∈ fs, c.Offers id f ∧ (close = true → ∃ a, f = .ack a)) ∧ c.Streamed c' p.metaInfo.streamFrames := by
  obtain ⟨n, buf, sent, c₂, buf₂, h1, h2, rfl⟩ := composePacket_cases h
  obtain ⟨number, -, hbuf⟩ := startPacket_buf h1
  obtain ⟨rfl, -, -⟩ := startPacket_ok h1
  -- a new number changes nothing of what there is to send
  have hoffers : ∀ f, (c.numbered id).Offers id f → c.Offers id f := by
    have hspace : ∀ i, ((c.numbered id).spaces i).pending = (c.spaces i).pending ∧
        ((c.numbered id).spaces i).pendingAcks = (c.spaces i).pendingAcks := by
      intro i
      unfold numbered modifySpace
      by_cases hi : i = id
      · subst hi
        dsimp only
        rw [Function.update_self]
        exact ⟨rfl, rfl⟩
      · dsimp only
        rw [Function.update_of_ne hi]
        exact ⟨rfl, rfl⟩
    intro f hf
    cases hf with
    | ack hl h =>
        rw [(hspace id).2] at hl h
        exact .ack hl h
    | hello h => exact .hello (by rwa [← (hspace id).1])
    | ping => exact .ping
    | reset hid h hs => exact .reset hid (by rwa [← (hspace .data).1]) hs
    | stop hid h => exact .stop hid (by rwa [← (hspace .data).1])
  obtain ⟨fs, hfs, hpath, hwrote, hranges, hstreamed⟩ :
      ∃ fs, (∀ f ∈ fs, c.Offers id f ∧ (close = true → ∃ a, f = .ack a)) ∧
        (c₂.noteAcks id sent).path.sendingQueue = c.path.sendingQueue ∧
        FrameParser.Wrote (fs ++ sent.streamFrames.map fun m => .stream (m.frame (wrote m.id))) buf buf₂ ∧
        (∀ m ∈ sent.streamFrames, m.offsets.start ≤ m.offsets.end ∧ m.offsets.end ≤ (wrote m.id).length) ∧
        c.Streamed c₂ sent.streamFrames := by
    rw [(noteAcks_elsewhere c₂ id sent).path]
    rcases h2 with ⟨rfl, rfl, rfl, largest, h3⟩ | ⟨rfl, h2⟩
    · obtain ⟨fs, hw, hfs⟩ := populateAnyAcks_puts h3
      refine ⟨fs, fun f hf => ⟨hoffers f (hfs f hf).1, fun _ => (hfs f hf).2⟩, rfl, ?_, nofun, .inl ⟨rfl, rfl⟩⟩
      rwa [List.map_nil, List.append_nil]
    · obtain ⟨fs, hfs, hwrote, hranges, hstreamed⟩ := populatePacket_puts (c := c.numbered id) hb
        (fun sent space buf₁ hid h => by
        subst hid
        have := hw rfl rfl
        unfold StreamsWhole at this
        rw [h1] at this
        dsimp only at this
        rwa [h] at this) h2
      refine ⟨fs, fun f hf => ⟨hoffers f (hfs f hf), nofun⟩, ?_, hwrote, hranges, hstreamed⟩
      rw [(populatePacket_elsewhere h2).path]
      rfl
  obtain ⟨bs, rfl, hbs⟩ := hwrote.spells
  obtain ⟨header, hspace, hdecode⟩ := decode_txBytes id number bs
  refine ⟨⟨(buf.append bs).written, metaInfo now id ackEliciting _ sent (buf.append bs)⟩, fs, ⟨header, bs⟩, ?_, rfl,
    rfl, ⟨?_, hspace, hbs, hranges⟩, hfs, ?_⟩
  · exact congrArg (· ++ _) hpath
  · have hwritten : (buf.append bs).written = txBytes id number ++ bs := by
      rw [hbuf]
      rfl
    unfold packetOf
    dsimp only
    rw [hwritten, hdecode]
  · have hsame := noteAcks_streams c₂ id sent
    unfold Streamed at hstreamed ⊢
    rwa [← hsame] at hstreamed

end Puts

end Connection

end MzQuic
