import MetaRtc.Rtmp.Chunks

/-! # Messages put together again

As long as the chunks of one message come without those of another between them, both sides agree
on what has been sent on each channel. -/
namespace MetaRtc

open Bytes Function Run

/-- What is kept of a channel's last chunk. -/
structure RtmpPacket.Keeps (kept : RtmpPacket) (channel : RtmpChannel) : Prop where
  describes : kept.Describes channel.message
  nTimeStamp : kept.nTimeStamp = min channel.field 0xffffff
  field : channel.field < 2 ^ 32

/-- Whether a packet's time is the message's, given the time of the channel's message before. -/
structure RtmpPacket.Timed (packet : RtmpPacket) (last : Nat) (channel : RtmpChannel) : Prop where
  absolute : packet.hasAbsTimestamp = true → channel.message.nTimeStamp = channel.field
  relative : packet.hasAbsTimestamp = false →
    channel.message.nTimeStamp = (channel.field + last) % 2 ^ 32

/-- What is kept of a channel between two messages. -/
structure RtmpPacket.Rests (kept : RtmpPacket) (last : Nat) (channel : RtmpChannel) : Prop where
  keeps : kept.Keeps channel
  nBytesRead : kept.nBytesRead = 0
  body : kept.body = none
  hasAbsTimestamp : kept.hasAbsTimestamp = false
  timestamp : last = channel.message.nTimeStamp

/-- What is kept of a channel between two chunks of a message. -/
structure RtmpPacket.Waits (kept : RtmpPacket) (last : Nat) (channel : RtmpChannel)
    (pszbody : Nat) : Prop where
  keeps : kept.Keeps channel
  nBytesRead : kept.nBytesRead = channel.sent
  body : kept.body = some pszbody
  timed : kept.Timed last channel

/-- The packet of a chunk before its bytes are read. -/
structure RtmpPacket.Opens (packet : RtmpPacket) (last : Nat) (channel : RtmpChannel) : Prop where
  describes : packet.Describes channel.message
  nTimeStamp : packet.nTimeStamp = channel.field
  field : channel.field < 2 ^ 32
  nBytesRead : packet.nBytesRead = channel.sent
  timed : packet.Timed last channel

section Header

variable {r : Rtmp} {packet : RtmpPacket} {fmt nChannel field : Nat}
  {basic data : List UInt8} {message : RtmpMessage}

theorem readHeader_fields (start : RtmpPacket) {header : List UInt8} (hfmt : fmt < 4)
    (hbasic : BasicHeader fmt nChannel basic) (hheader : header.length = packetSize fmt - 1)
    (hinput : r.input = basic ++ (header ++ (timeExtension field ++ data)))
    (hstart : (if packetSize fmt = rtmpLargeHeaderSize then
      { packet with headerType := fmt, nChannel, hasAbsTimestamp := true }
      else (r.vecChannelsIn nChannel).getD { packet with headerType := fmt, nChannel }) = start)
    (htime : (start.decodeHeader header).nTimeStamp = min field 0xffffff) (hfield : field < 2 ^ 32) :
    readHeader r packet = some (({ start.decodeHeader header with nTimeStamp := field }, fmt,
      decide (0xffffff ≤ field)), { r with input := data }) := by
  unfold readHeader
  rw [readChannel_basic hfmt hbasic hinput]
  simp only [Option.bind_eq_bind, Option.bind_some]
  rw [readN_append rfl hheader]
  simp only [Option.bind_some]
  rw [hstart, htime]
  by_cases hlong : 0xffffff ≤ field
  · have hfull : (min field 0xffffff == 0xffffff) = true := by
      rw [Nat.min_eq_right hlong]
      rfl
    have hfour : timeExtension field = beBytes 4 field := if_pos hlong
    rw [hfull, hfour, if_pos rfl, readN_append rfl (beBytes_length 4 field), decide_eq_true hlong]
    simp only [Option.bind_some, if_true]
    rw [beNat_beBytes, show field % 256 ^ 4 = field from Nat.mod_eq_of_lt hfield]
    rfl
  · have hshort : min field 0xffffff = field := by omega
    have hnone : timeExtension field = [] := if_neg hlong
    have hfull : (min field 0xffffff == 0xffffff) = false := by
      rw [hshort]
      simp only [beq_eq_false_iff_ne]
      omega
    rw [hfull, hnone, if_neg Bool.false_ne_true,
      readN_append rfl (show ([] : List UInt8).length = 0 from rfl), decide_eq_false hlong]
    simp only [Option.bind_some, Bool.false_eq_true, if_false]
    have hsame : { start.decodeHeader header with nTimeStamp := field } =
        start.decodeHeader header := by
      rw [← htime.trans hshort]
    rw [hsame]
    rfl

theorem HeaderType.field_lt {before : Option RtmpChannel} (h : HeaderType message field before fmt)
    (hvalid : message.Valid) : fmt < 4 ∧ field < 2 ^ 32 := by
  cases h with
  | large htime => exact ⟨by omega, htime ▸ hvalid.nTimeStamp⟩
  | medium hfield => exact ⟨by omega, hfield⟩
  | small hfield => exact ⟨by omega, hfield⟩
  | minimum _ hfield => exact ⟨by omega, hfield⟩

/-- A header that leaves the time to what is kept. -/
theorem RtmpPacket.Rests.opens {kept opened : RtmpPacket} {channel : RtmpChannel} {last : Nat}
    (hrests : kept.Rests last channel) (hlt : field < 2 ^ 32)
    (htime : message.nTimeStamp = (field + channel.message.nTimeStamp) % 2 ^ 32)
    (hdescribes : opened.Describes message) (hfield : opened.nTimeStamp = field)
    (hread : opened.nBytesRead = 0) (habs : opened.hasAbsTimestamp = kept.hasAbsTimestamp) :
    opened.Opens last ⟨message, field, 0⟩ where
  describes := hdescribes
  nTimeStamp := hfield
  field := hlt
  nBytesRead := hread
  timed :=
    { absolute := fun h => by
        rw [habs, hrests.hasAbsTimestamp] at h
        cases h
      relative := fun _ => by
        rw [hrests.timestamp]
        exact htime }

theorem readHeader_begins {before : Option RtmpChannel} (hvalid : message.Valid)
    (hpac : packet.body = none) (htype : HeaderType message field before fmt)
    (hbasic : BasicHeader fmt message.nChannel basic)
    (hinput : r.input = basic ++ (messageHeader fmt field message ++ (timeExtension field ++ data)))
    (hbefore : ∀ channel, before = some channel → channel.message.nChannel = message.nChannel ∧
      ∃ kept, r.vecChannelsIn message.nChannel = some kept ∧
        kept.Rests (r.channelTimestamp message.nChannel) channel) :
    ∃ opened, readHeader r packet = some ((opened, fmt, decide (0xffffff ≤ field)),
        { r with input := data }) ∧
      opened.Opens (r.channelTimestamp message.nChannel) ⟨message, field, 0⟩ ∧
      opened.body = none := by
  obtain ⟨hfmt, hfield⟩ := htype.field_lt hvalid
  have hheader := messageHeader_length hfmt field message
  cases htype with
  | large htime =>
    have hdecode := decodeHeader_large field
      { packet with headerType := 0, nChannel := message.nChannel, hasAbsTimestamp := true } hvalid
    refine ⟨_, readHeader_fields _ hfmt hbasic hheader hinput (if_pos rfl) ?_ hfield, ?_, ?_⟩
    · rw [hdecode]
    · rw [hdecode]
      exact ⟨⟨rfl, rfl, rfl, rfl⟩, rfl, hfield, rfl, fun _ => htime.symm, fun h => (nomatch h)⟩
    · rw [hdecode]
      exact hpac
  | @medium channel _ htime hstream =>
    obtain ⟨hsame, kept, hkept, hrests⟩ := hbefore channel rfl
    have hdecode := decodeHeader_medium field kept hvalid
    have hkeeps := hrests.keeps.describes
    refine ⟨_, readHeader_fields kept hfmt hbasic hheader hinput ?_ ?_ hfield, ?_, ?_⟩
    · rw [hkept]
      rfl
    · rw [hdecode]
    · rw [hdecode]
      exact hrests.opens hfield htime ⟨hkeeps.nChannel.trans hsame, rfl,
        hkeeps.nInfoField2.trans hstream.symm, rfl⟩ rfl rfl rfl
    · rw [hdecode]
      exact hrests.body
  | @small channel _ htime hstream hpacket hsize =>
    obtain ⟨hsame, kept, hkept, hrests⟩ := hbefore channel rfl
    have hdecode := decodeHeader_small field message kept
    have hkeeps := hrests.keeps.describes
    refine ⟨_, readHeader_fields kept hfmt hbasic hheader hinput ?_ ?_ hfield, ?_, ?_⟩
    · rw [hkept]
      rfl
    · rw [hdecode]
    · rw [hdecode]
      exact hrests.opens hfield htime ⟨hkeeps.nChannel.trans hsame,
        hkeeps.packetType.trans hpacket.symm, hkeeps.nInfoField2.trans hstream.symm,
        hkeeps.nBodySize.trans hsize.symm⟩ rfl hrests.nBytesRead rfl
    · rw [hdecode]
      exact hrests.body
  | @minimum channel hlast _ htime hstream hpacket hsize =>
    obtain ⟨hsame, kept, hkept, hrests⟩ := hbefore channel rfl
    have hdecode : kept.decodeHeader (messageHeader 3 field message) = kept := rfl
    have hkeeps := hrests.keeps.describes
    refine ⟨_, readHeader_fields kept hfmt hbasic hheader hinput ?_ ?_ hfield, ?_, ?_⟩
    · rw [hkept]
      rfl
    · rw [hdecode, hrests.keeps.nTimeStamp, hlast]
    · rw [hdecode]
      exact hrests.opens hfield htime ⟨hkeeps.nChannel.trans hsame,
        hkeeps.packetType.trans hpacket.symm, hkeeps.nInfoField2.trans hstream.symm,
        hkeeps.nBodySize.trans hsize.symm⟩ rfl hrests.nBytesRead rfl
    · rw [hdecode]
      exact hrests.body

theorem readHeader_continues {kept : RtmpPacket} {channel : RtmpChannel} {last pszbody : Nat}
    (hkept : r.vecChannelsIn nChannel = some kept) (hwaits : kept.Waits last channel pszbody)
    (hbasic : BasicHeader 3 nChannel basic)
    (hinput : r.input = basic ++ (timeExtension channel.field ++ data)) :
    ∃ opened, readHeader r packet = some ((opened, 3, decide (0xffffff ≤ channel.field)),
        { r with input := data }) ∧ opened.Opens last channel ∧ opened.body = some pszbody := by
  have hdecode : kept.decodeHeader [] = kept := rfl
  have hnone : ([] : List UInt8).length = packetSize 3 - 1 := rfl
  refine ⟨_, readHeader_fields kept (by omega) hbasic hnone hinput ?_ ?_
    hwaits.keeps.field, ?_, ?_⟩
  · rw [hkept]
    rfl
  · rw [hdecode, hwaits.keeps.nTimeStamp]
  · rw [hdecode]
    have hkeeps := hwaits.keeps.describes
    exact ⟨⟨hkeeps.nChannel, hkeeps.packetType, hkeeps.nInfoField2, hkeeps.nBodySize⟩, rfl,
      hwaits.keeps.field, hwaits.nBytesRead, ⟨hwaits.timed.absolute, hwaits.timed.relative⟩⟩
  · rw [hdecode]
    exact hwaits.body

end Header

section Body

variable {r : Rtmp} {packet : RtmpPacket} {channel : RtmpChannel} {rest : List UInt8}
  {size last pszbody : Nat}

/-- What has been sent of a message after its next chunk. -/
def RtmpChannel.sentAfter (channel : RtmpChannel) (size : Nat) : Nat :=
  min (channel.sent + size) channel.message.body.length

theorem readBody_next (hopens : packet.Opens last channel)
    (hbody : packet.body = some pszbody ∨ channel.message.body = [])
    (hsent : channel.sent ≤ channel.message.body.length) (hsize : r.inChunkSize = size)
    (hsmall : size < 2 ^ 31)
    (hinput : r.input = (channel.message.body.drop channel.sent).take size ++ rest)
    (hmem : r.mem.slice pszbody channel.sent = channel.message.body.take channel.sent) :
    ∃ mem, readBody r packet = some ({ packet with nBytesRead := channel.sentAfter size },
        { r with input := rest, mem }) ∧
      mem.slice pszbody (channel.sentAfter size) =
        channel.message.body.take (channel.sentAfter size) := by
  subst hsize
  have hsizes := hopens.describes.nBodySize
  have hread := hopens.nBytesRead
  have hchunk : (if channel.message.body.length - channel.sent < r.inChunkSize then
      channel.message.body.length - channel.sent else r.inChunkSize) = channel.sentAfter r.inChunkSize - channel.sent := by
    rw [RtmpChannel.sentAfter]
    split
    · omega
    · omega
  have hlength : ((channel.message.body.drop channel.sent).take r.inChunkSize).length =
      channel.sentAfter r.inChunkSize - channel.sent := by
    rw [List.length_take, List.length_drop, RtmpChannel.sentAfter]
    omega
  have hafter : channel.sent + (channel.sentAfter r.inChunkSize - channel.sent) = channel.sentAfter r.inChunkSize := by
    rw [RtmpChannel.sentAfter]
    omega
  obtain ⟨mem, hwritten⟩ : ∃ mem : Mem, mem = packet.body.elim r.mem fun body =>
      r.mem.write (body + packet.nBytesRead)
        ((channel.message.body.drop channel.sent).take r.inChunkSize) := ⟨_, rfl⟩
  refine ⟨mem, ?_, ?_⟩
  · unfold readBody
    rw [if_neg (by omega), hsizes]
    dsimp only
    rw [hread, hchunk, readN_append hinput hlength]
    simp only [Option.bind_eq_bind, Option.bind_some, hafter]
    rw [hwritten, hread]
    cases packet.body <;> rfl
  · rcases hbody with hbody | hempty
    · rw [hbody, hread, Option.elim_some] at hwritten
      have hold : mem.slice pszbody channel.sent = channel.message.body.take channel.sent := by
        rw [hwritten, Mem.slice_write_disjoint _ _ _ (.inl (Nat.le_refl _)), hmem]
      have hnew := r.mem.slice_write (pszbody + channel.sent)
        ((channel.message.body.drop channel.sent).take r.inChunkSize)
      rw [← hwritten, hlength] at hnew
      have hnext : channel.message.body.take (channel.sentAfter r.inChunkSize) =
          channel.message.body.take (channel.sent + r.inChunkSize) := by
        rw [List.take_eq_take_iff, RtmpChannel.sentAfter]
        omega
      rw [hnext, List.take_add, ← hold, ← hnew, ← Mem.slice_append, hafter]
    · have hnone : channel.sentAfter r.inChunkSize = 0 := by
        rw [RtmpChannel.sentAfter, hempty]
        exact Nat.min_zero _
      rw [hnone]
      rfl

theorem yangReadPacket_body {opened : RtmpPacket} {fmt : Nat} {extended : Bool} {input : List UInt8}
    (hheader : readHeader r packet = some ((opened, fmt, extended), { r with input }))
    (hopens : opened.Opens last channel) (hbody : opened.body = none ∨ opened.body = some pszbody)
    (htaken : ¬ refuses channel.message) (hsent : channel.sent ≤ channel.message.body.length)
    (hsmall : r.inChunkSize < 2 ^ 31)
    (hinput : input = (channel.message.body.drop channel.sent).take r.inChunkSize ++ rest)
    (hmem : r.mem.slice pszbody channel.sent = channel.message.body.take channel.sent) :
    ∃ (started : RtmpPacket) (mem : Mem), yangReadPacket r packet pszbody = some (keepPacket { r with input := rest, mem }
        { started with nBytesRead := channel.sentAfter r.inChunkSize } extended) ∧
      started.Opens last channel ∧
      (started.body = some pszbody ∨ channel.message.body = []) ∧
      mem.slice pszbody (channel.sentAfter r.inChunkSize) =
        channel.message.body.take (channel.sentAfter r.inChunkSize) := by
  have hsizes := hopens.describes.nBodySize
  have hsmaller : ¬ opened.nBodySize > 256000 := by
    rw [hsizes]
    simpa [refuses] using htaken
  by_cases hfirst : opened.nBodySize > 0 ∧ opened.body = none
  · have hstarted : ({ opened with body := some pszbody, headerType := fmt } : RtmpPacket).Opens
        last channel := by
      have hdescribes := hopens.describes
      exact ⟨⟨hdescribes.nChannel, hdescribes.packetType, hdescribes.nInfoField2,
        hdescribes.nBodySize⟩, hopens.nTimeStamp, hopens.field, hopens.nBytesRead,
        ⟨hopens.timed.absolute, hopens.timed.relative⟩⟩
    obtain ⟨mem, hread, hslice⟩ := readBody_next (r := { r with input })
      hstarted (.inl (rfl : some pszbody = some pszbody)) hsent rfl hsmall hinput hmem
    refine ⟨_, mem, ?_, hstarted, .inl rfl, hslice⟩
    unfold yangReadPacket
    rw [hheader]
    simp only [Option.bind_eq_bind, Option.bind_some]
    rw [if_pos hfirst, if_neg hsmaller, hread]
    rfl
  · have hstarted : opened.body = some pszbody ∨ channel.message.body = [] := by
      rcases hbody with hnone | hsome
      · right
        rw [not_and_or] at hfirst
        refine List.length_eq_zero_iff.mp ?_
        rcases hfirst with hzero | hnot
        · omega
        · exact absurd hnone hnot
      · exact .inl hsome
    obtain ⟨mem, hread, hslice⟩ := readBody_next (r := { r with input }) hopens hstarted hsent rfl
      hsmall hinput hmem
    refine ⟨opened, mem, ?_, hopens, hstarted, hslice⟩
    unfold yangReadPacket
    rw [hheader]
    simp only [Option.bind_eq_bind, Option.bind_some]
    rw [if_neg hfirst, hread]
    rfl

end Body

section Keep

variable {r : Rtmp} {packet : RtmpPacket} {channel : RtmpChannel} {pszbody : Nat}

/-- The time as it is kept for the next chunk. -/
theorem kept_time (field : Nat) : (if decide (0xffffff ≤ field) then 0xffffff else field) =
    min field 0xffffff := by
  by_cases hlong : 0xffffff ≤ field
  · rw [decide_eq_true hlong, if_pos rfl]
    omega
  · rw [decide_eq_false hlong, if_neg Bool.false_ne_true]
    omega

/-- The packet that is kept. -/
def keptPacket (packet : RtmpPacket) (extendedTimestamp : Bool) : RtmpPacket :=
  if extendedTimestamp then { packet with nTimeStamp := 0xffffff } else packet

theorem keptPacket_fields (packet : RtmpPacket) (extendedTimestamp : Bool) :
    keptPacket packet extendedTimestamp = { packet with
      nTimeStamp := if extendedTimestamp then 0xffffff else packet.nTimeStamp } := by
  cases extendedTimestamp
  · rfl
  · rfl

theorem isReady_iff {last : Nat} (hopens : packet.Opens last channel) :
    packet.isReady = true ↔ channel.Complete := by
  rw [RtmpPacket.isReady, beq_iff_eq, hopens.nBytesRead, hopens.describes.nBodySize]
  rfl

theorem keepPacket_waits
    (hopens : packet.Opens (r.channelTimestamp channel.message.nChannel) channel)
    (hbody : packet.body = some pszbody ∨ channel.message.body = [])
    (hsent : channel.sent ≤ channel.message.body.length) (hmore : ¬ channel.Complete) : ∃ kept,
      keepPacket r packet (decide (0xffffff ≤ channel.field)) = ({ packet with body := none },
        { r with vecChannelsIn := update r.vecChannelsIn channel.message.nChannel (some kept) }) ∧
      kept.Waits (r.channelTimestamp channel.message.nChannel) channel pszbody := by
  have hdescribes := hopens.describes
  have hnotReady : ¬ packet.isReady := fun h => hmore ((isReady_iff hopens).mp h)
  have hsome : packet.body = some pszbody := by
    refine hbody.resolve_right fun hempty => hmore ?_
    rw [hempty] at hsent
    rw [RtmpChannel.Complete, hempty]
    exact Nat.le_zero.mp hsent
  refine ⟨keptPacket packet (decide (0xffffff ≤ channel.field)), ?_, ?_⟩
  · rw [← hdescribes.nChannel]
    unfold keepPacket
    dsimp only
    rw [if_neg hnotReady]
    rfl
  · rw [keptPacket_fields]
    exact ⟨⟨⟨hdescribes.nChannel, hdescribes.packetType, hdescribes.nInfoField2,
      hdescribes.nBodySize⟩, by rw [hopens.nTimeStamp]; exact kept_time channel.field,
      hopens.field⟩, hopens.nBytesRead, hsome, ⟨hopens.timed.absolute, hopens.timed.relative⟩⟩

/-- A complete packet has the message's time, and its body where it was read to. -/
theorem keepPacket_rests
    (hopens : packet.Opens (r.channelTimestamp channel.message.nChannel) channel)
    (hdone : channel.Complete) : ∃ kept,
      keepPacket r packet (decide (0xffffff ≤ channel.field)) =
        ({ packet with nTimeStamp := channel.message.nTimeStamp },
          { r with
            channelTimestamp := update r.channelTimestamp channel.message.nChannel
              channel.message.nTimeStamp
            vecChannelsIn := update r.vecChannelsIn channel.message.nChannel (some kept) }) ∧
      kept.Rests channel.message.nTimeStamp channel := by
  have hdescribes := hopens.describes
  have htime : (if packet.hasAbsTimestamp then packet else { packet with
      nTimeStamp := (packet.nTimeStamp + r.channelTimestamp packet.nChannel) % 2 ^ 32 }) =
      { packet with nTimeStamp := channel.message.nTimeStamp } := by
    by_cases habs : packet.hasAbsTimestamp = true
    · rw [if_pos habs, hopens.timed.absolute habs, ← hopens.nTimeStamp]
    · rw [if_neg habs, hopens.timed.relative (Bool.eq_false_iff.mpr habs), hopens.nTimeStamp,
        hdescribes.nChannel]
  refine ⟨{ keptPacket packet (decide (0xffffff ≤ channel.field)) with
    body := none, nBytesRead := 0, hasAbsTimestamp := false }, ?_, ?_⟩
  · unfold keepPacket
    dsimp only
    rw [if_pos ((isReady_iff hopens).mpr hdone), htime]
    dsimp only
    rw [← hdescribes.nChannel]
    rfl
  · rw [keptPacket_fields]
    exact ⟨⟨⟨hdescribes.nChannel, hdescribes.packetType, hdescribes.nInfoField2,
      hdescribes.nBodySize⟩, by rw [hopens.nTimeStamp]; exact kept_time channel.field,
      hopens.field⟩, rfl, rfl, rfl, rfl⟩

end Keep

/-- Both sides agree on every channel. -/
structure RtmpAgrees (sender : RtmpSender) (s : YangStreamRtmp) : Prop where
  chunkSize : s.r.inChunkSize = sender.chunkSize
  positive : 0 < sender.chunkSize ∧ sender.chunkSize < 2 ^ 31
  input : s.r.input = []
  pac : s.pac.body = none
  delivered : s.delivered = sender.completed
  taken : ∀ message ∈ sender.completed, ¬ refuses message
  named : ∀ nChannel channel, sender.channels nChannel = some channel →
    channel.message.nChannel = nChannel ∧ channel.message.Valid ∧
      channel.sent ≤ channel.message.body.length
  rests : ∀ nChannel channel, sender.channels nChannel = some channel → channel.Complete →
    ∃ kept, s.r.vecChannelsIn nChannel = some kept ∧
      kept.Rests (s.r.channelTimestamp nChannel) channel
  waits : ∀ nChannel channel, sender.channels nChannel = some channel → ¬ channel.Complete →
    ∃ kept, s.r.vecChannelsIn nChannel = some kept ∧
      kept.Waits (s.r.channelTimestamp nChannel) channel (s.buf + 30) ∧
      s.r.mem.slice (s.buf + 30) channel.sent = channel.message.body.take channel.sent

section Step

variable {sender sender' : RtmpSender} {s : YangStreamRtmp} {channel : RtmpChannel}
  {chunk : RtmpChunk}

theorem RtmpAgrees.reassembles (h : RtmpAgrees sender s) : Reassembles sender s := by
  refine ⟨h.delivered.trans (List.filter_eq_self.mpr ?_).symm, h.input⟩
  intro message hmessage
  have htaken := h.taken message hmessage
  simpa using htaken

/-- The chunk size after a message, on both sides. -/
theorem clientPacket_size {r : Rtmp} (packet : RtmpPacket) {pszbody : Nat}
    (hvalid : channel.message.Valid) (hdescribes : packet.Describes channel.message)
    (hbody : packet.body = some pszbody ∨ channel.message.body = [])
    (hmem : r.mem.slice pszbody channel.message.body.length = channel.message.body) :
    (if packet.packetType = rtmpPacketTypeAudio ∨ packet.packetType = rtmpPacketTypeVideo then r
      else clientPacket r packet) = { r with
        inChunkSize := if channel.message.packetType = rtmpPacketTypeChunkSize then
          beNat channel.message.body else r.inChunkSize } := by
  rw [hdescribes.packetType]
  unfold clientPacket
  by_cases hsize : channel.message.packetType = rtmpPacketTypeChunkSize
  · obtain ⟨hfour, -, -⟩ := hvalid.chunkSize hsize
    have hsome : packet.body = some pszbody := by
      refine hbody.resolve_right fun hempty => ?_
      rw [hempty] at hfour
      cases hfour
    rw [if_neg (by rw [hsize]; decide), hdescribes.packetType, hdescribes.nBodySize,
      if_pos ⟨hsize, by omega⟩, if_pos hsize, hsome, Option.getD_some, Mem.be_eq_beNat, ← hfour, hmem]
  · have hother : ¬ (channel.message.packetType = rtmpPacketTypeChunkSize ∧ packet.nBodySize ≥ 4) :=
      fun h => hsize h.1
    rw [hdescribes.packetType, if_neg hother, if_neg hsize, ite_self]

/-- The time, type, length and body of a complete packet are the message's. -/
theorem message_complete {packet : RtmpPacket} {mem : Mem} {pszbody : Nat}
    (hdescribes : packet.Describes channel.message)
    (hbody : packet.body = some pszbody ∨ channel.message.body = [])
    (hmem : mem.slice pszbody channel.message.body.length = channel.message.body) :
    RtmpPacket.message { packet with nTimeStamp := channel.message.nTimeStamp } mem =
      channel.message := by
  have hslice : mem.slice (packet.body.getD 0) channel.message.body.length =
      channel.message.body := by
    rcases hbody with hsome | hempty
    · rw [hsome, Option.getD_some, hmem]
    · rw [hempty]
      rfl
  show RtmpMessage.mk packet.nChannel _ packet.packetType packet.nInfoField2
    (mem.slice (packet.body.getD 0) packet.nBodySize) = _
  rw [hdescribes.nChannel, hdescribes.packetType, hdescribes.nInfoField2, hdescribes.nBodySize,
    hslice]

/-- A channel after its next chunk. -/
def RtmpChannel.after (channel : RtmpChannel) (size : Nat) : RtmpChannel :=
  { channel with sent := channel.sentAfter size }

theorem RtmpChannel.after_sent (channel : RtmpChannel) (size : Nat) :
    (channel.after size).sent ≤ (channel.after size).message.body.length := Nat.min_le_right _ _

theorem RtmpPacket.Opens.after {opened : RtmpPacket} {last : Nat} (h : opened.Opens last channel)
    (size : Nat) : RtmpPacket.Opens { opened with nBytesRead := channel.sentAfter size } last
      (channel.after size) := by
  have hdescribes := h.describes
  exact ⟨⟨hdescribes.nChannel, hdescribes.packetType, hdescribes.nInfoField2,
    hdescribes.nBodySize⟩, h.nTimeStamp, h.field, rfl, ⟨h.timed.absolute, h.timed.relative⟩⟩

theorem RtmpSender.after_channels {nChannel : Nat} {other : RtmpChannel}
    (hother : (sender.after channel).channels nChannel = some other) :
    nChannel = channel.message.nChannel ∧ other = channel ∨
      nChannel ≠ channel.message.nChannel ∧ sender.channels nChannel = some other := by
  rw [show (sender.after channel).channels =
    update sender.channels channel.message.nChannel (some channel) from rfl] at hother
  by_cases hsame : nChannel = channel.message.nChannel
  · subst hsame
    rw [update_self] at hother
    exact .inl ⟨rfl, (Option.some.inj hother).symm⟩
  · rw [update_of_ne hsame] at hother
    exact .inr ⟨hsame, hother⟩

section Chunk

variable {packet : RtmpPacket} {mem : Mem} {bytes : List UInt8}

/-- What a chunk leaves, when the bytes of its message have been read. -/
structure ChunkRead (sender : RtmpSender) (s : YangStreamRtmp) (bytes : List UInt8)
    (packet : RtmpPacket) (mem : Mem) (channel : RtmpChannel) : Prop where
  agrees : RtmpAgrees sender s
  valid : channel.message.Valid
  others : ∀ nChannel other, sender.channels nChannel = some other →
    nChannel ≠ channel.message.nChannel → other.Complete
  taken : ¬ refuses channel.message
  sent : channel.sent ≤ channel.message.body.length
  read : yangReadPacket { s.r with input := bytes } s.pac (s.buf + 30) =
    some (keepPacket { s.r with input := [], mem } packet (decide (0xffffff ≤ channel.field)))
  opens : packet.Opens (s.r.channelTimestamp channel.message.nChannel) channel
  body : packet.body = some (s.buf + 30) ∨ channel.message.body = []
  mem : mem.slice (s.buf + 30) channel.sent = channel.message.body.take channel.sent

theorem ChunkRead.waits (h : ChunkRead sender s bytes packet mem channel)
    (hmore : ¬ channel.Complete) :
    ∃ s', receiveData { s with r := { s.r with input := bytes } } = some s' ∧
      RtmpAgrees (sender.after channel) s' := by
  obtain ⟨kept, hkeep, hwaits⟩ := keepPacket_waits (r := { s.r with input := [], mem }) h.opens
    h.body h.sent hmore
  have hready : ¬ RtmpPacket.isReady { packet with body := none } :=
    fun hready => hmore ((isReady_iff h.opens).mp hready)
  refine ⟨{ s with
    r := { s.r with
      input := []
      mem
      vecChannelsIn := update s.r.vecChannelsIn channel.message.nChannel (some kept) }
    pac := { packet with body := none } }, ?_, ?_⟩
  · unfold receiveData
    dsimp only
    rw [h.read, hkeep]
    simp only [Option.bind_eq_bind, Option.bind_some]
    rw [if_neg hready]
    rfl
  · have hsize : (sender.after channel).chunkSize = sender.chunkSize :=
      if_neg fun hboth => hmore hboth.1
    have hcompleted : (sender.after channel).completed = sender.completed := if_neg hmore
    refine {
      chunkSize := h.agrees.chunkSize.trans hsize.symm
      positive := hsize ▸ h.agrees.positive
      input := rfl
      pac := rfl
      delivered := h.agrees.delivered.trans hcompleted.symm
      taken := hcompleted ▸ h.agrees.taken
      named := ?_
      rests := ?_
      waits := ?_ }
    · intro nChannel other hother
      rcases RtmpSender.after_channels hother with ⟨rfl, rfl⟩ | ⟨-, hbefore⟩
      · exact ⟨rfl, h.valid, h.sent⟩
      · exact h.agrees.named nChannel other hbefore
    · intro nChannel other hother hdone
      rcases RtmpSender.after_channels hother with ⟨rfl, rfl⟩ | ⟨hne, hbefore⟩
      · exact absurd hdone hmore
      · obtain ⟨rested, hrested, hrests⟩ := h.agrees.rests nChannel other hbefore hdone
        exact ⟨rested, (update_of_ne hne _ _).trans hrested, hrests⟩
    · intro nChannel other hother hwaiting
      rcases RtmpSender.after_channels hother with ⟨rfl, rfl⟩ | ⟨hne, hbefore⟩
      · exact ⟨kept, update_self _ _ _, hwaits, h.mem⟩
      · exact absurd (h.others nChannel other hbefore hne) hwaiting

theorem ChunkRead.rests (h : ChunkRead sender s bytes packet mem channel)
    (hdone : channel.Complete) :
    ∃ s', receiveData { s with r := { s.r with input := bytes } } = some s' ∧
      RtmpAgrees (sender.after channel) s' := by
  obtain ⟨kept, hkeep, hrests⟩ := keepPacket_rests (r := { s.r with input := [], mem }) h.opens hdone
  have hready : RtmpPacket.isReady { packet with nTimeStamp := channel.message.nTimeStamp } :=
    (isReady_iff h.opens).mpr hdone
  have hwhole : mem.slice (s.buf + 30) channel.message.body.length = channel.message.body := by
    have hmem := h.mem
    rw [show channel.sent = channel.message.body.length from hdone, List.take_length] at hmem
    exact hmem
  have hmessage := message_complete h.opens.describes h.body hwhole
  obtain ⟨size, hsize⟩ : ∃ size, size = if packet.nBodySize < rtmpMaxBodySize then
    packet.nBodySize + 36 else rtmpMaxBodySize := ⟨_, rfl⟩
  obtain ⟨r, hr⟩ : ∃ r : Rtmp, r = { s.r with
      input := []
      mem
      channelTimestamp := update s.r.channelTimestamp channel.message.nChannel
        channel.message.nTimeStamp
      vecChannelsIn := update s.r.vecChannelsIn channel.message.nChannel (some kept) } := ⟨_, rfl⟩
  have hclient := clientPacket_size (r := r) { packet with nTimeStamp := channel.message.nTimeStamp }
    h.valid ⟨h.opens.describes.nChannel, h.opens.describes.packetType, h.opens.describes.nInfoField2,
      h.opens.describes.nBodySize⟩ h.body (by rw [hr]; exact hwhole)
  refine ⟨{ s with
    r := { r with
      inChunkSize := if channel.message.packetType = rtmpPacketTypeChunkSize then
        beNat channel.message.body else r.inChunkSize
      mem := mem.write s.buf (List.replicate size 0) }
    pac := {}
    delivered := s.delivered ++ [channel.message] }, ?_, ?_⟩
  · unfold receiveData
    dsimp only
    rw [h.read, hkeep]
    simp only [Option.bind_eq_bind, Option.bind_some]
    rw [if_pos hready, hmessage]
    dsimp only at hclient
    rw [hr] at hclient ⊢
    rw [hclient, ← hsize]
    rfl
  · have hcompleted : (sender.after channel).completed = sender.completed ++ [channel.message] :=
      if_pos hdone
    have hchunkSize : (sender.after channel).chunkSize =
        if channel.message.packetType = rtmpPacketTypeChunkSize then beNat channel.message.body
        else sender.chunkSize := if_congr (and_iff_right hdone) rfl rfl
    rw [hr]
    refine {
      chunkSize := ?_
      positive := ?_
      input := rfl
      pac := rfl
      delivered := ?_
      taken := ?_
      named := ?_
      rests := ?_
      waits := ?_ }
    · rw [hchunkSize, ← h.agrees.chunkSize]
    · rw [hchunkSize]
      split
      · rename_i hchunks
        exact (h.valid.chunkSize hchunks).2
      · exact h.agrees.positive
    · rw [hcompleted, ← h.agrees.delivered]
    · rw [hcompleted]
      intro message hmessage
      rcases List.mem_append.mp hmessage with hbefore | hlast
      · exact h.agrees.taken message hbefore
      · obtain rfl := List.mem_singleton.mp hlast
        exact h.taken
    · intro nChannel other hother
      rcases RtmpSender.after_channels hother with ⟨rfl, rfl⟩ | ⟨-, hbefore⟩
      · exact ⟨rfl, h.valid, h.sent⟩
      · exact h.agrees.named nChannel other hbefore
    · intro nChannel other hother hcomplete
      rcases RtmpSender.after_channels hother with ⟨rfl, rfl⟩ | ⟨hne, hbefore⟩
      · refine ⟨kept, update_self _ _ _, ?_⟩
        show kept.Rests (update s.r.channelTimestamp _ _ _) _
        rw [update_self]
        exact hrests
      · obtain ⟨rested, hrested, hrests⟩ := h.agrees.rests nChannel other hbefore hcomplete
        refine ⟨rested, (update_of_ne hne _ _).trans hrested, ?_⟩
        show rested.Rests (update s.r.channelTimestamp _ _ _) _
        rw [update_of_ne hne]
        exact hrests
    · intro nChannel other hother hwaiting
      rcases RtmpSender.after_channels hother with ⟨rfl, rfl⟩ | ⟨hne, hbefore⟩
      · exact absurd hdone hwaiting
      · exact absurd (h.others nChannel other hbefore hne) hwaiting

end Chunk

/-- The next chunk of a message, from where its bytes begin. -/
theorem RtmpAgrees.advance (h : RtmpAgrees sender s) {opened : RtmpPacket} {fmt : Nat}
    {bytes : List UInt8} (hvalid : channel.message.Valid)
    (hothers : ∀ nChannel other, sender.channels nChannel = some other →
      nChannel ≠ channel.message.nChannel → other.Complete)
    (htaken : ¬ refuses channel.message) (hsent : channel.sent ≤ channel.message.body.length)
    (hheader : readHeader { s.r with input := bytes } s.pac =
      some ((opened, fmt, decide (0xffffff ≤ channel.field)),
        { s.r with input := sender.next channel }))
    (hopens : opened.Opens (s.r.channelTimestamp channel.message.nChannel) channel)
    (hbody : opened.body = none ∨ opened.body = some (s.buf + 30))
    (hmem : s.r.mem.slice (s.buf + 30) channel.sent = channel.message.body.take channel.sent) :
    ∃ s', receiveData { s with r := { s.r with input := bytes } } = some s' ∧
      RtmpAgrees (sender.advance channel) s' := by
  obtain ⟨started, mem, hread, hstarted, hbody, hslice⟩ := yangReadPacket_body
    (r := { s.r with input := bytes }) hheader hopens hbody htaken hsent
    (h.chunkSize ▸ h.positive.2)
    (show sender.next channel = _ ++ [] by rw [List.append_nil, h.chunkSize]; rfl) hmem
  have hafter : sender.advance channel = sender.after (channel.after s.r.inChunkSize) := by
    rw [h.chunkSize]
    rfl
  have hchunk : ChunkRead sender s bytes
      { started with nBytesRead := channel.sentAfter s.r.inChunkSize } mem
      (channel.after s.r.inChunkSize) :=
    { agrees := h
      valid := hvalid
      others := hothers
      taken := htaken
      sent := channel.after_sent _
      read := hread
      opens := hstarted.after s.r.inChunkSize
      body := hbody
      mem := hslice }
  rw [hafter]
  by_cases hdone : (channel.after s.r.inChunkSize).Complete
  · exact hchunk.rests hdone
  · exact hchunk.waits hdone

theorem RtmpAgrees.sends (h : RtmpAgrees sender s) (hsends : sender.Sends chunk sender')
    (halone : sender.Alone chunk) :
    ∃ s', receiveData { s with r := { s.r with input := s.r.input ++ chunk.bytes } } = some s' ∧
      RtmpAgrees sender' s' := by
  obtain ⟨hothers, htaken⟩ := halone
  rw [h.input, List.nil_append]
  cases hsends with
  | @begins message field fmt basic hvalid hbefore htype hbasic =>
    obtain ⟨opened, hheader, hopens, hbody⟩ := readHeader_begins
      (r := { s.r with input := basic ++ (messageHeader fmt field message ++
        (timeExtension field ++ sender.next ⟨message, field, 0⟩)) })
      hvalid h.pac htype hbasic rfl fun channel hchannel =>
        ⟨(h.named _ _ hchannel).1, h.rests _ _ hchannel (hbefore channel hchannel)⟩
    exact h.advance hvalid hothers htaken (Nat.zero_le _) hheader hopens (.inl hbody) rfl
  | @continues nChannel channel basic hchannel hmore hbasic =>
    obtain ⟨hname, hvalid, hsent⟩ := h.named nChannel channel hchannel
    obtain ⟨kept, hkept, hwaits, hmem⟩ := h.waits nChannel channel hchannel hmore
    subst hname
    obtain ⟨opened, hheader, hopens, hbody⟩ := readHeader_continues
      (r := { s.r with input := basic ++ (timeExtension channel.field ++ sender.next channel) })
      hkept hwaits hbasic rfl
    exact h.advance hvalid hothers htaken hsent hheader hopens (.inr hbody) hmem

end Step

section Runs

variable {chunks : List RtmpChunk} {sender sender' : RtmpSender} {s : YangStreamRtmp}

theorem RtmpAgrees.receives (h : RtmpAgrees sender s)
    (hrun : Leads RtmpSender.Sends chunks sender sender')
    (halone : Throughout RtmpSender.Sends RtmpSender.Alone chunks sender) :
    ∃ s', receiveChunks s chunks = some s' ∧ RtmpAgrees sender' s' := by
  induction hrun generalizing s with
  | nil => exact ⟨s, rfl, h⟩
  | cons hsends _ ih =>
    obtain ⟨s₁, hreceive, hagrees⟩ := h.sends hsends halone.1
    obtain ⟨s', hrest, hagrees'⟩ := ih hagrees (halone.2 _ hsends)
    refine ⟨s', ?_, hagrees'⟩
    rw [receiveChunks, hreceive]
    exact hrest

/-- Where the messages are not mixed and none is refused, each is delivered as it was sent. -/
theorem reassembles_alone (mem : Mem) (buf : Nat) (hrun : Leads RtmpSender.Sends chunks {} sender)
    (halone : Throughout RtmpSender.Sends RtmpSender.Alone chunks {}) :
    ∃ s, receiveChunks { r := { mem }, buf } chunks = some s ∧ Reassembles sender s := by
  have hinit : RtmpAgrees {} { r := { mem }, buf } :=
    { chunkSize := rfl
      positive := by decide
      input := rfl
      pac := rfl
      delivered := rfl
      taken := fun _ hmessage => (nomatch hmessage)
      named := fun _ _ hchannel => (nomatch hchannel)
      rests := fun _ _ hchannel => (nomatch hchannel)
      waits := fun _ _ hchannel => (nomatch hchannel) }
  obtain ⟨s, hreceive, hagrees⟩ := hinit.receives hrun halone
  exact ⟨s, hreceive, hagrees.reassembles⟩

/-- The chunks of a message of two, with a header of the largest type. -/
def firstChunk (message : RtmpMessage) : RtmpChunk :=
  ⟨message, beBytes 1 (0 * 64 + message.nChannel) ++ (messageHeader 0 message.nTimeStamp message ++
    (timeExtension message.nTimeStamp ++ (message.body.drop 0).take 128))⟩

def secondChunk (message : RtmpMessage) : RtmpChunk :=
  ⟨message, beBytes 1 (3 * 64 + message.nChannel) ++ (timeExtension message.nTimeStamp ++
    (message.body.drop 128).take 128)⟩

def pictures : RtmpMessage := ⟨4, 1000, rtmpPacketTypeVideo, 1, List.replicate 200 7⟩
def sounds : RtmpMessage := ⟨5, 1010, rtmpPacketTypeAudio, 1, List.replicate 200 8⟩

theorem pictures_length : pictures.body.length = 200 := List.length_replicate
theorem sounds_length : sounds.body.length = 200 := List.length_replicate

theorem pictures_valid : pictures.Valid where
  nChannel := by decide
  nTimeStamp := by decide
  packetType := by decide
  nInfoField2 := by decide
  body := by
    rw [pictures_length]
    decide
  chunkSize h := nomatch h

theorem sounds_valid : sounds.Valid where
  nChannel := by decide
  nTimeStamp := by decide
  packetType := by decide
  nInfoField2 := by decide
  body := by
    rw [sounds_length]
    decide
  chunkSize h := nomatch h

theorem pictures_begin : RtmpSender.Sends {} (firstChunk pictures)
    (RtmpSender.advance {} ⟨pictures, 1000, 0⟩) :=
  .begins pictures_valid (fun _ hbefore => (nomatch hbefore)) (.large rfl)
    (.one (by decide) (by decide))

/-- The first chunk of a message leaves one state. -/
theorem pictures_begun {sender : RtmpSender} (h : RtmpSender.Sends {} (firstChunk pictures) sender) :
    sender = RtmpSender.advance {} ⟨pictures, 1000, 0⟩ := by
  generalize hchunk : firstChunk pictures = chunk at h
  cases h with
  | begins _ _ htype _ =>
    obtain ⟨rfl, -⟩ := RtmpChunk.mk.inj hchunk
    cases htype with
    | large htime => rw [htime]; rfl
  | continues hchannel => cases hchannel

theorem pictures_sent : (RtmpSender.advance {} ⟨pictures, 1000, 0⟩).channels 4 =
    some ⟨pictures, 1000, 128⟩ := by
  show some (RtmpChannel.mk pictures 1000 (min (0 + 128) pictures.body.length)) = _
  rw [pictures_length]
  rfl

theorem pictures_end {sender : RtmpSender}
    (h : sender.channels 4 = some ⟨pictures, 1000, 128⟩) (hsize : sender.chunkSize = 128) :
    sender.Sends (secondChunk pictures) (sender.advance ⟨pictures, 1000, 128⟩) := by
  have hmore : ¬ RtmpChannel.Complete ⟨pictures, 1000, 128⟩ := by
    rw [RtmpChannel.Complete, pictures_length]
    decide
  have hbasic : BasicHeader 3 4 (beBytes 1 (3 * 64 + 4)) := .one (by omega) (by omega)
  have hsends := RtmpSender.Sends.continues h hmore hbasic
  rw [RtmpSender.next, hsize] at hsends
  exact hsends

/-- A part of a message leaves the chunk size. -/
theorem advance_part {sender : RtmpSender} {message : RtmpMessage} (field : Nat)
    (hsize : sender.chunkSize = 128) (hlength : message.body.length = 200) :
    (sender.advance ⟨message, field, 0⟩).chunkSize = 128 ∧
      (sender.advance ⟨message, field, 0⟩).completed = sender.completed := by
  have hmore : ¬ RtmpChannel.Complete
      ⟨message, field, min (0 + sender.chunkSize) message.body.length⟩ := by
    rw [RtmpChannel.Complete, hsize, hlength]
    show ¬ min (0 + 128) 200 = 200
    decide
  exact ⟨(if_neg fun h => hmore h.1).trans hsize, if_neg hmore⟩

/-- A message of two chunks. -/
theorem reassembles_two : ∃ sender s, Leads RtmpSender.Sends
    [firstChunk pictures, secondChunk pictures] {} sender ∧
    receiveChunks { r := { mem := fun _ => 0 } } [firstChunk pictures, secondChunk pictures] = some s ∧
      Reassembles sender s := by
  have hrun := Leads.cons pictures_begin (.cons (pictures_end pictures_sent
    (advance_part 1000 rfl pictures_length).1) (.nil _))
  have hfits : ¬ refuses pictures := by
    rw [refuses, pictures_length]
    decide
  have halone : Throughout RtmpSender.Sends RtmpSender.Alone
      [firstChunk pictures, secondChunk pictures] {} := by
    refine ⟨⟨fun _ _ hchannel => (nomatch hchannel), hfits⟩, fun t ht => ?_⟩
    rw [pictures_begun ht]
    refine ⟨⟨fun nChannel channel hchannel hne => ?_, hfits⟩, fun _ _ => trivial⟩
    rcases RtmpSender.after_channels hchannel with ⟨hsame, -⟩ | ⟨-, hbefore⟩
    · exact absurd hsame hne
    · cases hbefore
  obtain ⟨s, hreceive, hsame⟩ := reassembles_alone (fun _ => 0) 0 hrun halone
  exact ⟨_, s, hrun, hreceive, hsame⟩

/-- The sound that comes between two chunks of a picture is written over the first of them. -/
theorem mixed_overwritten : ¬ ∀ (chunks : List RtmpChunk) (sender : RtmpSender),
    Leads RtmpSender.Sends chunks {} sender →
      ∃ s, receiveChunks { r := { mem := fun _ => 0 } } chunks = some s ∧ Reassembles sender s := by
  intro h
  obtain ⟨sender₁, hfirst⟩ : ∃ sender, sender = RtmpSender.advance {} ⟨pictures, 1000, 0⟩ := ⟨_, rfl⟩
  obtain ⟨sender₂, hsecond⟩ : ∃ sender, sender = sender₁.advance ⟨sounds, 1010, 0⟩ := ⟨_, rfl⟩
  obtain ⟨hsize₁, hcompleted₁⟩ := advance_part 1000
    (show RtmpSender.chunkSize {} = 128 from rfl) pictures_length
  rw [← hfirst] at hsize₁ hcompleted₁
  obtain ⟨hsize₂, hcompleted₂⟩ := advance_part 1010 hsize₁ sounds_length
  rw [← hsecond] at hsize₂ hcompleted₂
  have hnone : sender₁.channels 5 = none := by
    rw [hfirst]
    rfl
  have hsent : sender₂.channels 4 = some ⟨pictures, 1000, 128⟩ := by
    rw [hsecond]
    show sender₁.channels 4 = _
    rw [hfirst]
    exact pictures_sent
  have hsounds : sender₁.Sends (firstChunk sounds) sender₂ := by
    have hsends : sender₁.Sends _ _ := .begins sounds_valid
      (fun _ hbefore => (nomatch hnone ▸ hbefore)) (.large rfl) (.one (by decide) (by decide))
    rw [RtmpSender.next, hsize₁] at hsends
    rw [hsecond]
    exact hsends
  obtain ⟨s, hreceive, hdelivered, -⟩ := h [firstChunk pictures, firstChunk sounds,
    secondChunk pictures] _ (.cons pictures_begin (.cons (hfirst ▸ hsounds)
      (.cons (pictures_end hsent hsize₂) (.nil _))))
  have hheads : (receiveChunks { r := { mem := fun _ => 0 } } [firstChunk pictures,
      firstChunk sounds, secondChunk pictures]).map (·.delivered.map (·.body.head?)) =
      some [some 8] := by
    decide +kernel
  rw [hreceive, Option.map_some, hdelivered] at hheads
  have hcompleted : (sender₂.advance ⟨pictures, 1000, 128⟩).completed = [pictures] := by
    have hdone : RtmpChannel.Complete
        ⟨pictures, 1000, min (128 + sender₂.chunkSize) pictures.body.length⟩ := by
      rw [RtmpChannel.Complete, hsize₂, pictures_length]
      decide
    refine (if_pos hdone).trans ?_
    rw [hcompleted₂, hcompleted₁]
    rfl
  rw [hcompleted] at hheads
  exact absurd hheads (by decide +kernel)

end Runs

end MetaRtc
