import MetaRtc.Publish.Package
import MetaRtc.Rtp.RtpPacket

/-! # The packets of a push

A push that succeeds has sent packets with consecutive numbers, all with the timestamp of
the frame. -/
namespace MetaRtc

open Bytes Exec

/-- A packet as its header and the bytes behind it. -/
structure RtpUnit where
  header : RtpHeader
  payload : List UInt8

def RtpUnit.bytes (u : RtpUnit) : List UInt8 := rtpHeaderBytes u.header ++ u.payload

/-- The marker and the payload of a packet that has no number yet. -/
abbrev Part := Bool × List UInt8

/-- The packets of the same timestamp from a number on. -/
def numbered (payloadType ssrc : Nat) (pts : Int) : Nat → List Part → List RtpUnit
  | _, [] => []
  | seq, part :: rest =>
    { header :=
        { payloadType, ssrc
          marker := part.1
          sequence := seq
          timestamp := (pts % 2 ^ 32).toNat }
      payload := part.2 } :: numbered payloadType ssrc pts ((seq + 1) % 65536) rest

/-- The plaintexts of the video packets sent from one publisher to the other. -/
def newVideo (pub pub' : Publisher) : List (List UInt8) :=
  let new := pub'.sent.take (pub'.sent.length - pub.sent.length)
  ((new.filter fun x => x.1 = .video).map fun x => x.2.2).reverse

/-- From one publisher to the other these video packets were sent. -/
structure Emits (pub pub' : Publisher) (units : List RtpUnit) : Prop where
  sent : pub'.sent =
    (units.map fun u => (Media.video, u.header.sequence, u.bytes)).reverse ++ pub.sent
  ssrc : (pub'.media .video).ssrc = (pub.media .video).ssrc
  seq : (pub.media .video).seq < 65536 →
    (pub'.media .video).seq = ((pub.media .video).seq + units.length) % 65536

def h264Fua2Bytes (pkt : Fua2Data) : List UInt8 :=
  (kFuA ||| (pkt.nri &&& ~~~kNalTypeMask)) :: fuHeader pkt :: pkt.payload

def h265Fua2Bytes (pkt : Fua2Data) : List UInt8 :=
  h265KFuA <<< 1 :: 1 :: fuHeader pkt :: pkt.payload

def stapNaluBytes (p : YangSample) : List UInt8 :=
  beBytes 2 (p.nb % 65536).toNat ++ if p.nb < 0 then [] else p.bytes

def h264StapBytes (data : RtpSTAPData) : List UInt8 :=
  (kStapA ||| (data.nri &&& ~~~kNalTypeMask)) :: data.nalus.flatMap stapNaluBytes

/-- The fragments of a unit, from number `i` of `total` on, `left` being the bytes not yet
packed. -/
def fragmentData (header naluType : UInt8) (total size : Nat) :
    Nat → Nat → List UInt8 → List Fua2Data
  | 0, _, _ => []
  | n + 1, i, left =>
    { start := decide (i = 0)
      last := decide (i = total - 1)
      nri := header
      naluType
      payload := left.take size } ::
      fragmentData header naluType total size n (i + 1) (left.drop size)

def frameFragments (codec : PushCodec) (frame : YangFrame) : List Fua2Data :=
  let n := numOfPacket frame.nb kRtpMaxPayloadSize
  fragmentData (frame.payload 0) (codec.naluType (frame.payload 0)) n kRtpMaxPayloadSize n 0
    (frame.bytes.drop codec.headerSize)

def fragmentPart (fua2Bytes : Fua2Data → List UInt8) (pkt : Fua2Data) : Part :=
  (pkt.last, fua2Bytes pkt)

/-- What a frame is sent as: itself, or its fragments. -/
def videoParts (codec : PushCodec) (fua2Bytes : Fua2Data → List UInt8) (frame : YangFrame) :
    List Part :=
  if frame.nb ≤ kRtpMaxPayloadSize then [(true, frame.bytes)]
  else (frameFragments codec frame).map (fragmentPart fua2Bytes)

variable {env : Env} {codec : PushCodec} {pub mid pub' : Publisher}

theorem numbered_length (payloadType ssrc : Nat) (pts : Int) (seq : Nat) (parts : List Part) :
    (numbered payloadType ssrc pts seq parts).length = parts.length := by
  induction parts generalizing seq with
  | nil => rfl
  | cons part rest ih => simp [numbered, ih]

theorem numbered_append (payloadType ssrc : Nat) (pts : Int) {seq : Nat} (h : seq < 65536)
    (parts rest : List Part) :
    numbered payloadType ssrc pts seq (parts ++ rest) = numbered payloadType ssrc pts seq parts ++
      numbered payloadType ssrc pts ((seq + parts.length) % 65536) rest := by
  induction parts generalizing seq with
  | nil => simp [numbered, Nat.mod_eq_of_lt h]
  | cons part parts ih =>
    have hseq : ((seq + 1) % 65536 + parts.length) % 65536 = (seq + (parts.length + 1)) % 65536 := by
      omega
    simp only [List.cons_append, numbered, List.length_cons, ← hseq]
    rw [ih (by omega)]

theorem emits_refl (pub : Publisher) : Emits pub pub [] :=
  ⟨rfl, rfl, fun h => by simp [Nat.mod_eq_of_lt h]⟩

theorem emits_trans {us vs : List RtpUnit} (h : Emits pub mid us) (k : Emits mid pub' vs) :
    Emits pub pub' (us ++ vs) where
  sent := by simp [k.sent, h.sent]
  ssrc := k.ssrc.trans h.ssrc
  seq hlt := by
    have hmid := h.seq hlt
    rw [k.seq (by omega), hmid, List.length_append]
    omega

/-- What is counted besides does not matter. -/
theorem emits_of_eq {us : List RtpUnit} (h : Emits pub mid us) (hs : pub'.sent = mid.sent)
    (hm : pub'.media = mid.media) : Emits pub pub' us where
  sent := hs.trans h.sent
  ssrc := by rw [hm, h.ssrc]
  seq := by rw [hm]; exact h.seq

theorem newVideo_of_emits {us : List RtpUnit} (h : Emits pub pub' us) :
    newVideo pub pub' = us.map RtpUnit.bytes := by
  have htake : pub'.sent.take (pub'.sent.length - pub.sent.length) =
      (us.map fun u => (Media.video, u.header.sequence, u.bytes)).reverse := by
    simp [h.sent]
  simp only [newVideo, htake]
  rw [List.filter_eq_self.mpr (by simp)]
  simp [Function.comp_def]

section Sending

variable {m : Media} {header : RtpHeader} {payload : RtpPayload} {bytes : List UInt8}

theorem writeAt_counters (data : Option Nat) (bs : List UInt8) (k : Media) :
    ((pub.writeAt m data bs).media k).seq = (pub.media k).seq ∧
      ((pub.writeAt m data bs).media k).ssrc = (pub.media k).ssrc := by
  cases data with
  | none => exact ⟨rfl, rfl⟩
  | some p =>
    by_cases hk : k = m
    · subst hk
      simp [Publisher.writeAt, Publisher.setBuffer, Publisher.setMedia]
    · simp [Publisher.writeAt, Publisher.setBuffer, Publisher.setMedia, hk]

theorem encRtp_counters {data : Option Nat} {nb : Nat} {err : Err} {packet : List UInt8}
    (h : encRtp env pub m data nb = .ret (err, packet, pub')) (k : Media) :
    (pub'.media k).seq = (pub.media k).seq ∧ (pub'.media k).ssrc = (pub.media k).ssrc ∧
      pub'.sent = pub.sent := by
  have hsent : ∀ bs, (pub.writeAt m data bs).sent = pub.sent := fun bs => by cases data <;> rfl
  unfold encRtp at h
  split at h
  · cases h
    exact ⟨rfl, rfl, rfl⟩
  · split at h
    · cases h
    · simp only at h
      split at h <;> cases h
      · exact ⟨(writeAt_counters _ _ k).1, (writeAt_counters _ _ k).2, hsent _⟩
      · exact ⟨(writeAt_counters _ _ k).1, (writeAt_counters _ _ k).2, hsent _⟩

/-- A packet that was sent is noted as it stood in the ring before its encryption. -/
theorem sendAvpacket_sent {seq p pos : Nat}
    (h : sendAvpacket env pub m seq p pos = .ret (yangOk, pub')) :
    pub'.sent = (m, seq, pub.packetAt m (some p) pos) :: pub.sent ∧
      ∀ k, (pub'.media k).seq = (pub.media k).seq ∧ (pub'.media k).ssrc = (pub.media k).ssrc := by
  have hcache : ∀ k, ((rtcpushCacheNack pub m seq p pos).media k).seq = (pub.media k).seq ∧
      ((rtcpushCacheNack pub m seq p pos).media k).ssrc = (pub.media k).ssrc ∧
      ((rtcpushCacheNack pub m seq p pos).media k).rtpBuffer = (pub.media k).rtpBuffer := by
    intro k
    by_cases hk : k = m
    · subst hk
      simp [rtcpushCacheNack, Publisher.setMedia]
    · simp [rtcpushCacheNack, Publisher.setMedia, hk]
  have hplain : (rtcpushCacheNack pub m seq p pos).packetAt m (some p) pos =
      pub.packetAt m (some p) pos := by
    simp only [Publisher.packetAt, (hcache m).2.2]
  obtain ⟨⟨err, packet, mid⟩, henc, hrest⟩ := Call.bind_eq_ret.mp h
  simp only at hrest
  split at hrest
  · rename_i herr
    cases hrest
    exact absurd rfl herr
  · simp only [Call.pure_eq, Call.ret.injEq, sendData, Prod.mk.injEq] at hrest
    obtain ⟨-, rfl⟩ := hrest
    constructor
    · simp only [hplain, (encRtp_counters henc m).2.2]
      rfl
    · intro k
      obtain ⟨hseq, hssrc, -⟩ := encRtp_counters henc k
      exact ⟨hseq.trans (hcache k).1, hssrc.trans (hcache k).2.1⟩

theorem encodePacket_bytes (hp : header.Plain) {buf : OutBuffer}
    (hpay : ∀ b b', encodeRtpPayload codec b payload = (yangOk, b') → b'.bytes = b.bytes ++ bytes)
    (h : encodePacket codec header payload = (yangOk, buf)) :
    buf.bytes = rtpHeaderBytes header ++ bytes := by
  obtain ⟨b, hhead, -, hb⟩ := encodeRtpHeader_plain hp { size := kRtpPacketSize }
  simp only [encodePacket, hhead, ne_eq, not_true_eq_false, ite_false, hp.paddingLength,
    gt_iff_lt, Nat.lt_irrefl] at h
  split at h
  · rename_i herr
    simp only [Prod.mk.injEq] at h
    exact absurd h.1 herr
  · rename_i herr
    simp only [Prod.mk.injEq, true_and] at h
    rw [← h, hpay b _ (Prod.ext (not_not.mp herr) rfl), hb]
    rfl

theorem encodeMedia_sent (hp : header.Plain)
    (hpay : ∀ b b', encodeRtpPayload codec b payload = (yangOk, b') → b'.bytes = b.bytes ++ bytes)
    (h : encodeMedia env codec pub m header payload = .ret (yangOk, pub')) :
    pub'.sent = (m, header.sequence, rtpHeaderBytes header ++ bytes) :: pub.sent ∧
      ∀ k, (pub'.media k).seq = (pub.media k).seq ∧ (pub'.media k).ssrc = (pub.media k).ssrc := by
  cases henc : encodePacket codec header payload with
  | mk err buf =>
    simp only [encodeMedia, henc] at h
    split at h
    · rename_i herr
      simp only [Call.ret.injEq, Prod.mk.injEq] at h
      exact absurd h.1 herr
    · rename_i herr
      obtain rfl : err = yangOk := not_not.mp herr
      obtain ⟨hsent, hcount⟩ := sendAvpacket_sent h
      have hplain : buf.bytes = rtpHeaderBytes header ++ bytes := encodePacket_bytes hp hpay henc
      constructor
      · rw [hsent, ← hplain]
        simp [Publisher.packetAt, Publisher.setMedia, OutBuffer.pos, Mem.slice_write]
      · intro k
        rw [(hcount k).1, (hcount k).2]
        by_cases hk : k = m
        · subst hk
          simp [Publisher.setMedia]
        · simp [Publisher.setMedia, hk]

end Sending

section Packaging

variable {fua2Bytes : Fua2Data → List UInt8} {pts : Int}

/-- The numbers a publisher puts in a header fit their fields. -/
structure Fits (pub : Publisher) (codec : PushCodec) : Prop where
  seq : (pub.media .video).seq < 65536
  ssrc : (pub.media .video).ssrc < 2 ^ 32
  payloadType : codec.payloadType < 128

theorem fits_of_emits {us : List RtpUnit} (hf : Fits pub codec) (h : Emits pub pub' us) :
    Fits pub' codec where
  seq := by
    rw [h.seq hf.seq]
    omega
  ssrc := h.ssrc ▸ hf.ssrc
  payloadType := hf.payloadType

def unitsOf (pub : Publisher) (codec : PushCodec) (pts : Int) (parts : List Part) : List RtpUnit :=
  numbered codec.payloadType (pub.media .video).ssrc pts (pub.media .video).seq parts

theorem units_append (hf : Fits pub codec) {parts rest : List Part}
    (h : Emits pub mid (unitsOf pub codec pts parts))
    (k : Emits mid pub' (unitsOf mid codec pts rest)) :
    Emits pub pub' (unitsOf pub codec pts (parts ++ rest)) := by
  have hseq := h.seq hf.seq
  rw [unitsOf, numbered_length] at hseq
  rw [unitsOf, h.ssrc, hseq] at k
  rw [unitsOf, numbered_append _ _ _ hf.seq]
  exact emits_trans h k

/-- One packet, from its header on. -/
theorem nextPacket_emits (hf : Fits pub codec) (payload : RtpPayload) {bytes : List UInt8}
    {marker : Bool}
    (hpay : ∀ b b', encodeRtpPayload codec b payload = (yangOk, b') → b'.bytes = b.bytes ++ bytes)
    (h : encodeMedia env codec (nextHeader pub .video codec.payloadType marker pts).2 .video
      (nextHeader pub .video codec.payloadType marker pts).1 payload = .ret (yangOk, pub')) :
    Emits pub pub' (unitsOf pub codec pts [(marker, bytes)]) := by
  have hts : (pts % 2 ^ 32).toNat < 2 ^ 32 := by omega
  have hplain : (nextHeader pub .video codec.payloadType marker pts).1.Plain :=
    ⟨rfl, rfl, rfl, rfl, rfl, hf.payloadType, hf.seq, hts, hf.ssrc⟩
  obtain ⟨hsent, hcount⟩ := encodeMedia_sent hplain hpay h
  obtain ⟨hseq, hssrc⟩ := hcount .video
  constructor
  · rw [hsent]
    rfl
  · rw [hssrc]
    simp [nextHeader, Publisher.setMedia]
  · intro _
    rw [hseq]
    simp [nextHeader, Publisher.setMedia, unitsOf, numbered]

theorem encodeRaw_bytes {bytes : List UInt8} {b b' : OutBuffer}
    (h : encodeRtpPayload codec b (.raw bytes) = (yangOk, b')) : b'.bytes = b.bytes ++ bytes := by
  simp only [encodeRtpPayload, encodeH264Raw] at h
  split at h
  · rename_i hlen
    cases h
    simp [List.eq_nil_of_length_eq_zero hlen]
  · split at h
    · cases h
    · cases h
      rfl

theorem encodeH264Fua2_bytes {pkt : Fua2Data} {b b' : OutBuffer}
    (h : encodeH264Fua2 b pkt = (yangOk, b')) : b'.bytes = b.bytes ++ h264Fua2Bytes pkt := by
  unfold encodeH264Fua2 at h
  split at h <;> cases h
  rfl

theorem encodeH265Fua2_bytes {pkt : Fua2Data} {b b' : OutBuffer}
    (h : encodeH265Fua2 b pkt = (yangOk, b')) : b'.bytes = b.bytes ++ h265Fua2Bytes pkt := by
  unfold encodeH265Fua2 at h
  split at h <;> cases h
  rfl

theorem encodeStapNalus_bytes {nalus : List YangSample} {b b' : OutBuffer}
    (h : encodeStapNalus nalus b = (yangOk, b')) :
    b'.bytes = b.bytes ++ nalus.flatMap stapNaluBytes := by
  induction nalus generalizing b with
  | nil =>
    cases h
    simp
  | cons p rest ih =>
    simp only [encodeStapNalus] at h
    split at h
    · cases h
    · rw [ih h, List.flatMap_cons, stapNaluBytes]
      split <;> simp [OutBuffer.write2bytes]

theorem encodeH264Stap_bytes {data : RtpSTAPData} {b b' : OutBuffer}
    (h : encodeH264Stap b data = (yangOk, b')) : b'.bytes = b.bytes ++ h264StapBytes data := by
  simp only [encodeH264Stap] at h
  split at h
  · cases h
  · rw [encodeStapNalus_bytes h]
    simp [OutBuffer.write1bytes, h264StapBytes]

theorem packageFuALoop_emits
    (hfu : ∀ b pkt b', codec.encodeFua2 b pkt = (yangOk, b') → b'.bytes = b.bytes ++ fua2Bytes pkt)
    {header : UInt8} {total size n i : Nat} {left : List UInt8} (hf : Fits pub codec)
    (h : packageFuALoop env codec pts header total size n i left pub = .ret (yangOk, pub')) :
    Emits pub pub' (unitsOf pub codec pts
      ((fragmentData header (codec.naluType header) total size n i left).map
        (fragmentPart fua2Bytes))) := by
  induction n generalizing i left pub with
  | zero =>
    cases h
    exact emits_refl _
  | succ n ih =>
    simp only [packageFuALoop] at h
    split at h
    · cases h
    · obtain ⟨⟨e, mid⟩, henc, hrest⟩ := Call.bind_eq_ret.mp h
      simp only at hrest
      split at hrest
      · rename_i herr
        cases hrest
        exact absurd rfl herr
      · rename_i herr
        obtain rfl : e = yangOk := not_not.mp herr
        have hone := nextPacket_emits hf (.fua2 _) (fun b b' hb => hfu b _ b' hb) henc
        exact units_append hf hone (ih (fits_of_emits hf hone) hrest)

/-- A frame that was pushed was sent as its parts. -/
theorem pushVideo_emits
    (hfu : ∀ b pkt b', codec.encodeFua2 b pkt = (yangOk, b') → b'.bytes = b.bytes ++ fua2Bytes pkt)
    {frame : YangFrame} (hf : Fits pub codec)
    (h : pushVideo env codec pub frame = .ret (yangOk, pub')) :
    Emits pub pub' (unitsOf pub codec frame.pts (videoParts codec fua2Bytes frame)) := by
  unfold pushVideo at h
  unfold videoParts
  split at h
  · rename_i hnb
    obtain ⟨⟨e, mid⟩, hsingle, hrest⟩ := Call.bind_eq_ret.mp h
    simp only at hrest
    split at hrest
    · rename_i herr
      cases hrest
      exact absurd rfl herr
    · rename_i herr
      obtain rfl : e = yangOk := not_not.mp herr
      cases hrest
      simp only [packageSingleNalu2] at hsingle
      split at hsingle
      · cases hsingle
      · rw [if_pos hnb]
        exact emits_of_eq (nextPacket_emits hf (.raw _) (fun _ _ hb => encodeRaw_bytes hb) hsingle) rfl rfl
  · rename_i hnb
    obtain ⟨⟨e, mid⟩, hloop, hrest⟩ := Call.bind_eq_ret.mp h
    simp only at hrest
    split at hrest
    · rename_i herr
      cases hrest
      exact absurd rfl herr
    · rename_i herr
      obtain rfl : e = yangOk := not_not.mp herr
      cases hrest
      rw [if_neg hnb]
      exact emits_of_eq (packageFuALoop_emits hfu hf hloop) rfl rfl

theorem packageStapA_emits {frame : YangFrame} {nalus : List YangSample} {nri : UInt8}
    {bytes : List UInt8} (hf : Fits pub codec)
    (hstap : ∀ b b', codec.encodeStap b { nri, nalus } = (yangOk, b') →
      b'.bytes = b.bytes ++ bytes)
    (h : packageStapA env codec nalus nri pub frame = .ret (yangOk, pub')) :
    Emits pub pub' (unitsOf pub codec frame.pts [(false, bytes)]) :=
  nextPacket_emits hf (.stap _) hstap h

end Packaging

end MetaRtc
