import MetaRtc.Rtp.Payload

/-! # Received RTP packets

A packet is decoded to its header and to where its payload lies, and what the encoder wrote
is decoded to the header it was given. -/
namespace MetaRtc

open Bytes

/-- `payload` points into the memory the packet was decoded from. -/
structure RtpPacket where
  header : RtpHeader := {}
  naluType : UInt8 := 0
  payload : Option Nat := none
  nb : Nat := 0

/-- Where the padding does not fit, `err` is still that of the header: success, and no
payload. -/
def decodeRtpPacket (pkt : RtpPacket) (buf : YangBuffer) : Err × RtpPacket × YangBuffer :=
  let (err, header, buf) := decodeRtpHeader buf pkt.header
  let pkt := { pkt with header }
  if err ≠ yangOk then (err, pkt, buf)
  else
    let padding := header.paddingLength
    if !buf.require padding then (err, pkt, buf)
    else
      let buf := { buf with size := buf.size - padding }
      (err, { pkt with payload := some buf.head, nb := buf.left.toNat }, buf)

/-- A header with neither padding, contributing sources nor extensions, whose numbers fit
their fields. -/
structure RtpHeader.Plain (header : RtpHeader) : Prop where
  paddingLength : header.paddingLength = 0
  ignorePadding : header.ignorePadding = false
  cc : header.cc = 0
  csrc : header.csrc = []
  extensions : header.extensions = none
  payloadType : header.payloadType < 128
  sequence : header.sequence < 65536
  timestamp : header.timestamp < 2 ^ 32
  ssrc : header.ssrc < 2 ^ 32

def markerByte (header : RtpHeader) : UInt8 :=
  let v := UInt8.ofNat header.payloadType
  if header.marker then v ||| 0x80 else v

def rtpHeaderBytes (header : RtpHeader) : List UInt8 :=
  0x80 :: markerByte header :: (beBytes 2 header.sequence ++ beBytes 4 header.timestamp ++
    beBytes 4 header.ssrc)

@[simp] theorem rtpHeaderBytes_length (header : RtpHeader) :
    (rtpHeaderBytes header).length = 12 := by
  simp [rtpHeaderBytes]

variable {header : RtpHeader}

theorem encodeRtpHeader_plain (hp : header.Plain) (buf : OutBuffer) :
    ∃ buf', encodeRtpHeader buf header = (yangOk, buf') ∧ buf'.size = buf.size ∧
      buf'.bytes = buf.bytes ++ rtpHeaderBytes header := by
  have hv : (0x80 : UInt8) ||| UInt8.ofNat 0 = 0x80 := by decide
  simp only [encodeRtpHeader, hp.extensions, hp.cc, hp.paddingLength, hv, Option.filter_none,
    Option.isSome_none, Bool.false_eq_true, ite_false, Nat.lt_irrefl, gt_iff_lt,
    List.range_zero, List.foldl_nil]
  refine ⟨_, rfl, rfl, ?_⟩
  simp [OutBuffer.write1bytes, OutBuffer.write2bytes, OutBuffer.write4bytes, rtpHeaderBytes,
    markerByte]

theorem markerByte_toNat (hp : header.Plain) :
    (markerByte header).toNat = header.payloadType + if header.marker then 128 else 0 := by
  have hlt := hp.payloadType
  have hor : ∀ n, n < 128 → (UInt8.ofNat n ||| 0x80).toNat = n + 128 := by decide
  unfold markerByte
  cases header.marker with
  | true => simpa using hor _ hlt
  | false =>
    simp only [Bool.false_eq_true, ite_false, UInt8.toNat_ofNat']
    omega

/-- What lies where in a packet with a plain header. -/
theorem slices_of_packet {m : Mem} {payload : List UInt8}
    (h : m.slice 0 (12 + payload.length) = rtpHeaderBytes header ++ payload) :
    m.slice 0 1 = [0x80] ∧ m.slice 1 1 = [markerByte header] ∧
      m.slice 2 2 = beBytes 2 header.sequence ∧ m.slice 4 4 = beBytes 4 header.timestamp ∧
      m.slice 8 4 = beBytes 4 header.ssrc ∧ m.slice 12 payload.length = payload := by
  have hsplit : m.slice 0 (12 + payload.length) = m.slice 0 1 ++ (m.slice 1 1 ++ (m.slice 2 2 ++
      (m.slice 4 4 ++ (m.slice 8 4 ++ m.slice 12 payload.length)))) := by
    rw [← Mem.slice_append, ← Mem.slice_append, ← Mem.slice_append, ← Mem.slice_append,
      ← Mem.slice_append]
    congr 1
    omega
  have hbytes : rtpHeaderBytes header ++ payload = [0x80] ++ ([markerByte header] ++
      (beBytes 2 header.sequence ++ (beBytes 4 header.timestamp ++
        (beBytes 4 header.ssrc ++ payload)))) := by
    simp [rtpHeaderBytes]
  rw [hsplit, hbytes] at h
  obtain ⟨h0, h⟩ := List.append_inj h (by simp)
  obtain ⟨h1, h⟩ := List.append_inj h (by simp)
  obtain ⟨h2, h⟩ := List.append_inj h (by simp)
  obtain ⟨h3, h⟩ := List.append_inj h (by simp)
  obtain ⟨h4, h5⟩ := List.append_inj h (by simp)
  exact ⟨h0, h1, h2, h3, h4, h5⟩

theorem decodeRtpHeader_plain (hp : header.Plain) {m : Mem} {payload : List UInt8}
    (h : m.slice 0 (12 + payload.length) = rtpHeaderBytes header ++ payload) :
    decodeRtpHeader (initBuffer m (12 + payload.length)) {} =
      (yangOk, header, (initBuffer m (12 + payload.length)).take 12) := by
  obtain ⟨h0, h1, h2, h3, h4, -⟩ := slices_of_packet h
  have b0 : m.be 0 1 = 128 := Mem.be_of_slice (v := 128) h0
  have b1 : m.be 1 1 = header.payloadType + if header.marker then 128 else 0 := by
    rw [Mem.be_eq_beNat, h1, ← markerByte_toNat hp]
    simp [beNat]
  have b2 : m.be 2 2 = header.sequence := by
    rw [Mem.be_of_slice h2]
    exact Nat.mod_eq_of_lt hp.sequence
  have b3 : m.be 4 4 = header.timestamp := by
    rw [Mem.be_of_slice h3]
    exact Nat.mod_eq_of_lt hp.timestamp
  have b4 : m.be 8 4 = header.ssrc := by
    rw [Mem.be_of_slice h4]
    exact Nat.mod_eq_of_lt hp.ssrc
  have hmark : ∀ n, n < 128 → (128 ≤ n + (if header.marker then 128 else 0) ↔ header.marker = true) ∧
      (n + if header.marker then 128 else 0) % 128 = n := by
    intro n hn
    cases header.marker <;> simp <;> omega
  obtain ⟨hm, ht⟩ := hmark _ hp.payloadType
  have hdata : (initBuffer m (12 + payload.length)).data = m := rfl
  have hhead : (initBuffer m (12 + payload.length)).head = 0 := rfl
  have hreq : (initBuffer m (12 + payload.length)).require 12 = true :=
    YangBuffer.initBuffer_requires (by decide) (by omega)
  generalize initBuffer m (12 + payload.length) = buf at hdata hhead hreq ⊢
  simp only [decodeRtpHeader, hreq, YangBuffer.read1bytes, YangBuffer.read2bytes,
    YangBuffer.read4bytes, YangBuffer.readNum, YangBuffer.take_data, YangBuffer.take_head,
    YangBuffer.take_take, hdata, hhead, Nat.zero_add, Nat.reduceAdd, b0, b1, b2, b3, b4]
  obtain ⟨hpad, hignore, hcc, hcsrc, hext, -, -, -, -⟩ := hp
  simp [decodeCsrc, ht, hm]
  cases header
  simp_all

theorem decodeRtpPacket_plain (hp : header.Plain) {m : Mem} {payload : List UInt8}
    (h : m.slice 0 (12 + payload.length) = rtpHeaderBytes header ++ payload) :
    decodeRtpPacket {} (initBuffer m (12 + payload.length)) =
      (yangOk, { header, payload := some 12, nb := payload.length },
        (initBuffer m (12 + payload.length)).take 12) := by
  have hdec := decodeRtpHeader_plain hp h
  have hreq : ((initBuffer m (12 + payload.length)).take 12).require 0 = true := by
    simp [YangBuffer.require, YangBuffer.left, initBuffer]
  have hleft : ((12 + payload.length : Nat) - (0 + 12 : Nat) : Int).toNat = payload.length := by
    omega
  simp only [decodeRtpPacket, hdec, hp.paddingLength, hreq, ne_eq, not_true_eq_false, ite_false,
    Nat.cast_zero, Bool.not_true, Bool.false_eq_true]
  simp only [YangBuffer.left, initBuffer, YangBuffer.take_head, YangBuffer.take_size, Nat.sub_zero,
    hleft]
  rfl

section Inside

theorem decodeCsrc_size (n : Nat) (buf : YangBuffer) : (decodeCsrc n buf).2.size = buf.size := by
  induction n generalizing buf with
  | zero => rfl
  | succ n ih => exact ih _

theorem decodeRtpExtensions_size (ext : RtpExtensions) (buf : YangBuffer) :
    (decodeRtpExtensions ext buf).2.2.size = buf.size := by
  simp only [decodeRtpExtensions]
  split
  · rfl
  · split
    · rfl
    · split <;> rfl

theorem decodeRtpHeader_size (buf : YangBuffer) (header : RtpHeader) :
    (decodeRtpHeader buf header).2.2.size = buf.size := by
  unfold decodeRtpHeader
  split
  · rfl
  split
  rename_i b₁ h₁
  extract_lets padding extension cc
  split
  rename_i b₂ h₂
  split
  rename_i b₃ h₃
  split
  rename_i b₄ h₄
  split
  rename_i b₅ h₅
  split
  rename_i csrc b₆ h₆
  have hsize : b₆.size = buf.size := by
    have h₁' : buf.size = b₁.size := congrArg (fun r => r.2.size) h₁
    have h₂' : b₁.size = b₂.size := congrArg (fun r => r.2.size) h₂
    have h₃' : b₂.size = b₃.size := congrArg (fun r => r.2.size) h₃
    have h₄' : b₃.size = b₄.size := congrArg (fun r => r.2.size) h₄
    have h₅' : b₄.size = b₅.size := congrArg (fun r => r.2.size) h₅
    have h₆' : b₆.size = b₅.size := by
      rw [← decodeCsrc_size cc b₅, h₆]
    rw [h₁', h₂', h₃', h₄', h₅', h₆']
  have hext : ∀ ext, (decodeRtpExtensions ext b₆).2.2.size = buf.size := fun ext =>
    (decodeRtpExtensions_size _ _).trans hsize
  split <;> extract_lets
  all_goals
    split
    rename_i err h b₇ hr
    have hsize' : b₇.size = buf.size := by
      first
        | exact (congrArg (fun r => r.2.2.size) hr).symm.trans (hext _)
        | exact (congrArg (fun r => r.2.2.size) hr).symm.trans hsize
    split
    · exact hsize'
    · split
      · extract_lets
        split <;> exact hsize'
      · exact hsize'

theorem decodeRtpHeader_sequence (buf : YangBuffer) {header : RtpHeader}
    (h : header.sequence < 65536) : (decodeRtpHeader buf header).2.1.sequence < 65536 := by
  unfold decodeRtpHeader
  split
  · exact h
  split
  rename_i b₁ h₁
  extract_lets padding extension cc
  split
  rename_i b₂ h₂
  split
  rename_i sequence b₃ h₃
  have hlt : sequence < 65536 := by
    have hread : b₂.data.be b₂.head 2 = sequence := congrArg Prod.fst h₃
    rw [← hread]
    exact b₂.data.be_lt _ 2
  split
  split
  split
  split <;> extract_lets
  all_goals
    split
    rename_i err decoded b₇ hr
    have hsequence : decoded.sequence = sequence := (congrArg (fun r => r.2.1.sequence) hr).symm
    have hlt' := hsequence ▸ hlt
    split
    · exact hlt'
    · split
      · extract_lets
        split <;> exact hlt'
      · exact hlt'

theorem decodeRtpPacket_sequence {pkt : RtpPacket} {buf : YangBuffer}
    (h : pkt.header.sequence < 65536) : (decodeRtpPacket pkt buf).2.1.header.sequence < 65536 := by
  have hseq := decodeRtpHeader_sequence buf h
  unfold decodeRtpPacket
  dsimp only
  split
  · exact hseq
  · split <;> exact hseq

/-- The payload lies inside the packet. -/
theorem decodeRtpPacket_inside {pkt : RtpPacket} {buf : YangBuffer} {p : Nat}
    (hnone : pkt.payload = none) (hp : (decodeRtpPacket pkt buf).2.1.payload = some p) :
    p + (decodeRtpPacket pkt buf).2.1.nb ≤ buf.size := by
  have hsize := decodeRtpHeader_size buf pkt.header
  unfold decodeRtpPacket at hp ⊢
  dsimp only at hp ⊢
  generalize decodeRtpHeader buf pkt.header = decoded at hsize hp ⊢
  obtain ⟨err, header, b⟩ := decoded
  dsimp only at hsize hp ⊢
  split
  · rename_i herr
    rw [if_pos herr, hnone] at hp
    cases hp
  · rename_i herr
    rw [if_neg herr] at hp
    split
    · rename_i hreq
      rw [if_pos hreq, hnone] at hp
      cases hp
    · rename_i hreq
      rw [if_neg hreq] at hp
      simp only [Bool.not_eq_true', Bool.not_eq_false, YangBuffer.require_iff,
        YangBuffer.left] at hreq
      cases hp
      simp only [YangBuffer.left]
      omega

end Inside

end MetaRtc
