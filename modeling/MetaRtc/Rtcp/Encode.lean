import MetaRtc.Lib.Exec
import MetaRtc.Rtcp.Nack
import MetaRtc.Rtcp.Pass

/-! # Encoding reports and picture loss indications

The header is put in network order where it stands, in the packet that is encoded. -/
namespace MetaRtc

open Bytes Exec

def getRtcpSRNbBytes (comm : RtcpCommon) : Nat := (comm.header.length + 1) * 4

def encodeRtcpSR (comm : RtcpCommon) (buf : OutBuffer) : Call (Err × RtcpCommon × OutBuffer) :=
  if !buf.require (getRtcpSRNbBytes comm) then .ret (errorRtcRtcp, comm, buf)
  else
    let (err, comm, buf) := encodeHeaderRtcpCommon comm buf
    if err ≠ yangOk then .ret (err, comm, buf)
    else do
      let sr ← Call.deref comm.sr
      let buf := (buf.writeBytes (beBytes 8 sr.ntp)).write4bytes sr.rtpTs
      return (yangOk, comm, (buf.write4bytes sr.sendRtpPackets).write4bytes sr.sendRtpBytes)

def rtcpRRNbBytes (comm : RtcpCommon) : Nat := (comm.header.length + 1) * 4

def encodeRtcpRR (comm : RtcpCommon) (buf : OutBuffer) : Call (Err × RtcpCommon × OutBuffer) :=
  if comm.rb.isNone then .ret (1, comm, buf)
  else if !buf.require (rtcpRRNbBytes comm) then .ret (errorRtcRtcp, comm, buf)
  else
    let comm := { comm with header.rc := 1 }
    let (err, comm, buf) := encodeHeaderRtcpCommon comm buf
    if err ≠ yangOk then .ret (err, comm, buf)
    else do
      let rb ← Call.deref comm.rb
      let buf := (buf.write4bytes rb.ssrc).write1bytes (UInt8.ofNat rb.fractionLost)
      let buf := (buf.writeBytes (beBytes 3 rb.lostPackets)).write4bytes rb.highestSn
      return (yangOk, comm, ((buf.write4bytes rb.jitter).write4bytes rb.lsr).write4bytes rb.dlsr)

def getRtcpCommonNbBytes (comm : RtcpCommon) : Int := 4 + 4 + comm.payloadLen

/-- Unlike the reports it sets the length each time, and asks for 8 bytes where it writes 12. -/
def encodeRtcpPli (comm : RtcpCommon) (buf : OutBuffer) : Call (Err × RtcpCommon × OutBuffer) :=
  if !buf.require (getRtcpCommonNbBytes comm) then .ret (errorRtcRtcp, comm, buf)
  else
    let comm := { comm with header.length := 2 }
    let (err, comm, buf) := encodeHeaderRtcpCommon comm buf
    if err ≠ yangOk then .ret (err, comm, buf)
    else .ret (yangOk, comm, buf.write4bytes comm.mediaSsrc)

/-- The values a packet is given once it has been created. -/
inductive ReportPacket where
  | sr (ssrc : Nat) (report : RtcpSR)
  | rr (ssrc : Nat) (block : RtcpRB)
  | pli (ssrc mediaSsrc : Nat)

namespace ReportPacket

/-- Each value is one of its field's, and the number of packets lost one of 24 bits. -/
def InRange : ReportPacket → Prop
  | sr ssrc report => ssrc < 2 ^ 32 ∧ report.ntp < 2 ^ 64 ∧ report.rtpTs < 2 ^ 32 ∧
      report.sendRtpPackets < 2 ^ 32 ∧ report.sendRtpBytes < 2 ^ 32
  | rr ssrc block => ssrc < 2 ^ 32 ∧ block.ssrc < 2 ^ 32 ∧ block.fractionLost < 2 ^ 8 ∧
      block.lostPackets < 2 ^ 24 ∧ block.highestSn < 2 ^ 32 ∧ block.jitter < 2 ^ 32 ∧
      block.lsr < 2 ^ 32 ∧ block.dlsr < 2 ^ 32
  | pli ssrc mediaSsrc => ssrc < 2 ^ 32 ∧ mediaSsrc < 2 ^ 32

/-- The packet before any value is set. -/
def created : ReportPacket → RtcpCommon
  | sr _ _ => (createRtcpSR {} fun _ => 0).1
  | rr _ _ => (createRtcpRR {} fun _ => 0).1
  | pli _ _ => createRtcpPli {}

def comm (p : ReportPacket) : RtcpCommon :=
  match p with
  | sr ssrc report => { p.created with ssrc, sr := some report }
  | rr ssrc block => { p.created with ssrc, rb := some block }
  | pli ssrc mediaSsrc => { p.created with ssrc, mediaSsrc }

def encode : ReportPacket → RtcpCommon → OutBuffer → Call (Err × RtcpCommon × OutBuffer)
  | sr _ _ => encodeRtcpSR
  | rr _ _ => encodeRtcpRR
  | pli _ _ => encodeRtcpPli

def decode : ReportPacket → RtcpCommon → YangBuffer → Decoded
  | sr _ _ => decodeRtcpSR
  | rr _ _ => decodeRtcpRR
  | pli _ _ => decodeRtcpPli

/-- The header as it is sent. -/
def header : ReportPacket → RtcpHeader
  | sr _ _ => ⟨0, 0, kRtcpVersion, RtcpType.sr, 6⟩
  | rr _ _ => ⟨1, 0, kRtcpVersion, RtcpType.rr, 7⟩
  | pli _ _ => ⟨kPLI, 0, kRtcpVersion, RtcpType.psfb, 2⟩

/-- What the header and the values make of the packet read. -/
def Read (p : ReportPacket) (comm : RtcpCommon) : Prop :=
  comm.header = p.header ∧
    match p with
    | sr ssrc report => comm.ssrc = ssrc ∧ comm.sr = some report
    | rr ssrc block => comm.ssrc = ssrc ∧ comm.rb = some block
    | pli ssrc mediaSsrc => comm.ssrc = ssrc ∧ comm.mediaSsrc = mediaSsrc

/-- What is encoded to that many bytes of room is decoded to the same values. -/
def RoundTrips (p : ReportPacket) (room : Nat) : Prop :=
  ∃ comm buf, p.encode p.comm { size := room } = .ret (yangOk, comm, buf) ∧ buf.fault = false ∧
    let d := p.decode p.created (initBuffer (ofList buf.bytes) buf.bytes.length)
    d.err = yangOk ∧ d.buf.fault = false ∧ p.Read d.comm

def LeavesInput (p : ReportPacket) (room : Nat) : Prop :=
  ∃ buf, p.encode p.comm { size := room } = .ret (yangOk, p.comm, buf)

/-- The packet is encoded once more to the same bytes. -/
def EncodesAlike (p : ReportPacket) (room : Nat) : Prop :=
  ∃ comm buf comm' buf', p.encode p.comm { size := room } = .ret (yangOk, comm, buf) ∧
    p.encode comm { size := room } = .ret (yangOk, comm', buf') ∧ buf'.bytes = buf.bytes

def IsPli : ReportPacket → Prop
  | pli _ _ => True
  | _ => False

/-- What is sent behind the header. -/
def values : ReportPacket → List (Nat × Nat)
  | sr ssrc report => [(4, ssrc), (8, report.ntp), (4, report.rtpTs), (4, report.sendRtpPackets),
      (4, report.sendRtpBytes)]
  | rr ssrc block => [(4, ssrc), (4, block.ssrc), (1, block.fractionLost), (3, block.lostPackets),
      (4, block.highestSn), (4, block.jitter), (4, block.lsr), (4, block.dlsr)]
  | pli ssrc mediaSsrc => [(4, ssrc), (4, mediaSsrc)]

def fields (p : ReportPacket) : List (Nat × Nat) :=
  [(1, p.header.rc + p.header.padding * 32 + p.header.version * 64), (1, p.header.type),
    (2, p.header.length)] ++ p.values

/-- The packet behind its encoding. -/
def sent (p : ReportPacket) : RtcpCommon :=
  { p.comm with header := { p.header with length := htons p.header.length } }

end ReportPacket

section Encoding

variable {p : ReportPacket} {room : Nat}

theorem require_fresh {n : Int} (hn : 0 ≤ n) (h : n ≤ room) :
    ({ size := room } : OutBuffer).require n = true :=
  OutBuffer.require_room hn (by simpa using h)

theorem encodeHeaderRtcpCommon_room (comm : RtcpCommon) (h : 8 ≤ room) :
    encodeHeaderRtcpCommon comm { size := room } =
      (yangOk, { comm with header.length := htons comm.header.length },
        ({ size := room } : OutBuffer).writeBytes (fieldBytes
          [(1, comm.header.rc + comm.header.padding * 32 + comm.header.version * 64),
            (1, comm.header.type), (2, comm.header.length), (4, comm.ssrc)])) := by
  have hroom : ({ size := room } : OutBuffer).require 8 = true :=
    require_fresh (by decide) (by omega)
  rw [encodeHeaderRtcpCommon, encodeHeaderRtcpHeader_room hroom]
  simp only [OutBuffer.write1bytes_ofNat, OutBuffer.write2bytes, OutBuffer.write4bytes,
    OutBuffer.writeBytes_writeBytes, fieldBytes, List.flatMap_cons, List.flatMap_nil,
    List.append_assoc, List.append_nil]

/-- Whatever length the packet has before. -/
theorem pli_sent {ssrc mediaSsrc : Nat} (length : Nat) (h : 12 ≤ room) :
    let p := ReportPacket.pli ssrc mediaSsrc
    encodeRtcpPli { p.comm with header.length := length } { size := room } =
      .ret (yangOk, p.sent, ({ size := room } : OutBuffer).writeBytes (fieldBytes p.fields)) := by
  intro p
  have hroom : ({ size := room } : OutBuffer).require
      (getRtcpCommonNbBytes { p.comm with header.length := length }) = true :=
    @require_fresh room 8 (by decide) (by omega)
  have hhead := encodeHeaderRtcpCommon_room { p.comm with header.length := 2 }
    (show 8 ≤ room by omega)
  simp only [encodeRtcpPli, hroom, hhead, Bool.not_true, Bool.false_eq_true, if_false, ne_eq,
    not_true_eq_false, OutBuffer.write4bytes, OutBuffer.writeBytes_writeBytes]
  rfl

/-- What an encoder does in a buffer with room for the packet. -/
theorem encode_sent (h : 4 * (p.header.length + 1) ≤ room) :
    p.encode p.comm { size := room } =
      .ret (yangOk, p.sent, ({ size := room } : OutBuffer).writeBytes (fieldBytes p.fields)) := by
  cases p with
  | sr ssrc report =>
    have h28 : 28 ≤ room := h
    have hroom : ({ size := room } : OutBuffer).require
        (getRtcpSRNbBytes (ReportPacket.sr ssrc report).comm) = true :=
      @require_fresh room 28 (by decide) (by omega)
    have hhead := encodeHeaderRtcpCommon_room (ReportPacket.sr ssrc report).comm
      (show 8 ≤ room by omega)
    simp only [ReportPacket.encode, encodeRtcpSR, hroom, hhead, Bool.not_true, Bool.false_eq_true,
      if_false, ne_eq, not_true_eq_false]
    simp only [ReportPacket.comm, Call.deref_some, Call.ret_bind, OutBuffer.write4bytes,
      OutBuffer.writeBytes_writeBytes]
    rfl
  | rr ssrc block =>
    have h32 : 32 ≤ room := h
    have hroom : ({ size := room } : OutBuffer).require
        (rtcpRRNbBytes (ReportPacket.rr ssrc block).comm) = true :=
      @require_fresh room 32 (by decide) (by omega)
    have hhead := encodeHeaderRtcpCommon_room
      { (ReportPacket.rr ssrc block).comm with header.rc := 1 } (show 8 ≤ room by omega)
    have hblock : (ReportPacket.rr ssrc block).comm.rb.isNone = false := rfl
    simp only [ReportPacket.encode, encodeRtcpRR, hblock, hroom, hhead, Bool.not_true,
      Bool.false_eq_true, if_false, ne_eq, not_true_eq_false]
    simp only [ReportPacket.comm, Call.deref_some, Call.ret_bind, OutBuffer.write4bytes,
      OutBuffer.write1bytes_ofNat, OutBuffer.writeBytes_writeBytes]
    rfl
  | pli ssrc mediaSsrc => exact pli_sent 0 h

theorem fields_length : (fieldBytes p.fields).length = 4 * (p.header.length + 1) := by
  cases p <;> simp [fieldBytes, ReportPacket.fields, ReportPacket.values, ReportPacket.header]

end Encoding

section Decoding

variable {buf : YangBuffer} {comm : RtcpCommon}

theorem hdr_of_fields {header : RtcpHeader} {rest : List (Nat × Nat)} (hrc : header.rc < 32)
    (hpad : header.padding < 2) (hversion : header.version < 4) (htype : header.type < 256)
    (hlength : header.length < 65536)
    (h : buf.data.Fields buf.head ([(1, header.rc + header.padding * 32 + header.version * 64),
      (1, header.type), (2, header.length)] ++ rest)) : buf.hdr = header := by
  obtain ⟨h0, h1, h2, -⟩ := h
  rw [Mem.be_one] at h0 h1
  obtain ⟨rc, padding, version, type, length⟩ := header
  simp only [YangBuffer.hdr, h0, h1, h2, RtcpHeader.mk.injEq]
  refine ⟨?_, ?_, ?_, ?_, ?_⟩ <;> dsimp only at * <;> omega

theorem sr_values (h : buf.HeaderOk) (hsr : comm.sr = some {}) :
    (decodeRtcpSR comm buf).comm.ssrc = buf.data.be (buf.head + 4) 4 ∧
      (decodeRtcpSR comm buf).comm.sr = some
        { ntp := buf.data.be (buf.head + 8) 8
          rtpTs := buf.data.be (buf.head + 16) 4
          sendRtpPackets := buf.data.be (buf.head + 20) 4
          sendRtpBytes := buf.data.be (buf.head + 24) 4 } := by
  simp [decodeRtcpSR, decodeStart, header_accepts h, YangBuffer.read8bytes,
    YangBuffer.read4bytes, YangBuffer.readNum, hsr]

theorem rr_values (h : buf.HeaderOk) (hrb : comm.rb.isSome) (hrc : buf.hdr.rc ≠ 0) :
    (decodeRtcpRR comm buf).comm.ssrc = buf.data.be (buf.head + 4) 4 ∧
      (decodeRtcpRR comm buf).comm.rb = some
        { ssrc := buf.data.be (buf.head + 8) 4
          fractionLost := buf.data.be (buf.head + 12) 1
          lostPackets := buf.data.be (buf.head + 13) 3
          highestSn := buf.data.be (buf.head + 16) 4
          jitter := buf.data.be (buf.head + 20) 4
          lsr := buf.data.be (buf.head + 24) 4
          dlsr := buf.data.be (buf.head + 28) 4 } := by
  have hnone : comm.rb.isNone = false := Option.isNone_eq_false_iff.mpr hrb
  simp [decodeRtcpRR, decodeStart, header_accepts h, YangBuffer.read1bytes,
    YangBuffer.read3bytes, YangBuffer.read4bytes, YangBuffer.readNum, hnone, hrc]

theorem pli_values (h : buf.HeaderOk) :
    (decodeRtcpPli comm buf).comm.ssrc = buf.data.be (buf.head + 4) 4 ∧
      (decodeRtcpPli comm buf).comm.mediaSsrc = buf.data.be (buf.head + 8) 4 := by
  simp [decodeRtcpPli, decodeStart, header_accepts h, YangBuffer.read4bytes, YangBuffer.readNum]

end Decoding

section RoundTrip

variable {p : ReportPacket} {room : Nat}

theorem fields_read (p : ReportPacket) : (ofList (fieldBytes p.fields)).Fields 0 p.fields := by
  refine @Mem.fields_of_slice _ 0 (fieldBytes p.fields).length p.fields [] ?_
  rw [slice_ofList, List.append_nil]

theorem header_read (p : ReportPacket) :
    (initBuffer (ofList (fieldBytes p.fields)) (fieldBytes p.fields).length).hdr = p.header := by
  have hfits : p.header.rc < 32 ∧ p.header.padding < 2 ∧ p.header.version < 4 ∧
      p.header.type < 256 ∧ p.header.length < 65536 := by
    cases p <;> simp [ReportPacket.header, kRtcpVersion, kPLI, RtcpType.sr, RtcpType.rr,
      RtcpType.psfb]
  obtain ⟨hrc, hpad, hversion, htype, hlength⟩ := hfits
  refine hdr_of_fields hrc hpad hversion htype hlength (fields_read p)

theorem headerOk_sent (p : ReportPacket) :
    (initBuffer (ofList (fieldBytes p.fields)) (fieldBytes p.fields).length).HeaderOk := by
  have hlength := @fields_length p
  rw [YangBuffer.HeaderOk, header_read]
  simp only [YangBuffer.left, initBuffer, hlength]
  cases p <;> simp [ReportPacket.header]

theorem take_fault_within {b : Mem} {n nn : Nat} (h : n ≤ nn) :
    ((initBuffer b nn).take n).fault = false := by
  have hin : ¬ nn < 0 + n := by omega
  simp only [YangBuffer.take, YangBuffer.touch, initBuffer, hin, decide_false, Bool.and_false,
    Bool.or_false]

/-- Every value comes back. -/
theorem decode_sent (h : p.InRange) :
    let d := p.decode p.created
      (initBuffer (ofList (fieldBytes p.fields)) (fieldBytes p.fields).length)
    d.err = yangOk ∧ d.buf.fault = false ∧ p.Read d.comm := by
  have hread := fields_read p
  have hok := headerOk_sent p
  have hhdr := header_read p
  have hlength := @fields_length p
  cases p with
  | sr ssrc report =>
    obtain ⟨hssrc, hntp, hts, hpackets, hbytes⟩ := h
    obtain ⟨-, -, -, r0, r1, r2, r3, r4, -⟩ := hread
    have hdone := sr_accepts hok (ReportPacket.sr ssrc report).created
    obtain ⟨hid, hsr⟩ := @sr_values _ (ReportPacket.sr ssrc report).created hok rfl
    refine ⟨hdone.err, hdone.fault.trans ?_, hdone.header.trans hhdr, hid.trans ?_, hsr.trans ?_⟩
    · rw [hhdr, Bool.or_false]
      exact take_fault_within (Nat.le_of_eq hlength.symm)
    · exact r0.trans (Nat.mod_eq_of_lt hssrc)
    · exact congrArg some (congr (congr (congr (congrArg _ (r1.trans (Nat.mod_eq_of_lt hntp)))
        (r2.trans (Nat.mod_eq_of_lt hts))) (r3.trans (Nat.mod_eq_of_lt hpackets)))
        (r4.trans (Nat.mod_eq_of_lt hbytes)))
  | rr ssrc block =>
    obtain ⟨hssrc, hof, hlost, hcount, hhigh, hjitter, hlsr, hdlsr⟩ := h
    obtain ⟨-, -, -, r0, r1, r2, r3, r4, r5, r6, r7, -⟩ := hread
    have hrc : (initBuffer (ofList (fieldBytes (ReportPacket.rr ssrc block).fields))
        (fieldBytes (ReportPacket.rr ssrc block).fields).length).hdr.rc = 1 := by
      rw [hhdr]
      rfl
    have hdone := rr_accepts hok (ReportPacket.rr ssrc block).created rfl (by omega)
    obtain ⟨hid, hrb⟩ := @rr_values _ (ReportPacket.rr ssrc block).created hok rfl
      (by omega)
    refine ⟨hdone.err, hdone.fault.trans ?_, hdone.header.trans hhdr, hid.trans ?_, hrb.trans ?_⟩
    · rw [hrc, Bool.or_false]
      exact take_fault_within (Nat.le_of_eq hlength.symm)
    · exact r0.trans (Nat.mod_eq_of_lt hssrc)
    · refine congrArg some (RtcpRB.mk.injEq .. ▸ ⟨?_, ?_, ?_, ?_, ?_, ?_, ?_⟩)
      · exact r1.trans (Nat.mod_eq_of_lt hof)
      · exact r2.trans (Nat.mod_eq_of_lt hlost)
      · exact r3.trans (Nat.mod_eq_of_lt hcount)
      · exact r4.trans (Nat.mod_eq_of_lt hhigh)
      · exact r5.trans (Nat.mod_eq_of_lt hjitter)
      · exact r6.trans (Nat.mod_eq_of_lt hlsr)
      · exact r7.trans (Nat.mod_eq_of_lt hdlsr)
  | pli ssrc mediaSsrc =>
    obtain ⟨hssrc, hmedia⟩ := h
    obtain ⟨-, -, -, r0, r1, -⟩ := hread
    have hdone := pli_accepts hok (ReportPacket.pli ssrc mediaSsrc).created
    obtain ⟨hid, hmediaSsrc⟩ := @pli_values _
      (ReportPacket.pli ssrc mediaSsrc).created hok
    refine ⟨hdone.err, hdone.fault.trans ?_, hdone.header.trans hhdr, hid.trans ?_,
      hmediaSsrc.trans ?_⟩
    · rw [Bool.or_false]
      exact take_fault_within (Nat.le_of_eq hlength.symm)
    · exact r0.trans (Nat.mod_eq_of_lt hssrc)
    · exact r1.trans (Nat.mod_eq_of_lt hmedia)

theorem be_length {buf : OutBuffer} {rest : List UInt8} {a b length : Nat}
    (h : buf.bytes = fieldBytes [(1, a), (1, b), (2, length)] ++ rest) :
    (ofList buf.bytes).be 2 2 = length % 65536 := by
  have hread := Mem.fields_of_slice ((slice_ofList buf.bytes).trans h)
  exact hread.2.2.1

/-- The length that is sent is the one the packet has, whatever it is. -/
theorem sr_length {comm comm' : RtcpCommon} {report : RtcpSR} {buf : OutBuffer}
    (hsr : comm.sr = some report) (hroom : 8 ≤ room)
    (h : encodeRtcpSR comm { size := room } = .ret (yangOk, comm', buf)) :
    (ofList buf.bytes).be 2 2 = comm.header.length % 65536 := by
  unfold encodeRtcpSR at h
  split at h
  · cases h
  · rw [encodeHeaderRtcpCommon_room comm hroom] at h
    simp only [ne_eq, not_true_eq_false, if_false, hsr, Call.deref_some, Call.ret_bind] at h
    cases h
    exact be_length rfl

theorem sr_refused {comm : RtcpCommon} (h : room < getRtcpSRNbBytes comm) :
    encodeRtcpSR comm { size := room } = .ret (errorRtcRtcp, comm, { size := room }) := by
  have hnot : ¬ (getRtcpSRNbBytes comm : Int) ≤ (room : Int) - (0 : Nat) := by omega
  have hroom : ({ size := room } : OutBuffer).require (getRtcpSRNbBytes comm) = false := by
    simp only [OutBuffer.require, OutBuffer.pos, List.length_nil, hnot, decide_false,
      Bool.and_false]
  rw [encodeRtcpSR, hroom]
  rfl

theorem rr_length {comm comm' : RtcpCommon} {block : RtcpRB} {buf : OutBuffer}
    (hrb : comm.rb = some block) (hroom : 8 ≤ room)
    (h : encodeRtcpRR comm { size := room } = .ret (yangOk, comm', buf)) :
    (ofList buf.bytes).be 2 2 = comm.header.length % 65536 := by
  have hnone : comm.rb.isNone = false := by rw [hrb]; rfl
  unfold encodeRtcpRR at h
  rw [if_neg (by rw [hnone]; decide)] at h
  split at h
  · cases h
  · dsimp only at h
    rw [encodeHeaderRtcpCommon_room _ hroom] at h
    simp only [ne_eq, not_true_eq_false, if_false, hrb, Call.deref_some, Call.ret_bind] at h
    cases h
    exact be_length rfl

theorem roundTrips (h : p.InRange) (hroom : 4 * (p.header.length + 1) ≤ room) :
    p.RoundTrips room := by
  have hsent := encode_sent hroom
  have hwritten : ({ size := room } : OutBuffer).writeBytes (fieldBytes p.fields) =
      ⟨room, fieldBytes p.fields, false⟩ :=
    OutBuffer.writeBytes_room (by rw [fields_length]; simpa using hroom)
  rw [hwritten] at hsent
  exact ⟨p.sent, _, hsent, rfl, decode_sent h⟩

/-- The length stays in network order. -/
theorem not_leavesInput (hroom : 4 * (p.header.length + 1) ≤ room) : ¬ p.LeavesInput room := by
  rintro ⟨buf, hsame⟩
  rw [encode_sent hroom] at hsame
  have hcomm : p.sent = p.comm := congrArg (·.2.1) (Call.ret.inj hsame)
  have hlength := congrArg (·.header.length) hcomm
  cases p with
  | sr => exact absurd (show htons 6 = 6 from hlength) (by decide)
  | rr => exact absurd (show htons 7 = 7 from hlength) (by decide)
  | pli => exact absurd (show htons 2 = 0 from hlength) (by decide)

theorem encodesAlike_iff (hroom : 4 * (p.header.length + 1) ≤ room) :
    p.EncodesAlike room ↔ p.IsPli := by
  have hsent := encode_sent hroom
  constructor
  · rintro ⟨comm, buf, comm', buf', hfirst, hsecond, hbytes⟩
    have hcomm : comm = p.sent := by
      rw [hsent] at hfirst
      exact (congrArg (·.2.1) (Call.ret.inj hfirst)).symm
    rw [hcomm] at hsecond
    cases p with
    | sr ssrc report =>
      have h8 : 8 ≤ room := Nat.le_trans (by decide) (show 28 ≤ room from hroom)
      have htwo := sr_length rfl h8 hsecond
      rw [hbytes, sr_length rfl h8 hfirst] at htwo
      exact absurd (show 6 % 65536 = htons 6 % 65536 from htwo) (by decide)
    | rr ssrc block =>
      have h8 : 8 ≤ room := Nat.le_trans (by decide) (show 32 ≤ room from hroom)
      have htwo := rr_length rfl h8 hsecond
      rw [hbytes, rr_length rfl h8 hfirst] at htwo
      exact absurd (show 7 % 65536 = htons 7 % 65536 from htwo) (by decide)
    | pli ssrc mediaSsrc => trivial
  · intro hpli
    cases p with
    | sr | rr => cases hpli
    | pli ssrc mediaSsrc =>
      exact ⟨_, _, _, _, hsent, pli_sent (htons 2) hroom, rfl⟩

/-- Every packet comes back from its bytes, none is left as it was, and only the one whose
encoder sets the length is encoded to the same bytes once more. -/
theorem encode_spoils_packet (h : p.InRange) (hroom : 4 * (p.header.length + 1) ≤ room) :
    p.RoundTrips room ∧ ¬ p.LeavesInput room ∧ (p.EncodesAlike room ↔ p.IsPli) :=
  ⟨roundTrips h hroom, not_leavesInput hroom, encodesAlike_iff hroom⟩

theorem encode_spoils_pli : (ReportPacket.pli 1 2).RoundTrips 12 ∧
    ¬ (ReportPacket.pli 1 2).LeavesInput 12 ∧
    ((ReportPacket.pli 1 2).EncodesAlike 12 ↔ (ReportPacket.pli 1 2).IsPli) :=
  encode_spoils_packet ⟨by decide, by decide⟩ (by decide)

/-- A report that is encoded twice in a buffer of the size of a packet is refused the second
time: its length is by then taken for one of 6148 bytes. -/
theorem report_refused :
    let p := ReportPacket.sr 7 ⟨1, 2, 3, 4⟩
    ¬ p.LeavesInput kRtcpPacketSize ∧ ¬ p.EncodesAlike kRtcpPacketSize ∧
      p.encode p.sent { size := kRtcpPacketSize } =
        .ret (errorRtcRtcp, p.sent, { size := kRtcpPacketSize }) :=
  ⟨not_leavesInput (show 28 ≤ 1500 by decide),
    fun h => (encodesAlike_iff (show 28 ≤ 1500 by decide)).mp h,
    sr_refused (show 1500 < (1536 + 1) * 4 by decide)⟩

end RoundTrip

end MetaRtc
