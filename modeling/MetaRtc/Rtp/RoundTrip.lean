import MetaRtc.Rtp.RtpPacket

/-! # What is encoded is decoded

The bytes of a header are written down once, as the encoder puts them, and read back piece
by piece. -/
namespace MetaRtc

open Bytes

section Encoding

def twccBytes (twcc : RtpExtensionTwcc) : List UInt8 :=
  (UInt8.ofNat (twcc.id % 16 * 16) ||| 1) :: beBytes 2 twcc.sn

def oneByteBytes (one : RtpExtensionOneByte) : List UInt8 :=
  [UInt8.ofNat (one.id % 16 * 16), UInt8.ofNat one.value]

def twccElement (ext : RtpExtensions) : List UInt8 :=
  if ext.twcc.hasTwcc then twccBytes ext.twcc else []

def audioElement (ext : RtpExtensions) : List UInt8 :=
  if ext.audioLevel.hasExt then oneByteBytes ext.audioLevel else []

def extensionElements (ext : RtpExtensions) : List UInt8 := twccElement ext ++ audioElement ext

/-- The zeros that fill the last word. -/
def extensionPadding (ext : RtpExtensions) : Nat :=
  let used := (extensionElements ext).length
  if used % 4 = 0 then 0 else 4 - used % 4

def extensionWords (ext : RtpExtensions) : Nat :=
  ((extensionElements ext).length + extensionPadding ext) / 4

def extensionBytes (ext : RtpExtensions) : List UInt8 :=
  beBytes 2 0xBEDE ++ (beBytes 2 (extensionWords ext) ++
    (extensionElements ext ++ List.replicate (extensionPadding ext) 0))

def csrcBytes (csrc : List Nat) : List UInt8 := csrc.flatMap (beBytes 4)

/-- The extensions that a header is sent with. -/
def RtpHeader.sent (header : RtpHeader) : Option RtpExtensions := header.extensions.filter (·.hasExt)

def flagsByte (header : RtpHeader) : UInt8 :=
  let v : UInt8 := 0x80 ||| UInt8.ofNat header.cc
  if header.sent.isSome then v ||| 0x10 else v

def headerBytes (header : RtpHeader) : List UInt8 :=
  [flagsByte header] ++ ([markerByte header] ++ (beBytes 2 header.sequence ++
    (beBytes 4 header.timestamp ++ (beBytes 4 header.ssrc ++ (csrcBytes header.csrc ++
      (header.sent.map extensionBytes).getD [])))))

@[simp] theorem twccBytes_length (twcc : RtpExtensionTwcc) : (twccBytes twcc).length = 3 := by
  simp [twccBytes]

@[simp] theorem oneByteBytes_length (one : RtpExtensionOneByte) : (oneByteBytes one).length = 2 := rfl

@[simp] theorem csrcBytes_length (csrc : List Nat) : (csrcBytes csrc).length = 4 * csrc.length := by
  induction csrc with
  | nil => rfl
  | cons c cs ih =>
    simp only [csrcBytes, List.flatMap_cons, List.length_append, beBytes_length] at ih ⊢
    simp only [ih, List.length_cons]
    ring

/-- The elements with their zeros fill whole words. -/
theorem extensionWords_mul (ext : RtpExtensions) :
    extensionWords ext * 4 = (extensionElements ext).length + extensionPadding ext := by
  simp only [extensionWords, extensionPadding]
  split <;> omega

theorem extensionElements_length (ext : RtpExtensions) :
    (extensionElements ext).length = (if ext.twcc.hasTwcc then rtpExtensionTwccNb else 0) +
      if ext.audioLevel.hasExt then rtpExtensionOneByteNb else 0 := by
  rw [extensionElements, List.length_append, twccElement, audioElement]
  cases ext.twcc.hasTwcc <;> cases ext.audioLevel.hasExt <;> simp [rtpExtensionTwccNb,
    rtpExtensionOneByteNb]

theorem extensionBytes_length (ext : RtpExtensions) :
    (extensionBytes ext).length = 4 + extensionWords ext * 4 := by
  simp only [extensionBytes, List.length_append, beBytes_length, List.length_replicate,
    extensionWords_mul]
  omega

theorem encodeRtpExtensionsTwcc_room {size : Nat} {written : List UInt8} {twcc : RtpExtensionTwcc}
    (h : written.length + 3 ≤ size) :
    encodeRtpExtensionsTwcc twcc ⟨size, written, false⟩ =
      (yangOk, ⟨size, written ++ twccBytes twcc, false⟩) := by
  have hreq : (⟨size, written, false⟩ : OutBuffer).require 3 = true :=
    OutBuffer.require_room (by decide) (by omega)
  simp only [encodeRtpExtensionsTwcc, hreq, Bool.not_true, Bool.false_eq_true, if_false,
    OutBuffer.write1bytes, OutBuffer.write2bytes]
  rw [OutBuffer.writeBytes_room (by simp; omega), OutBuffer.writeBytes_room (by simp; omega),
    List.append_assoc]
  rfl

theorem encodeRtpExtensionsOneByte_room {size : Nat} {written : List UInt8} {one : RtpExtensionOneByte}
    (h : written.length + 2 ≤ size) :
    encodeRtpExtensionsOneByte one ⟨size, written, false⟩ =
      (yangOk, ⟨size, written ++ oneByteBytes one, false⟩) := by
  have hreq : (⟨size, written, false⟩ : OutBuffer).require 2 = true :=
    OutBuffer.require_room (by decide) (by omega)
  simp only [encodeRtpExtensionsOneByte, hreq, Bool.not_true, Bool.false_eq_true, if_false,
    OutBuffer.write1bytes]
  rw [OutBuffer.writeBytes_room (by simp; omega), OutBuffer.writeBytes_room (by simp; omega),
    List.append_assoc]
  rfl

theorem encodeTwccElement_room {size : Nat} {written : List UInt8} {ext : RtpExtensions}
    (h : written.length + (twccElement ext).length ≤ size) :
    (if ext.twcc.hasTwcc = true then encodeRtpExtensionsTwcc ext.twcc ⟨size, written, false⟩
      else (yangOk, ⟨size, written, false⟩)) =
        (yangOk, ⟨size, written ++ twccElement ext, false⟩) := by
  unfold twccElement at h ⊢
  split
  · rename_i hhas
    rw [if_pos hhas, twccBytes_length] at h
    exact encodeRtpExtensionsTwcc_room h
  · rw [List.append_nil]

theorem encodeAudioElement_room {size : Nat} {written : List UInt8} {ext : RtpExtensions}
    (h : written.length + (audioElement ext).length ≤ size) :
    (if ext.audioLevel.hasExt = true then
        encodeRtpExtensionsOneByte ext.audioLevel ⟨size, written, false⟩
      else (yangOk, ⟨size, written, false⟩)) =
        (yangOk, ⟨size, written ++ audioElement ext, false⟩) := by
  unfold audioElement at h ⊢
  split
  · rename_i hhas
    rw [if_pos hhas, oneByteBytes_length] at h
    exact encodeRtpExtensionsOneByte_room h
  · rw [List.append_nil]

theorem encodeRtpExtensions_room {size : Nat} {written : List UInt8} {ext : RtpExtensions}
    (h : written.length + (extensionBytes ext).length ≤ size) :
    encodeRtpExtensions ext ⟨size, written, false⟩ =
      (yangOk, ⟨size, written ++ extensionBytes ext, false⟩) := by
  rw [extensionBytes_length, extensionWords_mul, extensionElements, List.length_append] at h
  have hlen := extensionElements_length ext
  have hpad : extensionPadding ext = if (extensionElements ext).length % 4 = 0 then 0
      else 4 - (extensionElements ext).length % 4 := rfl
  have hwords : extensionWords ext = ((extensionElements ext).length + extensionPadding ext) / 4 :=
    rfl
  have hprofile : (⟨size, written, false⟩ : OutBuffer).writeBytes (beBytes 2 0xBEDE) =
      ⟨size, written ++ beBytes 2 0xBEDE, false⟩ :=
    OutBuffer.writeBytes_room (by simp; omega)
  have hreq : (⟨size, written ++ beBytes 2 0xBEDE, false⟩ : OutBuffer).require
      ((extensionElements ext).length + extensionPadding ext : Nat) = true :=
    OutBuffer.require_room (by omega) (by simp [extensionElements]; omega)
  have hcount : (⟨size, written ++ beBytes 2 0xBEDE, false⟩ : OutBuffer).writeBytes
      (beBytes 2 (extensionWords ext)) =
        ⟨size, written ++ beBytes 2 0xBEDE ++ beBytes 2 (extensionWords ext), false⟩ :=
    OutBuffer.writeBytes_room (by simp; omega)
  simp only [encodeRtpExtensions, OutBuffer.write2bytes, ← hlen, ← hpad, ← hwords, hprofile, hreq,
    Bool.not_true, Bool.false_eq_true, if_false, hcount]
  generalize hstart : written ++ beBytes 2 0xBEDE ++ beBytes 2 (extensionWords ext) = start
  have hroom : start.length = written.length + 4 := by
    rw [← hstart]
    simp
  rw [encodeTwccElement_room (by omega)]
  simp only [ne_eq, not_true_eq_false, if_false]
  rw [encodeAudioElement_room (by rw [List.length_append]; omega)]
  simp only [not_true_eq_false, if_false]
  rw [OutBuffer.writeBytes_room (by simp; omega), ← hstart]
  simp only [extensionBytes, extensionElements, List.append_assoc]

theorem foldl_write4bytes {size : Nat} {written : List UInt8} {cs : List Nat}
    (h : written.length + (csrcBytes cs).length ≤ size) :
    cs.foldl (fun (buf : OutBuffer) c => buf.write4bytes c) ⟨size, written, false⟩ =
      ⟨size, written ++ csrcBytes cs, false⟩ := by
  induction cs generalizing written with
  | nil => rw [List.foldl_nil, csrcBytes, List.flatMap_nil, List.append_nil]
  | cons c cs ih =>
    have hlen : (csrcBytes (c :: cs)).length = 4 + (csrcBytes cs).length := by
      simp only [csrcBytes_length, List.length_cons]
      ring
    rw [List.foldl_cons, OutBuffer.write4bytes_room (by omega),
      ih (by simp only [List.length_append, beBytes_length]; omega), List.append_assoc]
    simp only [csrcBytes, List.flatMap_cons]

theorem range_map_getD (cs : List Nat) : (List.range cs.length).map (cs.getD · 0) = cs := by
  apply List.ext_getElem
  · simp
  · intro i h₁ h₂
    simp [h₂]

variable {header : RtpHeader}

/-- What the encoder writes when there is room. -/
theorem encodeRtpHeader_room {size : Nat} (hpad : header.paddingLength = 0)
    (hcc : header.csrc.length = header.cc) (h : (headerBytes header).length ≤ size) :
    encodeRtpHeader { size } header = (yangOk, ⟨size, headerBytes header, false⟩) := by
  have hcsrc : ∀ buf : OutBuffer, (List.range header.cc).foldl
      (fun (buf : OutBuffer) i => buf.write4bytes (header.csrc.getD i 0)) buf =
        header.csrc.foldl (fun (buf : OutBuffer) c => buf.write4bytes c) buf := by
    intro buf
    conv_rhs => rw [← range_map_getD header.csrc, hcc, List.foldl_map]
  have hnopad : ¬ header.paddingLength > 0 := by omega
  have hfilter : header.extensions.filter (·.hasExt) = header.sent := rfl
  simp only [headerBytes, List.length_append, List.length_singleton, beBytes_length,
    csrcBytes_length] at h
  simp only [encodeRtpHeader, hcsrc, hnopad, if_false, hfilter]
  simp only [OutBuffer.write1bytes, OutBuffer.write2bytes]
  rw [OutBuffer.writeBytes_room (by simp; omega), OutBuffer.writeBytes_room (by simp; omega),
    OutBuffer.writeBytes_room (by simp; omega), OutBuffer.write4bytes_room (by simp; omega),
    OutBuffer.write4bytes_room (by simp; omega), foldl_write4bytes (by simp; omega)]
  cases hsent : header.sent with
  | none => simp [headerBytes, flagsByte, markerByte, hsent]
  | some ext =>
    rw [hsent, Option.map_some, Option.getD_some] at h
    dsimp only
    rw [encodeRtpExtensions_room (by simp; omega)]
    simp [headerBytes, flagsByte, markerByte, hsent]

end Encoding

section Decoding

variable {m : Mem} {b s h n : Nat}

theorem touch_within (hle : h + n ≤ b) :
    (⟨m, b, s, h, false⟩ : YangBuffer).touch n = ⟨m, b, s, h, false⟩ := by
  have hnot : ¬ b < h + n := by omega
  simp only [YangBuffer.touch, hnot, decide_false, Bool.and_false, Bool.or_false]

theorem take_within (hle : h + n ≤ b) :
    (⟨m, b, s, h, false⟩ : YangBuffer).take n = ⟨m, b, s, h + n, false⟩ := by
  rw [YangBuffer.take, touch_within hle]

theorem require_within {n : Int} (hn : 0 ≤ n) (hle : h + n ≤ s) :
    (⟨m, b, s, h, false⟩ : YangBuffer).require n = true := by
  have hfits : n ≤ (s : Int) - h := by omega
  simp only [YangBuffer.require, YangBuffer.left, hn, hfits, decide_true, Bool.and_self]

theorem decodeCsrc_within {cs : List Nat} (hbytes : m.slice h (4 * cs.length) = csrcBytes cs)
    (hlt : ∀ c ∈ cs, c < 2 ^ 32) (hle : h + 4 * cs.length ≤ b) :
    decodeCsrc cs.length ⟨m, b, s, h, false⟩ = (cs, ⟨m, b, s, h + 4 * cs.length, false⟩) := by
  induction cs generalizing h with
  | nil => rfl
  | cons c cs ih =>
    rw [List.length_cons, Nat.mul_succ] at hle
    rw [csrcBytes, List.flatMap_cons] at hbytes
    obtain ⟨hfirst, hrest⟩ := Mem.slice_parts hbytes
    rw [beBytes_length] at hfirst hrest
    have hread : m.be h 4 = c := by
      rw [Mem.be_of_slice hfirst]
      exact Nat.mod_eq_of_lt (hlt c List.mem_cons_self)
    have hcs : m.slice (h + 4) (4 * cs.length) = csrcBytes cs := by
      rw [← csrcBytes_length cs]
      exact hrest
    rw [List.length_cons, Nat.mul_succ, ← Nat.add_assoc, Nat.add_right_comm]
    simp only [decodeCsrc, YangBuffer.read4bytes, YangBuffer.readNum, hread]
    rw [take_within (by omega), ih hcs (fun c' hc => hlt c' (List.mem_cons_of_mem _ hc)) (by omega)]

/-- The zeros at the end of the block are passed over. -/
theorem decode0xbede_zeros {ext : RtpExtensions} {k fuel : Nat} (hfuel : k < fuel)
    (hzero : ∀ i < k, m (h + i) = 0) (hle : h + k ≤ b) :
    decode0xbedeLoop fuel ext ⟨m, b, h + k, h, false⟩ =
      (yangOk, ext, ⟨m, b, h + k, h + k, false⟩) := by
  induction k generalizing h fuel with
  | zero =>
    obtain ⟨fuel, rfl⟩ := Nat.exists_eq_succ_of_ne_zero (Nat.ne_of_gt hfuel)
    simp only [decode0xbedeLoop, YangBuffer.empty, Nat.add_zero, le_refl, decide_true, if_true]
  | succ k ih =>
    obtain ⟨fuel, rfl⟩ := Nat.exists_eq_succ_of_ne_zero (Nat.ne_of_gt (Nat.zero_lt_of_lt hfuel))
    have hhere : m h = 0 := hzero 0 (Nat.succ_pos k)
    have hempty : ¬ h + (k + 1) ≤ h := by omega
    have hreq : (⟨m, b, h + (k + 1), h, false⟩ : YangBuffer).require 1 = true :=
      require_within (by decide) (by omega)
    have hrest : ∀ i < k, m (h + 1 + i) = 0 := by
      intro i hi
      rw [Nat.add_assoc, Nat.add_comm 1]
      exact hzero (i + 1) (by omega)
    have hnext : decode0xbedeLoop fuel ext ⟨m, b, h + 1 + k, h + 1, false⟩ =
        (yangOk, ext, ⟨m, b, h + 1 + k, h + 1 + k, false⟩) := ih (by omega) hrest (by omega)
    rw [show h + 1 + k = h + (k + 1) by omega] at hnext
    simp only [decode0xbedeLoop, YangBuffer.empty, hempty, decide_false, Bool.false_eq_true,
      if_false, hreq, Bool.not_true, touch_within (show h + 1 ≤ b by omega), hhere,
      UInt8.toNat_zero, if_true]
    exact hnext

variable {ext : RtpExtensions} {types : RtpExtensionTypes}

theorem twccByte_toNat : ∀ id < 16, (UInt8.ofNat (id % 16 * 16) ||| 1).toNat = id * 16 + 1 := by
  decide

theorem oneByte_toNat : ∀ id < 16, (UInt8.ofNat (id % 16 * 16)).toNat = id * 16 := by decide

theorem decodeRtpExtensionsTwcc_within {old : RtpExtensionTwcc} {id sn : Nat} (hid : 1 ≤ id)
    (hid' : id ≤ 14) (hsn : sn < 65536) (hbytes : m.slice h 3 = twccBytes ⟨true, id, sn⟩)
    (hle : h + 3 ≤ s) (hs : s ≤ b) :
    decodeRtpExtensionsTwcc old ⟨m, b, s, h, false⟩ =
      (yangOk, ⟨true, id, sn⟩, ⟨m, b, s, h + 3, false⟩) := by
  obtain ⟨hfirst, hrest⟩ := List.cons.inj hbytes
  have hv : (m h).toNat = id * 16 + 1 := by
    rw [hfirst]
    exact twccByte_toNat id (by omega)
  have hread : m.be (h + 1) 2 = sn := by
    rw [Mem.be_of_slice hrest]
    exact Nat.mod_eq_of_lt hsn
  have hreq : (⟨m, b, s, h, false⟩ : YangBuffer).require 1 = true :=
    require_within (by decide) (by omega)
  have hreq' : (⟨m, b, s, h + 1, false⟩ : YangBuffer).require 2 = true :=
    require_within (by decide) (by omega)
  have hquot : (id * 16 + 1) / 16 = id := by omega
  have hrem : (id * 16 + 1) % 16 = 1 := by omega
  have hne : ¬ id = 0 := by omega
  simp only [decodeRtpExtensionsTwcc, hreq, Bool.not_true, Bool.false_eq_true, if_false,
    YangBuffer.read1bytes, YangBuffer.readNum, Mem.be_one, hv, hquot, hrem, hne,
    take_within (show h + 1 ≤ b by omega), hreq', YangBuffer.read2bytes, hread, ne_eq,
    take_within (show h + 1 + 2 ≤ b by omega), not_true_eq_false, or_self, Nat.add_assoc,
    Nat.reduceAdd]

theorem decodeRtpExtensionsOneByte_within {old : RtpExtensionOneByte} {id value : Nat} (hid : 1 ≤ id)
    (hid' : id ≤ 14) (hvalue : value < 256) (hbytes : m.slice h 2 = oneByteBytes ⟨true, id, value⟩)
    (hle : h + 2 ≤ s) (hs : s ≤ b) :
    decodeRtpExtensionsOneByte old ⟨m, b, s, h, false⟩ =
      (yangOk, ⟨true, id, value⟩, ⟨m, b, s, h + 2, false⟩) := by
  obtain ⟨hfirst, hrest⟩ := List.cons.inj hbytes
  have hv : (m h).toNat = id * 16 := by
    rw [hfirst]
    exact oneByte_toNat id (by omega)
  have hread : (m (h + 1)).toNat = value := by
    rw [(List.cons.inj hrest).1]
    simpa using hvalue
  have hreq : (⟨m, b, s, h, false⟩ : YangBuffer).require 2 = true :=
    require_within (by decide) (by omega)
  have hquot : id * 16 / 16 = id := by omega
  have hrem : id * 16 % 16 = 0 := by omega
  have hne : ¬ id = 0 := by omega
  simp only [decodeRtpExtensionsOneByte, hreq, Bool.not_true, Bool.false_eq_true, if_false,
    YangBuffer.read1bytes, YangBuffer.readNum, Mem.be_one, hv, hquot, hrem, hne,
    take_within (show h + 1 ≤ b by omega), hread, ne_eq,
    take_within (show h + 1 + 1 ≤ b by omega), not_true_eq_false, or_self, Nat.add_assoc,
    Nat.reduceAdd]

/-- An element the decoder knows is decoded, and the loop goes on behind it. -/
theorem decode0xbede_twcc {id sn fuel : Nat} (hid : 1 ≤ id) (hid' : id ≤ 14) (hsn : sn < 65536)
    (htypes : ext.types = some types) (hsame : types.transportSequenceNumber = id)
    (hdecode : ext.decodeTwccExtension = true)
    (hbytes : m.slice h 3 = twccBytes ⟨true, id, sn⟩) (hle : h + 3 ≤ s) (hs : s ≤ b) :
    decode0xbedeLoop (fuel + 1) ext ⟨m, b, s, h, false⟩ =
      decode0xbedeLoop fuel { ext with twcc := ⟨true, id, sn⟩, hasExt := true }
        ⟨m, b, s, h + 3, false⟩ := by
  have hv : (m h).toNat = id * 16 + 1 := by
    rw [(List.cons.inj hbytes).1]
    exact twccByte_toNat id (by omega)
  have hempty : ¬ s ≤ h := by omega
  have hreq : (⟨m, b, s, h, false⟩ : YangBuffer).require 1 = true :=
    require_within (by decide) (by omega)
  have hne : ¬ id * 16 + 1 = 0 := by omega
  have hquot : (id * 16 + 1) / 16 = id := by omega
  have htype : (ext.types.map (getRtpExtensionType · id)).getD .none =
      .transportSequenceNumber := by
    rw [htypes, Option.map_some, Option.getD_some, getRtpExtensionType, if_pos hsame]
  simp only [decode0xbedeLoop, YangBuffer.empty, hempty, decide_false, Bool.false_eq_true,
    if_false, hreq, Bool.not_true, touch_within (show h + 1 ≤ b by omega), hv, hne,
    hquot, htype, hdecode, if_true, ne_eq, not_true_eq_false,
    decodeRtpExtensionsTwcc_within hid hid' hsn hbytes hle hs]

theorem decode0xbede_audio {id value fuel : Nat} (hid : 1 ≤ id) (hid' : id ≤ 14)
    (hvalue : value < 256) (htypes : ext.types = some types) (hsame : types.audioLevel = id)
    (hother : types.transportSequenceNumber ≠ id)
    (hbytes : m.slice h 2 = oneByteBytes ⟨true, id, value⟩) (hle : h + 2 ≤ s) (hs : s ≤ b) :
    decode0xbedeLoop (fuel + 1) ext ⟨m, b, s, h, false⟩ =
      decode0xbedeLoop fuel { ext with audioLevel := ⟨true, id, value⟩, hasExt := true }
        ⟨m, b, s, h + 2, false⟩ := by
  have hv : (m h).toNat = id * 16 := by
    rw [(List.cons.inj hbytes).1]
    exact oneByte_toNat id (by omega)
  have hempty : ¬ s ≤ h := by omega
  have hreq : (⟨m, b, s, h, false⟩ : YangBuffer).require 1 = true :=
    require_within (by decide) (by omega)
  have hne : ¬ id * 16 = 0 := by omega
  have hquot : id * 16 / 16 = id := by omega
  have htype : (ext.types.map (getRtpExtensionType · id)).getD .none = .audioLevel := by
    rw [htypes, Option.map_some, Option.getD_some, getRtpExtensionType, if_neg hother,
      if_pos hsame]
  simp only [decode0xbedeLoop, YangBuffer.empty, hempty, decide_false, Bool.false_eq_true,
    if_false, hreq, Bool.not_true, touch_within (show h + 1 ≤ b by omega), hv, hne,
    hquot, htype, ne_eq, not_true_eq_false,
    decodeRtpExtensionsOneByte_within hid hid' hvalue hbytes hle hs]

/-- What the block of an extension leaves in the object it is decoded to. -/
def RtpExtensions.receive (ext sent : RtpExtensions) : RtpExtensions :=
  { ext with
    hasExt := ext.hasExt || sent.twcc.hasTwcc || sent.audioLevel.hasExt
    twcc := if sent.twcc.hasTwcc then sent.twcc else ext.twcc
    audioLevel := if sent.audioLevel.hasExt then sent.audioLevel else ext.audioLevel }

/-- The extensions are sent under the ids that are registered, and their values fit. -/
structure RtpExtensions.Registered (sent : RtpExtensions) (types : RtpExtensionTypes) : Prop where
  distinct : types.transportSequenceNumber ≠ types.audioLevel
  twcc : sent.twcc.hasTwcc = true → types.transportSequenceNumber = sent.twcc.id ∧
    1 ≤ sent.twcc.id ∧ sent.twcc.id ≤ 14 ∧ sent.twcc.sn < 65536
  audioLevel : sent.audioLevel.hasExt = true → types.audioLevel = sent.audioLevel.id ∧
    1 ≤ sent.audioLevel.id ∧ sent.audioLevel.id ≤ 14 ∧ sent.audioLevel.value < 256

theorem slice_zeros {p k : Nat} (hbytes : m.slice p k = List.replicate k 0) :
    ∀ i < k, m (p + i) = 0 := by
  intro i hi
  rw [← m.slice_getD p hi 0, hbytes, List.getD_eq_getElem?_getD, List.getElem?_replicate_of_lt hi,
    Option.getD_some]

section Elements

variable {sent : RtpExtensions} {fuel : Nat} (hr : sent.Registered types)
  (htypes : ext.types = some types)

include hr htypes

theorem decode0xbede_twccElement (hdecode : ext.decodeTwccExtension = true) (hfuel : 0 < fuel)
    (hbytes : m.slice h (twccElement sent).length = twccElement sent)
    (hle : h + (twccElement sent).length ≤ s) (hs : s ≤ b) :
    ∃ fuel', fuel ≤ fuel' + (twccElement sent).length ∧
      decode0xbedeLoop fuel ext ⟨m, b, s, h, false⟩ =
        decode0xbedeLoop fuel' { ext with
          hasExt := ext.hasExt || sent.twcc.hasTwcc
          twcc := if sent.twcc.hasTwcc then sent.twcc else ext.twcc }
          ⟨m, b, s, h + (twccElement sent).length, false⟩ := by
  obtain ⟨fuel, rfl⟩ := Nat.exists_eq_succ_of_ne_zero (Nat.ne_of_gt hfuel)
  cases hhas : sent.twcc.hasTwcc with
  | false =>
    have hnil : twccElement sent = [] := by rw [twccElement, hhas, if_neg Bool.false_ne_true]
    refine ⟨fuel + 1, by omega, ?_⟩
    simp only [hnil, Bool.or_false, Bool.false_eq_true, if_false, List.length_nil, Nat.add_zero]
  | true =>
    obtain ⟨hsame, hid, hid', hsn⟩ := hr.twcc hhas
    have hthere : twccElement sent = twccBytes ⟨true, sent.twcc.id, sent.twcc.sn⟩ := by
      rw [twccElement, if_pos hhas, ← hhas]
    have heq : sent.twcc = ⟨true, sent.twcc.id, sent.twcc.sn⟩ := by rw [← hhas]
    rw [hthere, twccBytes_length] at hbytes hle ⊢
    refine ⟨fuel, by omega, ?_⟩
    rw [decode0xbede_twcc hid hid' hsn htypes hsame hdecode hbytes hle hs, Bool.or_true, if_pos rfl,
      ← heq]

theorem decode0xbede_audioElement (hfuel : 0 < fuel)
    (hbytes : m.slice h (audioElement sent).length = audioElement sent)
    (hle : h + (audioElement sent).length ≤ s) (hs : s ≤ b) :
    ∃ fuel', fuel ≤ fuel' + (audioElement sent).length ∧
      decode0xbedeLoop fuel ext ⟨m, b, s, h, false⟩ =
        decode0xbedeLoop fuel' { ext with
          hasExt := ext.hasExt || sent.audioLevel.hasExt
          audioLevel := if sent.audioLevel.hasExt then sent.audioLevel else ext.audioLevel }
          ⟨m, b, s, h + (audioElement sent).length, false⟩ := by
  obtain ⟨fuel, rfl⟩ := Nat.exists_eq_succ_of_ne_zero (Nat.ne_of_gt hfuel)
  cases hhas : sent.audioLevel.hasExt with
  | false =>
    have hnil : audioElement sent = [] := by rw [audioElement, hhas, if_neg Bool.false_ne_true]
    refine ⟨fuel + 1, by omega, ?_⟩
    simp only [hnil, Bool.or_false, Bool.false_eq_true, if_false, List.length_nil, Nat.add_zero]
  | true =>
    obtain ⟨hsame, hid, hid', hvalue⟩ := hr.audioLevel hhas
    have hthere : audioElement sent =
        oneByteBytes ⟨true, sent.audioLevel.id, sent.audioLevel.value⟩ := by
      rw [audioElement, if_pos hhas, ← hhas]
    have heq : sent.audioLevel = ⟨true, sent.audioLevel.id, sent.audioLevel.value⟩ := by rw [← hhas]
    rw [hthere, oneByteBytes_length] at hbytes hle ⊢
    refine ⟨fuel, by omega, ?_⟩
    rw [decode0xbede_audio hid hid' hvalue htypes hsame (hsame ▸ hr.distinct) hbytes hle hs,
      Bool.or_true, if_pos rfl, ← heq]

theorem decode0xbede_elements (hdecode : ext.decodeTwccExtension = true)
    (hbytes : m.slice h (extensionWords sent * 4) =
      extensionElements sent ++ List.replicate (extensionPadding sent) 0)
    (hle : h + extensionWords sent * 4 ≤ b) :
    decode0xbede ext ⟨m, b, h + extensionWords sent * 4, h, false⟩ =
      (yangOk, ext.receive sent,
        ⟨m, b, h + extensionWords sent * 4, h + extensionWords sent * 4, false⟩) := by
  have hwords := extensionWords_mul sent
  rw [extensionElements, List.length_append] at hwords
  rw [extensionElements, List.append_assoc] at hbytes
  obtain ⟨htwcc, hrest⟩ := Mem.slice_parts hbytes
  rw [List.length_append, List.length_replicate] at hrest
  obtain ⟨haudio, hzeros⟩ := Mem.slice_parts hrest
  rw [List.length_replicate] at hzeros
  have hwithin : h + (twccElement sent).length ≤ h + extensionWords sent * 4 := by omega
  obtain ⟨fuel₁, hfuel₁, htwcc'⟩ := decode0xbede_twccElement hr htypes hdecode
    (Nat.succ_pos (extensionWords sent * 4)) htwcc hwithin hle
  have hwithin' : h + (twccElement sent).length + (audioElement sent).length ≤
      h + extensionWords sent * 4 := by omega
  have htypes' : ({ ext with
      hasExt := ext.hasExt || sent.twcc.hasTwcc
      twcc := if sent.twcc.hasTwcc then sent.twcc else ext.twcc } : RtpExtensions).types =
        some types := htypes
  obtain ⟨fuel₂, hfuel₂, haudio'⟩ := decode0xbede_audioElement hr htypes'
    (show 0 < fuel₁ by omega) haudio hwithin' hle
  have hend : h + extensionWords sent * 4 =
      h + (twccElement sent).length + (audioElement sent).length + extensionPadding sent := by omega
  have hbytes_left : h + extensionWords sent * 4 - h + 1 = extensionWords sent * 4 + 1 := by omega
  simp only [decode0xbede, hbytes_left]
  rw [htwcc', haudio', hend, decode0xbede_zeros (by omega) (slice_zeros hzeros) (by omega)]
  rfl

end Elements

theorem decodeRtpExtensions_within {sent : RtpExtensions} (hr : sent.Registered types)
    (htypes : ext.types = some types) (hdecode : ext.decodeTwccExtension = true)
    (hbytes : m.slice h (extensionBytes sent).length = extensionBytes sent)
    (hle : h + (extensionBytes sent).length ≤ s) (hs : s ≤ b) :
    decodeRtpExtensions ext ⟨m, b, s, h, false⟩ =
      (yangOk, ext.receive sent, ⟨m, b, s, h + (extensionBytes sent).length, false⟩) := by
  have hlen := extensionBytes_length sent
  have hwords := extensionWords_mul sent
  have hwords_lt : extensionWords sent < 65536 := by
    have hpad : extensionPadding sent ≤ 3 := by
      simp only [extensionPadding]
      split <;> omega
    have helements : (extensionElements sent).length ≤ 5 := by
      rw [extensionElements_length, rtpExtensionTwccNb, rtpExtensionOneByteNb]
      split <;> split <;> omega
    omega
  obtain ⟨hprofile, hrest⟩ := Mem.slice_parts hbytes
  rw [beBytes_length] at hprofile hrest
  obtain ⟨hcount, hblock⟩ := Mem.slice_parts hrest
  rw [beBytes_length] at hcount hblock
  have hprofile' : m.be h 2 = 0xBEDE := Mem.be_of_slice hprofile
  have hcount' : m.be (h + 2) 2 = extensionWords sent := by
    rw [Mem.be_of_slice hcount]
    exact Nat.mod_eq_of_lt hwords_lt
  rw [List.length_append, List.length_replicate, ← hwords] at hblock
  have hreq : (⟨m, b, s, h, false⟩ : YangBuffer).require 4 = true :=
    require_within (by decide) (by omega)
  have hend : h + 2 + 2 + extensionWords sent * 4 ≤ b := by omega
  have hskip : (((h + 2 + 2 : Nat) : Int) + (extensionWords sent : Int) * 4).toNat =
      h + (extensionBytes sent).length := by omega
  simp only [decodeRtpExtensions, hreq, Bool.not_true, Bool.false_eq_true, if_false,
    YangBuffer.read2bytes, YangBuffer.readNum, hprofile', hcount', if_true,
    take_within (show h + 2 ≤ b by omega), take_within (show h + 2 + 2 ≤ b by omega),
    decode0xbede_elements hr htypes hdecode hblock hend, YangBuffer.skip, hskip]

theorem markerByte_parts (hlt : header.payloadType < 128) :
    (128 ≤ (markerByte header).toNat ↔ header.marker = true) ∧
      (markerByte header).toNat % 128 = header.payloadType := by
  have hor : ∀ n < 128, (UInt8.ofNat n ||| 0x80).toNat = n + 128 := by decide
  have hplain : (UInt8.ofNat header.payloadType).toNat = header.payloadType := by
    simp only [UInt8.toNat_ofNat']
    omega
  unfold markerByte
  cases header.marker with
  | true =>
    simp only [if_true, hor _ hlt]
    exact ⟨⟨fun _ => trivial, fun _ => Nat.le_add_left _ _⟩, by omega⟩
  | false =>
    simp only [Bool.false_eq_true, if_false, hplain]
    exact ⟨⟨fun hle => by omega, fun hfalse => hfalse.elim⟩, Nat.mod_eq_of_lt hlt⟩

/-- The flags say how many sources there are and whether extensions follow, and nothing of
padding. -/
theorem flagsByte_parts (hcc : header.cc ≤ 15) :
    (flagsByte header).toNat / 32 % 2 = 0 ∧ (flagsByte header).toNat % 16 = header.cc ∧
      ((flagsByte header).toNat / 16 % 2 = 1 ↔ header.sent.isSome = true) := by
  have hall : ∀ cc < 16, ∀ extension : Bool,
      let v := (if extension then 0x80 ||| UInt8.ofNat cc ||| 0x10 else 0x80 ||| UInt8.ofNat cc)
      v.toNat / 32 % 2 = 0 ∧ v.toNat % 16 = cc ∧ (v.toNat / 16 % 2 = 1 ↔ extension = true) := by
    decide
  exact hall header.cc (by omega) header.sent.isSome

/-- A header without padding whose numbers fit their fields. -/
structure RtpHeader.Encodable (header : RtpHeader) (types : RtpExtensionTypes) : Prop where
  paddingLength : header.paddingLength = 0
  cc : header.cc ≤ 15
  csrc : header.csrc.length = header.cc
  csrc_lt : ∀ c ∈ header.csrc, c < 2 ^ 32
  payloadType : header.payloadType < 128
  sequence : header.sequence < 65536
  timestamp : header.timestamp < 2 ^ 32
  ssrc : header.ssrc < 2 ^ 32
  registered : ∀ sent, header.sent = some sent → sent.Registered types

/-- The header that comes out of the decoder. -/
def RtpHeader.received (header : RtpHeader) (ext : RtpExtensions) : RtpHeader where
  cc := header.cc
  payloadType := header.payloadType
  sequence := header.sequence
  timestamp := header.timestamp
  ssrc := header.ssrc
  marker := header.marker
  csrc := header.csrc
  extensions := some ((header.sent.map ext.receive).getD ext)

theorem decodeRtpHeader_within (he : header.Encodable types) (htypes : ext.types = some types)
    (hdecode : ext.decodeTwccExtension = true)
    (hbytes : m.slice 0 (headerBytes header).length = headerBytes header)
    (hle : (headerBytes header).length ≤ b) :
    decodeRtpHeader (initBuffer m b) { extensions := some ext } =
      (yangOk, header.received ext, ⟨m, b, b, (headerBytes header).length, false⟩) := by
  have hlen : (headerBytes header).length =
      12 + 4 * header.cc + ((header.sent.map extensionBytes).getD []).length := by
    simp only [headerBytes, List.length_append, List.length_singleton, beBytes_length,
      csrcBytes_length, he.csrc]
    omega
  obtain ⟨h₀, hbytes⟩ := Mem.slice_parts hbytes
  obtain ⟨h₁, hbytes⟩ := Mem.slice_parts hbytes
  obtain ⟨h₂, hbytes⟩ := Mem.slice_parts hbytes
  obtain ⟨h₃, hbytes⟩ := Mem.slice_parts hbytes
  obtain ⟨h₄, hbytes⟩ := Mem.slice_parts hbytes
  obtain ⟨h₅, hext⟩ := Mem.slice_parts hbytes
  simp only [List.length_singleton, beBytes_length, csrcBytes_length, Nat.zero_add, Nat.reduceAdd]
    at h₀ h₁ h₂ h₃ h₄ h₅ hext
  have b₀ : m.be 0 1 = (flagsByte header).toNat := by
    rw [Mem.be_one, (List.cons.inj h₀).1]
  have b₁ : m.be 1 1 = (markerByte header).toNat := by
    rw [Mem.be_one, (List.cons.inj h₁).1]
  have b₂ : m.be 2 2 = header.sequence := by
    rw [Mem.be_of_slice h₂]
    exact Nat.mod_eq_of_lt he.sequence
  have b₃ : m.be 4 4 = header.timestamp := by
    rw [Mem.be_of_slice h₃]
    exact Nat.mod_eq_of_lt he.timestamp
  have b₄ : m.be 8 4 = header.ssrc := by
    rw [Mem.be_of_slice h₄]
    exact Nat.mod_eq_of_lt he.ssrc
  obtain ⟨hpad, hcc, hx⟩ := flagsByte_parts he.cc
  obtain ⟨hmarker, htype⟩ := markerByte_parts he.payloadType
  have hreq : (⟨m, b, b, 0, false⟩ : YangBuffer).require 12 = true :=
    require_within (by decide) (by omega)
  have hcsrc : decodeCsrc header.cc ⟨m, b, b, 12, false⟩ =
      (header.csrc, ⟨m, b, b, 12 + 4 * header.cc, false⟩) := by
    have hroom : 12 + 4 * header.csrc.length ≤ b := by rw [he.csrc]; omega
    have hall := decodeCsrc_within (s := b) h₅ he.csrc_lt hroom
    rwa [he.csrc] at hall
  have hnotpad : ¬ (flagsByte header).toNat / 32 % 2 = 1 := by omega
  simp only [decodeRtpHeader, initBuffer, hreq, Bool.not_true, Bool.false_eq_true, if_false,
    YangBuffer.read1bytes, YangBuffer.read2bytes, YangBuffer.read4bytes, YangBuffer.readNum,
    take_within (show 0 + 1 ≤ b by omega), take_within (show 0 + 1 + 1 ≤ b by omega),
    take_within (show 0 + 1 + 1 + 2 ≤ b by omega), take_within (show 0 + 1 + 1 + 2 + 4 ≤ b by omega),
    take_within (show 0 + 1 + 1 + 2 + 4 + 4 ≤ b by omega), Nat.zero_add, Nat.reduceAdd, b₀, b₁, b₂,
    b₃, b₄, hcc, hx, hmarker, htype, hcsrc, hnotpad, false_and, Option.getD_some, List.drop_nil,
    List.append_nil, Bool.decide_eq_true]
  cases hsent : header.sent with
  | none =>
    rw [hsent] at hlen
    simp only [Option.map_none, Option.getD_none, List.length_nil, Nat.add_zero] at hlen
    simp only [Option.isSome_none, Bool.false_eq_true, if_false, ne_eq, not_true_eq_false, hlen,
      RtpHeader.received, hsent, Option.map_none, Option.getD_none]
  | some sent =>
    rw [hsent, Option.map_some, Option.getD_some] at hlen hext
    rw [he.csrc] at hext
    have hdone := decodeRtpExtensions_within (he.registered sent hsent) htypes hdecode hext
      (show 12 + 4 * header.cc + (extensionBytes sent).length ≤ b by omega) le_rfl
    simp only [Option.isSome_some, if_true, hdone, ne_eq, not_true_eq_false, if_false, ← hlen,
      RtpHeader.received, hsent, Option.map_some, Option.getD_some]

end Decoding

/-- The number of the transport-wide extension that a header has, with its id. -/
def RtpHeader.twccValue (header : RtpHeader) : Option (Nat × Nat) :=
  header.sent.bind fun ext => if ext.twcc.hasTwcc then some (ext.twcc.id, ext.twcc.sn) else none

def RtpHeader.audioValue (header : RtpHeader) : Option (Nat × Nat) :=
  header.sent.bind fun ext =>
    if ext.audioLevel.hasExt then some (ext.audioLevel.id, ext.audioLevel.value) else none

structure RtpHeader.Agrees (a b : RtpHeader) : Prop where
  paddingLength : a.paddingLength = b.paddingLength
  cc : a.cc = b.cc
  marker : a.marker = b.marker
  payloadType : a.payloadType = b.payloadType
  sequence : a.sequence = b.sequence
  timestamp : a.timestamp = b.timestamp
  ssrc : a.ssrc = b.ssrc
  csrc : a.csrc = b.csrc
  twccValue : a.twccValue = b.twccValue
  audioValue : a.audioValue = b.audioValue

/-- The header is encoded, and a decoder that has the extension object `ext` gets it back from a
packet that starts with those bytes. Its cursor is then where they end. -/
def RtpHeader.RoundTrips (header : RtpHeader) (ext : RtpExtensions) : Prop :=
  ∀ (size : Nat) (payload : List UInt8) (m : Mem), (headerBytes header).length ≤ size →
    ∃ buf, encodeRtpHeader { size } header = (yangOk, buf) ∧ buf.fault = false ∧
      (m.slice 0 (buf.pos + payload.length) = buf.bytes ++ payload →
        ∃ decoded, decodeRtpHeader (initBuffer m (buf.pos + payload.length))
            { extensions := some ext } =
              (yangOk, decoded, { initBuffer m (buf.pos + payload.length) with head := buf.pos }) ∧
          decoded.Agrees header)

/-- An extension object before anything is decoded to it. -/
structure RtpExtensions.Fresh (ext : RtpExtensions) : Prop where
  hasExt : ext.hasExt = false
  twcc : ext.twcc.hasTwcc = false
  audioLevel : ext.audioLevel.hasExt = false

section RoundTrip

variable {header : RtpHeader} {types : RtpExtensionTypes} {ext : RtpExtensions}

theorem received_sent (hf : ext.Fresh) : (header.received ext).sent =
    (header.sent.map ext.receive).filter fun e => e.twcc.hasTwcc || e.audioLevel.hasExt := by
  simp only [RtpHeader.sent, RtpHeader.received]
  cases header.extensions.filter (·.hasExt) with
  | none => simp [hf.hasExt]
  | some sent =>
    simp only [Option.map_some, Option.getD_some, Option.filter_some, RtpExtensions.receive,
      hf.hasExt, Bool.false_or]
    cases htwcc : sent.twcc.hasTwcc <;> cases haudio : sent.audioLevel.hasExt <;>
      simp [htwcc, haudio, hf.twcc, hf.audioLevel]

theorem received_agrees (hpad : header.paddingLength = 0) (hf : ext.Fresh) :
    (header.received ext).Agrees header where
  paddingLength := hpad.symm
  cc := rfl
  marker := rfl
  payloadType := rfl
  sequence := rfl
  timestamp := rfl
  ssrc := rfl
  csrc := rfl
  twccValue := by
    rw [RtpHeader.twccValue, RtpHeader.twccValue, received_sent hf]
    cases header.sent with
    | none => rfl
    | some sent =>
      cases htwcc : sent.twcc.hasTwcc <;> cases haudio : sent.audioLevel.hasExt <;>
        simp [RtpExtensions.receive, Option.filter, htwcc, haudio, hf.twcc, hf.audioLevel]
  audioValue := by
    rw [RtpHeader.audioValue, RtpHeader.audioValue, received_sent hf]
    cases header.sent with
    | none => rfl
    | some sent =>
      cases htwcc : sent.twcc.hasTwcc <;> cases haudio : sent.audioLevel.hasExt <;>
        simp [RtpExtensions.receive, Option.filter, htwcc, haudio, hf.twcc, hf.audioLevel]

/-- The decoder gives back what was encoded, where it is told to look at the transport-wide
number. -/
theorem roundTrips_decoding (he : header.Encodable types) (hf : ext.Fresh)
    (htypes : ext.types = some types) (hdecode : ext.decodeTwccExtension = true) :
    header.RoundTrips ext := by
  intro size payload m hroom
  refine ⟨_, encodeRtpHeader_room he.paddingLength he.csrc hroom, rfl, fun hbytes => ?_⟩
  refine ⟨header.received ext, ?_, received_agrees he.paddingLength hf⟩
  exact decodeRtpHeader_within he htypes hdecode (Mem.slice_parts hbytes).1 (Nat.le_add_right _ _)

/-- Two sources and both extensions. -/
def fullHeader : RtpHeader where
  cc := 2
  csrc := [7, 4000000000]
  payloadType := 96
  sequence := 65535
  timestamp := 4294967295
  ssrc := 1
  marker := true
  extensions := some { hasExt := true, twcc := ⟨true, 3, 65535⟩, audioLevel := ⟨true, 1, 200⟩ }

theorem roundTrips_full :
    fullHeader.RoundTrips { decodeTwccExtension := true, types := some ⟨3, 1⟩ } := by
  have he : fullHeader.Encodable ⟨3, 1⟩ := by
    refine ⟨rfl, by decide, rfl, by decide, by decide, by decide, by decide, by decide, ?_⟩
    intro sent hsent
    obtain rfl := Option.some.inj hsent
    exact ⟨by decide, fun _ => by decide, fun _ => by decide⟩
  exact roundTrips_decoding he ⟨rfl, rfl, rfl⟩ rfl rfl

set_option maxRecDepth 4000 in
/-- By default the decoder passes over the transport-wide number. -/
theorem twcc_not_decoded : ¬ fullHeader.RoundTrips { types := some ⟨3, 1⟩ } := by
  intro h
  obtain ⟨buf, hencode, -, hdecode⟩ := h 1500 [] (ofList (headerBytes fullHeader)) (by decide)
  obtain rfl : _ = buf := congrArg Prod.snd hencode
  obtain ⟨decoded, hdecoded, hagrees⟩ := hdecode (by decide)
  obtain rfl : _ = decoded := congrArg (fun r => r.2.1) hdecoded
  exact absurd hagrees.twccValue (by decide)

end RoundTrip

end MetaRtc
