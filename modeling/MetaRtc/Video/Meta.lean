import MetaRtc.Play.Nalu
import MetaRtc.Publish.Package

/-! # The configuration record of a decoder

The record has the parameter sets behind fixed bytes, each with its length in two bytes. What
reads it when it is pushed takes one byte for a length. -/
namespace MetaRtc

open Bytes Exec

def sized (set : List UInt8) : List UInt8 := beBytes 2 set.length ++ set

/-- The bytes of the record. Three are copied from the first set. -/
def configRecordH264 (profile sps pps : List UInt8) : List UInt8 :=
  [0x17, 0x00, 0x00, 0x00, 0x00, 0x01] ++ profile ++ [0xff, 0xe1] ++ sized sps ++
    [0x01] ++ sized pps

/-- Twelve bytes are copied from the second of the sets. -/
def configRecordH265 (profile vps sps pps : List UInt8) : List UInt8 :=
  [0x1C, 0x00, 0x00, 0x00, 0x00, 0x00] ++ profile ++ List.replicate 9 0x00 ++ [0x03] ++
    [0x20, 0x00, 0x01] ++ sized vps ++ [0x21, 0x00, 0x01] ++ sized sps ++
    [0x22, 0x00, 0x01] ++ sized pps

section Record

variable {p configBuf : Area} {buf : Mem} {sps pps vps set before rest profile : List UInt8}
  {n spsPos ppsPos vpsPos : Nat}

@[simp] theorem sized_length : (sized set).length = 2 + set.length := by
  simp [sized]

theorem configRecordH264_length : (configRecordH264 profile sps pps).length =
    13 + profile.length + sps.length + pps.length := by
  simp only [configRecordH264, List.length_append, sized_length, List.length_cons,
    List.length_nil]
  omega

theorem configRecordH265_length : (configRecordH265 profile vps sps pps).length =
    31 + profile.length + vps.length + sps.length + pps.length := by
  simp only [configRecordH265, List.length_append, sized_length, List.length_cons,
    List.length_nil, List.length_replicate]
  omega

/-- A set that lies in an object. -/
structure Stored (p : Area) (pos : Nat) (set : List UInt8) : Prop where
  inside : pos + set.length ≤ p.room
  bytes : p.data.slice pos set.length = set

theorem Stored.read (h : Stored p n set) : p.read n set.length = .ret set := by
  rw [Area.read_inside h.inside, h.bytes]

/-- The record as it is afterwards in the buffer for it. -/
def withRecord (configBuf : Area) (record : List UInt8) : Area :=
  { configBuf with data := configBuf.data.write 0 record }

theorem withRecord_slice (record : List UInt8) :
    (withRecord configBuf record).data.slice 0 record.length = record :=
  Mem.slice_write _ 0 _

theorem getConfigMetaH264_record (hsps : Stored p spsPos sps) (hpps : Stored p ppsPos pps)
    (hlen : 4 ≤ sps.length) (hroom : 16 + sps.length + pps.length ≤ configBuf.room) :
    ∃ profile, profile.length = 3 ∧
      getConfigMetaH264 p spsPos sps.length ppsPos pps.length configBuf =
        .ret (withRecord configBuf (configRecordH264 profile sps pps),
          (configRecordH264 profile sps pps).length) := by
  have hin := hsps.inside
  have hprofile : p.read ((spsPos : Int) + 1) 3 = .ret (p.data.slice (spsPos + 1) 3) :=
    Area.read_inside (i := spsPos + 1) (n := 3) (by omega)
  have hrecord : [0x17, 0x00, 0x00, 0x00, 0x00, 0x01] ++ p.data.slice (spsPos + 1) 3 ++
      [0xff, 0xe1] ++ beBytes 2 sps.length ++ sps ++ [0x01] ++ beBytes 2 pps.length ++ pps =
        configRecordH264 (p.data.slice (spsPos + 1) 3) sps pps := by
    simp only [configRecordH264, sized, List.append_assoc]
  refine ⟨p.data.slice (spsPos + 1) 3, by simp, ?_⟩
  unfold getConfigMetaH264
  rw [hprofile, hsps.read, hpps.read]
  simp only [Call.ret_bind, Int.toNat_natCast, hrecord]
  rw [Area.write_inside (by rw [configRecordH264_length, Mem.slice_length]; omega)]
  rfl

theorem getConfigMetaH265_record (hvps : Stored p vpsPos vps) (hsps : Stored p spsPos sps)
    (hpps : Stored p ppsPos pps) (hlen : 13 ≤ sps.length)
    (hroom : 43 + vps.length + sps.length + pps.length ≤ configBuf.room) :
    ∃ profile, profile.length = 12 ∧
      getConfigMetaH265 p vpsPos vps.length spsPos sps.length ppsPos pps.length configBuf =
        .ret (withRecord configBuf (configRecordH265 profile vps sps pps),
          (configRecordH265 profile vps sps pps).length) := by
  have hin := hsps.inside
  have hprofile : p.read ((spsPos : Int) + 1) 12 = .ret (p.data.slice (spsPos + 1) 12) :=
    Area.read_inside (i := spsPos + 1) (n := 12) (by omega)
  have hrecord : [0x1C, 0x00, 0x00, 0x00, 0x00, 0x00] ++ p.data.slice (spsPos + 1) 12 ++
      List.replicate 9 0x00 ++ [0x03] ++ [0x20, 0x00, 0x01] ++ beBytes 2 vps.length ++ vps ++
      [0x21, 0x00, 0x01] ++ beBytes 2 sps.length ++ sps ++ [0x22, 0x00, 0x01] ++
      beBytes 2 pps.length ++ pps =
        configRecordH265 (p.data.slice (spsPos + 1) 12) vps sps pps := by
    simp only [configRecordH265, sized, List.append_assoc]
  refine ⟨p.data.slice (spsPos + 1) 12, by simp, ?_⟩
  unfold getConfigMetaH265
  rw [hprofile, hvps.read, hsps.read, hpps.read]
  simp only [Call.ret_bind, Int.toNat_natCast, hrecord]
  rw [Area.write_inside (by rw [configRecordH265_length, Mem.slice_length]; omega)]
  rfl

/-- Where a set stands in the record, the byte before it is the lower one of its length. -/
theorem set_of_record (h : buf.slice 0 n = before ++ sized set ++ rest) :
    (buf (before.length + 1)).toNat = set.length % 256 ∧
      buf.slice (before.length + 2) set.length = set := by
  have hset := (Mem.slice_parts (Mem.slice_parts h).1).2
  rw [Nat.zero_add, sized] at hset
  obtain ⟨hlen, hbytes⟩ := Mem.slice_parts hset
  rw [beBytes_length] at hlen hbytes
  constructor
  · have hlow : buf (before.length + 1) = (beBytes 2 set.length).getD 1 0 := by
      rw [← hlen, Mem.slice_getD _ _ (by omega)]
    rw [hlow]
    simp [beBytes]
  · exact hbytes

def sampleOf (set : List UInt8) : YangSample := ⟨set.length, set⟩

/-- From wherever the sets are and whatever was in the buffer for the record, both sets are read as
they were. -/
def RereadH264 (sps pps : List UInt8) : Prop :=
  ∀ (p configBuf : Area) (spsPos ppsPos : Nat), Stored p spsPos sps → Stored p ppsPos pps →
    16 + sps.length + pps.length ≤ configBuf.room →
    ∃ buf nb, getConfigMetaH264 p spsPos sps.length ppsPos pps.length configBuf = .ret (buf, nb) ∧
      decodeMetaH264 buf.data = (sampleOf sps, sampleOf pps)

def RereadH265 (vps sps pps : List UInt8) : Prop :=
  ∀ (p configBuf : Area) (vpsPos spsPos ppsPos : Nat), Stored p vpsPos vps → Stored p spsPos sps →
    Stored p ppsPos pps → 43 + vps.length + sps.length + pps.length ≤ configBuf.room →
    ∃ buf nb, getConfigMetaH265 p vpsPos vps.length spsPos sps.length ppsPos pps.length configBuf =
        .ret (buf, nb) ∧ decodeMetaH265 buf.data = (sampleOf vps, sampleOf sps, sampleOf pps)

/-- The sets one after the other. -/
def inRow (vps sps pps : List UInt8) : Area :=
  ⟨ofList (vps ++ sps ++ pps), (vps ++ sps ++ pps).length⟩

theorem stored_inRow (vps sps pps : List UInt8) : Stored (inRow vps sps pps) 0 vps ∧
    Stored (inRow vps sps pps) vps.length sps ∧
    Stored (inRow vps sps pps) (vps.length + sps.length) pps := by
  have hall : (inRow vps sps pps).data.slice 0 (vps ++ sps ++ pps).length = vps ++ sps ++ pps :=
    slice_ofList _
  have hroom : (inRow vps sps pps).room = vps.length + sps.length + pps.length := by
    simp [inRow, Nat.add_assoc]
  obtain ⟨hfront, hpps⟩ := Mem.slice_parts hall
  obtain ⟨hvps, hsps⟩ := Mem.slice_parts hfront
  rw [Nat.zero_add] at hpps hsps
  rw [List.length_append] at hpps
  exact ⟨⟨by omega, hvps⟩, ⟨by omega, hsps⟩, ⟨by omega, hpps⟩⟩

def recordRoom (n : Nat) : Area := ⟨fun _ => 0, n⟩

/-- The length of the first set is the byte read and one more. -/
theorem not_rereadH264 (hlen : 4 ≤ sps.length) : ¬RereadH264 sps pps := by
  intro h
  obtain ⟨hsps, hpps, _⟩ := stored_inRow sps pps []
  obtain ⟨buf, nb, hcode, hread⟩ := h _ (recordRoom (16 + sps.length + pps.length)) _ _ hsps hpps
    (Nat.le_refl _)
  obtain ⟨profile, hprofile, hrecord⟩ := @getConfigMetaH264_record _
    (recordRoom (16 + sps.length + pps.length)) _ _ _ _ hsps hpps hlen (Nat.le_refl _)
  obtain ⟨rfl, _⟩ := Prod.mk.inj (Call.ret.inj (hcode.symm.trans hrecord))
  have hslice := @withRecord_slice (recordRoom (16 + sps.length + pps.length))
    (configRecordH264 profile sps pps)
  generalize (withRecord (recordRoom (16 + sps.length + pps.length))
    (configRecordH264 profile sps pps)).data = m at hslice hread
  have hset := @set_of_record m sps
    ([0x17, 0x00, 0x00, 0x00, 0x00, 0x01] ++ profile ++ [0xff, 0xe1])
    ([0x01] ++ sized pps) _ (hslice.trans (by simp only [configRecordH264, List.append_assoc]))
  have hpos : ([0x17, 0x00, 0x00, 0x00, 0x00, 0x01] ++ profile ++ [0xff, 0xe1]).length + 1 =
      12 := by
    simp [hprofile]
  rw [hpos] at hset
  have hnb := congrArg (fun sets : YangSample × YangSample => sets.1.nb) hread
  have hlen : (((m 12).toNat + 1 : Nat) : Int) = sps.length := hnb
  omega

theorem decodeMetaH265_reads (hprofile : profile.length = 12)
    (h : buf.slice 0 n = configRecordH265 profile vps sps pps) :
    ((buf 32).toNat = vps.length % 256 ∧ buf.slice 33 vps.length = vps) ∧
    ((buf (37 + vps.length)).toNat = sps.length % 256 ∧
      buf.slice (38 + vps.length) sps.length = sps) ∧
    (buf (42 + vps.length + sps.length)).toNat = pps.length % 256 ∧
      buf.slice (43 + vps.length + sps.length) pps.length = pps := by
  obtain ⟨head, hlen, hrecord⟩ : ∃ head : List UInt8, head.length = 28 ∧
      configRecordH265 profile vps sps pps = head ++ [0x20, 0x00, 0x01] ++ sized vps ++
        [0x21, 0x00, 0x01] ++ sized sps ++ [0x22, 0x00, 0x01] ++ sized pps :=
    ⟨_, by simp [hprofile], rfl⟩
  rw [hrecord] at h
  have hvps := @set_of_record buf vps (head ++ [0x20, 0x00, 0x01])
    ([0x21, 0x00, 0x01] ++ sized sps ++ [0x22, 0x00, 0x01] ++ sized pps) n (by
      simpa only [List.append_assoc] using h)
  have hsps := @set_of_record buf sps
    (head ++ [0x20, 0x00, 0x01] ++ sized vps ++ [0x21, 0x00, 0x01])
    ([0x22, 0x00, 0x01] ++ sized pps) n (by simpa only [List.append_assoc] using h)
  have hpps := @set_of_record buf pps
    (head ++ [0x20, 0x00, 0x01] ++ sized vps ++ [0x21, 0x00, 0x01] ++ sized sps ++
      [0x22, 0x00, 0x01]) [] n (by simpa only [List.append_assoc, List.append_nil] using h)
  simp only [List.length_append, hlen, sized_length, List.length_cons, List.length_nil]
    at hvps hsps hpps
  refine ⟨hvps, ?_, ?_⟩
  · rw [show 37 + vps.length = 28 + 3 + (2 + vps.length) + 3 + 1 by omega,
      show 38 + vps.length = 28 + 3 + (2 + vps.length) + 3 + 2 by omega]
    exact hsps
  · rw [show 42 + vps.length + sps.length =
        28 + 3 + (2 + vps.length) + 3 + (2 + sps.length) + 3 + 1 by omega,
      show 43 + vps.length + sps.length =
        28 + 3 + (2 + vps.length) + 3 + (2 + sps.length) + 3 + 2 by omega]
    exact hpps

theorem decodeMetaH265_iff (hprofile : profile.length = 12)
    (h : buf.slice 0 n = configRecordH265 profile vps sps pps) :
    decodeMetaH265 buf = (sampleOf vps, sampleOf sps, sampleOf pps) ↔
      vps.length < 256 ∧ sps.length < 256 ∧ pps.length < 256 := by
  constructor
  · intro hread
    obtain ⟨hvps, hsets⟩ := Prod.mk.inj hread
    obtain ⟨hsps, hpps⟩ := Prod.mk.inj hsets
    have hlow : ∀ {set bytes : List UInt8} {b : UInt8},
        (⟨b.toNat, bytes⟩ : YangSample) = sampleOf set → set.length < 256 := by
      intro set bytes b hb
      have hlt := b.toNat_lt
      have heq : (b.toNat : Int) = set.length := congrArg YangSample.nb hb
      omega
    exact ⟨hlow hvps, hlow hsps, hlow hpps⟩
  · rintro ⟨hv, hs, hp⟩
    obtain ⟨⟨hvlen, hvset⟩, ⟨hslen, hsset⟩, hplen, hpset⟩ := decodeMetaH265_reads hprofile h
    rw [Nat.mod_eq_of_lt hv] at hvlen
    rw [Nat.mod_eq_of_lt hs] at hslen
    rw [Nat.mod_eq_of_lt hp] at hplen
    have hspos : 32 + vps.length + 5 = 37 + vps.length := by omega
    have hppos : 37 + vps.length + sps.length + 5 = 42 + vps.length + sps.length := by omega
    unfold decodeMetaH265
    simp only [hvlen, hspos, hslen, hppos, hplen]
    rw [show 37 + vps.length + 1 = 38 + vps.length by omega,
      show 42 + vps.length + sps.length + 1 = 43 + vps.length + sps.length by omega, hvset, hsset,
      hpset]
    rfl

theorem rereadH265_iff (hlen : 13 ≤ sps.length) : RereadH265 vps sps pps ↔
    vps.length < 256 ∧ sps.length < 256 ∧ pps.length < 256 := by
  constructor
  · intro h
    obtain ⟨hvps, hsps, hpps⟩ := stored_inRow vps sps pps
    obtain ⟨buf, nb, hcode, hread⟩ := h _
      (recordRoom (43 + vps.length + sps.length + pps.length)) _ _ _ hvps hsps hpps (Nat.le_refl _)
    obtain ⟨profile, hprofile, hrecord⟩ := @getConfigMetaH265_record _
      (recordRoom (43 + vps.length + sps.length + pps.length)) _ _ _ _ _ _ hvps hsps hpps hlen
      (Nat.le_refl _)
    obtain ⟨rfl, _⟩ := Prod.mk.inj (Call.ret.inj (hcode.symm.trans hrecord))
    exact (decodeMetaH265_iff hprofile (withRecord_slice _)).mp hread
  · intro h p configBuf vpsPos spsPos ppsPos hvps hsps hpps hroom
    obtain ⟨profile, hprofile, hrecord⟩ := getConfigMetaH265_record hvps hsps hpps hlen hroom
    exact ⟨_, _, hrecord, (decodeMetaH265_iff hprofile (withRecord_slice _)).mpr h⟩

end Record

/-- A parameter set with at least so many bytes, and a length that two bytes can hold. -/
structure ParameterSet (least : Nat) where
  bytes : List UInt8
  least : least ≤ bytes.length
  fits : bytes.length < 2 ^ 16

/-- What is written for H264 is never read as it was, and for H265 exactly if one byte is enough
for each of the lengths. -/
theorem records_reread (avc : ParameterSet 4) (hevc : ParameterSet 13) (vps pps : ParameterSet 0) :
    ¬RereadH264 avc.bytes pps.bytes ∧
      (RereadH265 vps.bytes hevc.bytes pps.bytes ↔
        vps.bytes.length < 256 ∧ hevc.bytes.length < 256 ∧ pps.bytes.length < 256) :=
  ⟨not_rereadH264 avc.least, rereadH265_iff hevc.least⟩

/-- A set of four bytes is read as one of five. -/
theorem one_byte_more : ¬RereadH264 [0x67, 0x42, 0xc0, 0x1f] [0x68, 0xce, 0x3c, 0x80] :=
  not_rereadH264 (by decide)

end MetaRtc
