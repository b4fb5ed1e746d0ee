import MetaRtc.Play.Track
import MetaRtc.Publish.Resend

/-! # Whether a packet begins a key frame, at its arrival and from the cache

The type of a fragment's unit is in the fragment's headers, which the cached copy has
behind it. What is read there is a byte of the unit. -/
namespace MetaRtc

open Bytes Exec

def VideoCodec.play : VideoCodec → PlayCodec
  | .h264 => playH264
  | .h265 => playH265

/-- The classifier of the copy that a slot of the cache gets. -/
def isKeyframeCached (codec : PlayCodec) (ring : Mem) (pkt : RtpPacket) (slot : PacketCache) :
    Call Bool := do
  let pkt ← copyPacket codec ring pkt slot
  isKeyframe2 codec ring pkt

/-- Where the copy of a fragment begins in the packet's payload. One too short for its headers
keeps them. -/
def fuOffset (codec : VideoCodec) (nb : Nat) : Nat :=
  match codec with
  | .h264 => if nb < 2 then 0 else 2
  | .h265 => if nb < 3 then 0 else 3

/-- The byte where a fragment's copy begins has the type of an IDR unit, read as H264 has it,
exactly where the fragment's header has the type of a key unit. -/
def FuAgrees (codec : VideoCodec) (ring : Mem) (pkt : RtpPacket) : Prop :=
  pkt.naluType = codec.play.fuA → ∀ p, pkt.payload = some p →
    (codec.play.fuKey (ring (p + codec.play.fuNalu)) = true ↔
      ring (p + fuOffset codec pkt.nb) &&& kNalTypeMask = yangAvcNaluTypeIDR)

variable {ring : Mem} {pkt : RtpPacket} {slot : PacketCache}

theorem decodeFua2_head (codec : VideoCodec) (data : Mem) (nb : Nat) (fua2 : Fua2DataCache) :
    (codec.play.decodeFua2 (initBuffer data nb) fua2).2.2.head = fuOffset codec nb := by
  cases codec with
  | h264 =>
    show (decodeH264Fua2 (initBuffer data nb) fua2).2.2.head = if nb < 2 then 0 else 2
    unfold decodeH264Fua2
    by_cases h : nb < 2
    · rw [YangBuffer.initBuffer_refuses (by omega), if_pos h]
      rfl
    · rw [YangBuffer.initBuffer_requires (by decide) (by omega), if_neg h]
      dsimp only
      rw [if_neg (by decide)]
      split <;> rfl
  | h265 =>
    show (decodeH265Fua2 (initBuffer data nb) fua2).2.2.head = if nb < 3 then 0 else 3
    unfold decodeH265Fua2
    by_cases h : nb < 3
    · rw [YangBuffer.initBuffer_refuses (by omega), if_pos h]
      rfl
    · rw [YangBuffer.initBuffer_requires (by decide) (by omega), if_neg h]
      dsimp only
      rw [if_neg (by decide)]
      split <;> rfl

/-- A packet that is no fragment is cached with its type and payload as they are. -/
theorem cached_plain {codec : PlayCodec} (hfu : pkt.naluType ≠ codec.fuA) :
    isKeyframeCached codec ring pkt slot = isKeyframe codec ring pkt := by
  have hcopy : ∃ copy, copyPacket codec ring pkt slot = .ret copy ∧
      copy.naluType = pkt.naluType ∧ copy.payload = pkt.payload := by
    unfold copyPacket
    dsimp only
    rw [if_neg hfu]
    exact ⟨_, rfl, rfl, rfl⟩
  obtain ⟨copy, hret, htype, hpayload⟩ := hcopy
  rw [isKeyframeCached, hret, Call.ret_bind, isKeyframe2, isKeyframe, htype, hpayload,
    if_neg hfu, if_neg hfu]

theorem cached_fragment {codec : VideoCodec} (hfu : pkt.naluType = codec.play.fuA) {p : Nat}
    (hp : pkt.payload = some p) :
    isKeyframeCached codec.play ring pkt slot =
      .ret (decide (ring (p + fuOffset codec pkt.nb) &&& kNalTypeMask = yangAvcNaluTypeIDR)) := by
  have hne : codec.play.fuA ≠ codec.play.stapA := by cases codec <;> decide
  have hcopy : ∃ copy, copyPacket codec.play ring pkt slot = .ret copy ∧
      copy.naluType = codec.play.fuA ∧ copy.payload = some (p + fuOffset codec pkt.nb) := by
    unfold copyPacket
    dsimp only
    rw [if_pos hfu, hp, Call.deref_some, Call.ret_bind]
    exact ⟨_, rfl, hfu, by rw [← decodeFua2_head codec (ring.drop p) pkt.nb slot.fua2]⟩
  obtain ⟨copy, hret, htype, hpayload⟩ := hcopy
  rw [isKeyframeCached, hret, Call.ret_bind, isKeyframe2, htype, if_neg hne, if_pos rfl, hpayload,
    Call.deref_some, Call.ret_bind]
  rfl

/-- The two classifiers give the same answer, or the same fault, exactly when the byte behind a
fragment's headers happens to look like them. -/
theorem classifiers_agree_iff (codec : VideoCodec) (ring : Mem) (pkt : RtpPacket)
    (slot : PacketCache) :
    isKeyframe codec.play ring pkt = isKeyframeCached codec.play ring pkt slot ↔
      FuAgrees codec ring pkt := by
  by_cases hfu : pkt.naluType = codec.play.fuA
  · have hne : codec.play.fuA ≠ codec.play.stapA := by cases codec <;> decide
    cases hp : pkt.payload with
    | none =>
      refine iff_of_true ?_ fun _ p hsome => by cases hp.symm.trans hsome
      simp [isKeyframe, isKeyframeCached, copyPacket, hfu, hne, hp, Call.deref]
    | some p =>
      have harrival : isKeyframe codec.play ring pkt =
          .ret (codec.play.fuKey (ring (p + codec.play.fuNalu))) := by
        rw [isKeyframe, hfu, if_neg hne, if_pos rfl, hp, Call.deref_some, Call.ret_bind]
        rfl
      have hagrees : FuAgrees codec ring pkt ↔
          (codec.play.fuKey (ring (p + codec.play.fuNalu)) = true ↔
            ring (p + fuOffset codec pkt.nb) &&& kNalTypeMask = yangAvcNaluTypeIDR) := by
        constructor
        · intro h
          exact h hfu p hp
        · rintro h - q hq
          cases hp.symm.trans hq
          exact h
      rw [harrival, cached_fragment hfu hp, hagrees, Call.ret.injEq, Bool.eq_iff_iff,
        decide_eq_true_iff]
  · exact iff_of_true (cached_plain hfu).symm fun h => absurd h hfu

/-- The first fragment of an IDR unit is a key frame at its arrival and none in the cache. -/
theorem idr_fragment_disagrees :
    let ring := ofList [0x7C, 0x85, 0x88, 0x84]
    let pkt : RtpPacket :=
      { payload := some 0, nb := 4, naluType := playH264.naluType (ring 0) }
    isKeyframe playH264 ring pkt = .ret true ∧ isKeyframeCached playH264 ring pkt {} = .ret false := by
  decide +kernel

end MetaRtc
