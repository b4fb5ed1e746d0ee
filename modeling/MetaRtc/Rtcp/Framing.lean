import MetaRtc.Rtcp.Progress

/-! # Sub-packet framing

The length field announces `4 * (length + 1)` bytes. The decoders that follow it land on
the next sub-packet; those that move by what they read of the body do so only when the
body has exactly that. -/
namespace MetaRtc

open Bytes YangBuffer Loop

/-- The sub-packet is accepted: its header check passes or is not listened to. -/
def Accepted (enableTwcc : Bool) (buf : YangBuffer) : Prop :=
  match subKind enableTwcc buf.hdr with
  | .nack | .twcc | .rpsi | .unread => True
  | _ => buf.HeaderOk

/-- The length field is the one the decoder takes for granted. -/
def Framed (enableTwcc : Bool) (buf : YangBuffer) : Prop :=
  match subKind enableTwcc buf.hdr with
  | .sr => buf.hdr.length = 6 + buf.hdr.rc * 6
  | .rr => buf.hdr.length = 1 + buf.hdr.rc * 6
  | .nack => buf.HeaderOk ∧ 2 ≤ buf.hdr.length
  | .twcc | .rpsi => buf.HeaderOk
  | .pli => buf.hdr.length = 2
  | .psfb | .xr => True
  | .other => buf.hdr.length = 1
  | .unread => False

theorem accepted_iff (enableTwcc : Bool) (buf : YangBuffer) :
    (effect enableTwcc buf).advance ≠ none ↔ Accepted enableTwcc buf := by
  unfold effect SubKind.effect Accepted
  by_cases h : buf.HeaderOk
  · rw [if_pos h]
    cases subKind enableTwcc buf.hdr <;> simp [SubKind.accepted, h]
  · rw [if_neg h]
    cases subKind enableTwcc buf.hdr <;> simp [SubKind.refused, h]

/-- A refused header never moves the cursor over the packet it announces. -/
theorem refused_short {buf : YangBuffer} (h : ¬ buf.HeaderOk) :
    buf.refused ≠ 4 * (buf.hdr.length + 1) := by
  intro he
  refine h ?_
  unfold YangBuffer.refused at he
  split at he <;> exact ⟨by omega, by omega⟩

theorem framed_iff {enableTwcc : Bool} {buf : YangBuffer} (ha : Accepted enableTwcc buf) :
    (effect enableTwcc buf).advance = some (4 * (buf.hdr.length + 1)) ↔
      Framed enableTwcc buf := by
  unfold effect SubKind.effect Framed
  unfold Accepted at ha
  by_cases h : buf.HeaderOk
  · rw [if_pos h]
    cases subKind enableTwcc buf.hdr <;>
      simp only [SubKind.accepted, h, Option.some.injEq, true_and, iff_false] <;> omega
  · rw [if_neg h]
    have hr := refused_short h
    revert ha
    cases subKind enableTwcc buf.hdr <;> simp [SubKind.refused, h, hr]

/-- What the loop does at a head it goes on from leaves the cursor at the end of the
announced packet. -/
def LandsOnNext (enableTwcc : Bool) (s : DecodeState) : Prop :=
  ∀ t, decodePass enableTwcc s = .next t →
    t.buf.head = s.buf.head + 4 * (s.buf.hdr.length + 1)

theorem landsOnNext_iff {enableTwcc : Bool} {s : DecodeState} (h : s.buf.head < s.buf.size) :
    LandsOnNext enableTwcc s ↔ (Accepted enableTwcc s.buf → Framed enableTwcc s.buf) := by
  constructor
  · intro hl ha
    obtain ⟨n, hn⟩ := Option.ne_none_iff_exists'.mp ((accepted_iff enableTwcc s.buf).mpr ha)
    obtain ⟨t, ht, _⟩ := pass_goes h hn
    obtain ⟨_, _, m, hm, _, _, _, hh⟩ := pass_next ht
    rw [← framed_iff ha, hm]
    have := hl t ht
    exact congrArg some (by omega)
  · intro hf t ht
    obtain ⟨_, _, n, hn, _, _, _, hh⟩ := pass_next ht
    have ha := (accepted_iff enableTwcc s.buf).mp (by simp [hn])
    have hn' := (framed_iff ha).mpr (hf ha)
    rw [hh, Option.some.inj (hn.symm.trans hn')]

/-- **Framing.** Every accepted sub-packet of a datagram ends where its length field says
exactly when each one's length field is what its decoder takes for granted. -/
theorem decode_framing (enableTwcc : Bool) (rtcps : RtcpCompound) (heap : Heap) (data : Mem)
    (size : Nat) :
    (∀ t, Visits (decodePass enableTwcc) ⟨rtcps, initBuffer data size, heap⟩ t →
      t.buf.head < t.buf.size → LandsOnNext enableTwcc t) ↔
    ∀ p, Starts enableTwcc data size 0 p → p < size →
      Accepted enableTwcc (bufferAt data size p) → Framed enableTwcc (bufferAt data size p) := by
  refine Iff.trans ?_ (forall_visits_iff (s := ⟨rtcps, initBuffer data size, heap⟩)
    (fun buf => Accepted enableTwcc buf → Framed enableTwcc buf) fun _ => Iff.rfl)
  refine forall_congr' fun t => forall_congr' fun _ => forall_congr' fun hlt => ?_
  exact landsOnNext_iff hlt

/-- Three sources leave. The second and third identifiers are taken for a packet of
their own. -/
def byeThree : List UInt8 := [0x83, 203, 0, 3, 0, 0, 0, 9, 0, 0, 0, 1, 0, 0, 0, 7]

theorem byeThree_unframed :
    ((decodeRtcpCompound false ⟨{}, initBuffer (ofList byeThree) 16, fun _ => 0⟩).map
      fun r => (r.1, r.2.rtcps.rtcpVector.length)) = some (yangOk, 2) ∧
    ¬ LandsOnNext false ⟨{}, initBuffer (ofList byeThree) 16, fun _ => 0⟩ := by
  refine ⟨by decide, ?_⟩
  rw [landsOnNext_iff (by decide)]
  simp [Accepted, Framed, subKind, HeaderOk, hdr, left, Mem.be, initBuffer, ofList, byeThree,
    RtcpType.sr, RtcpType.rr, RtcpType.rtpfb, RtcpType.psfb, RtcpType.xr]

end MetaRtc
