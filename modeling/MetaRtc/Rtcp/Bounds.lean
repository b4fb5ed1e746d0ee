import MetaRtc.Rtcp.Progress

/-! # What the sub-packet decoders read -/
namespace MetaRtc

open Bytes YangBuffer Loop

/-- The bytes the decoder reads without asking are there. A transport-wide report is
bounded by its length field, and then by the array it is copied to. -/
def Readable (enableTwcc : Bool) (buf : YangBuffer) : Prop :=
  2 ≤ buf.left ∧ (buf.HeaderOk →
    match subKind enableTwcc buf.hdr with
    | .sr => 28 + buf.hdr.rc * 24 ≤ buf.left
    | .rr => 8 + (buf.hdr.rc : Int) * 24 ≤ buf.left
    | .nack | .pli | .rpsi | .psfb => 12 ≤ buf.left
    | .twcc => 1 ≤ buf.hdr.length ∧ buf.hdr.length ≤ 376
    | .xr | .other | .unread => True)

theorem readable_iff (enableTwcc : Bool) (buf : YangBuffer) :
    (buf.head + (effect enableTwcc buf).reach ≤ buf.size ∧
      (effect enableTwcc buf).overrun = false) ↔ Readable enableTwcc buf := by
  unfold effect SubKind.effect Readable
  by_cases h : buf.HeaderOk
  · obtain ⟨h8, hl⟩ := h
    rw [if_pos ⟨h8, hl⟩]
    simp only [left] at h8 hl ⊢
    cases subKind enableTwcc buf.hdr <;>
      simp only [SubKind.accepted, HeaderOk, left, decide_eq_false_iff_not, and_true, h8, hl,
        forall_const, and_self] <;> omega
  · rw [if_neg h]
    have ho : ((subKind enableTwcc buf.hdr).refused buf).overrun = false := by
      cases subKind enableTwcc buf.hdr <;> rfl
    simp only [ho, h, false_implies, and_true]
    have hr : buf.head + max 2 buf.refused ≤ buf.size ↔ 2 ≤ buf.left := by
      simp only [YangBuffer.refused]
      split <;> simp only [left] at * <;> omega
    have h2 : buf.head + 2 ≤ buf.size ↔ 2 ≤ buf.left := by
      simp only [left]
      omega
    cases subKind enableTwcc buf.hdr <;> first | exact hr | exact h2

theorem reach_pos (enableTwcc : Bool) (buf : YangBuffer) :
    (effect enableTwcc buf).reach ≠ 0 := by
  unfold effect SubKind.effect
  split
  · cases subKind enableTwcc buf.hdr <;> simp [SubKind.accepted]
  · cases subKind enableTwcc buf.hdr <;> simp [SubKind.refused]

/-- The pass from a loop head leaves the cursor without a fault. -/
def PassReads (enableTwcc : Bool) (s : DecodeState) : Prop :=
  (decodeSubPacket enableTwcc s.buf s.heap).1.buf.fault = false

theorem passReads_iff {enableTwcc : Bool} {s : DecodeState} (hb : s.buf.bound = s.buf.size) :
    PassReads enableTwcc s ↔ s.buf.fault = false ∧ Readable enableTwcc s.buf := by
  have hp := reach_pos enableTwcc s.buf
  rw [PassReads, (subPacket_has enableTwcc s.buf s.heap).fault, ← readable_iff,
    Bool.or_eq_false_iff, ← and_assoc]
  refine and_congr_left fun _ => ?_
  rw [← Bool.not_eq_true, take_fault_iff, ← Bool.not_eq_true, hb]
  constructor
  · intro h
    exact ⟨fun hf => h (.inl hf), Nat.le_of_not_lt fun hlt => h (.inr ⟨hp, hlt⟩)⟩
  · rintro ⟨hf, hr⟩ (h | h)
    · exact hf h
    · omega

/-- **Bounds.** No pass over a datagram reads beyond it or copies more than the
destination holds, exactly when every sub-packet start in it is readable. -/
theorem decode_bounds (enableTwcc : Bool) (rtcps : RtcpCompound) (heap : Heap) (data : Mem)
    (size : Nat) :
    (∀ t, Visits (decodePass enableTwcc) ⟨rtcps, initBuffer data size, heap⟩ t →
      t.buf.head < t.buf.size → PassReads enableTwcc t) ↔
    ∀ p, Starts enableTwcc data size 0 p → p < size →
      Readable enableTwcc (bufferAt data size p) := by
  refine Iff.trans ?_ (forall_visits_iff (s := ⟨rtcps, initBuffer data size, heap⟩)
    (fun buf => Readable enableTwcc buf) fun _ => Iff.rfl)
  have hbound : ∀ t, Visits (decodePass enableTwcc) ⟨rtcps, initBuffer data size, heap⟩ t →
      t.buf.bound = t.buf.size := fun t hv =>
    (visits_bound hv).trans (visits_mem hv).2.symm
  constructor
  · intro h t hv hlt
    exact ((passReads_iff (hbound t hv)).mp (h t hv hlt)).2
  · intro h t hv hlt
    apply (passReads_iff (hbound t hv)).mpr
    refine ⟨?_, h t hv hlt⟩
    -- the fault a loop head starts with is that of the pass before it
    induction hv with
    | refl => rfl
    | @tail a b hva hab ih =>
      obtain ⟨hla, hb, _⟩ := pass_next hab
      rw [hb]
      exact (passReads_iff (hbound a hva)).mpr ⟨ih hla, h a hva hla⟩

/-- A receiver report whose header passes the check, announcing one block that is not
there. -/
def shortRR : List UInt8 := [0x81, 201, 0, 1, 0, 0, 0, 1]

theorem shortRR_faults :
    ¬ PassReads false ⟨{}, initBuffer (ofList shortRR) 8, fun _ => 0⟩ := by
  rw [passReads_iff rfl]
  simp [Readable, subKind, HeaderOk, hdr, left, Mem.be, initBuffer, ofList, shortRR,
    RtcpType.sr, RtcpType.rr]

end MetaRtc
