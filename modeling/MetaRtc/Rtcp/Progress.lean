import MetaRtc.Rtcp.Walk

/-! # Progress and termination of the compound loop -/
namespace MetaRtc

open Bytes YangBuffer Loop

/-- The sub-packets a pass accepts without moving: the feedback formats nothing decodes,
and those whose decoder reports that eight bytes are not there to a caller that does not
listen. -/
def Stuck (enableTwcc : Bool) (buf : YangBuffer) : Prop :=
  match subKind enableTwcc buf.hdr with
  | .unread => True
  | .nack | .twcc | .rpsi => buf.left < 8
  | _ => False

theorem stuck_iff (enableTwcc : Bool) (buf : YangBuffer) :
    (effect enableTwcc buf).advance = some 0 ↔ Stuck enableTwcc buf := by
  by_cases h : buf.HeaderOk
  · have h8 : ¬ buf.left < 8 := by
      have := h.1
      omega
    unfold effect SubKind.effect Stuck
    rw [if_pos h]
    cases subKind enableTwcc buf.hdr <;> simp [SubKind.accepted, h8]
  · unfold effect SubKind.effect Stuck
    rw [if_neg h]
    cases subKind enableTwcc buf.hdr <;> simp [SubKind.refused, YangBuffer.refused]

/-- The pass from a loop head returns an error or moves the cursor strictly forward. -/
def Progresses (enableTwcc : Bool) (s : DecodeState) : Prop :=
  match decodePass enableTwcc s with
  | .done (err, _) => err ≠ yangOk
  | .next t => s.buf.head < t.buf.head

variable {enableTwcc : Bool} {s : DecodeState}

theorem progresses_iff (h : s.buf.head < s.buf.size) :
    Progresses enableTwcc s ↔ ¬ Stuck enableTwcc s.buf := by
  rw [← stuck_iff, Progresses]
  cases ha : (effect enableTwcc s.buf).advance with
  | none =>
    rw [pass_error h ha]
    simp [error_ne_ok]
  | some n =>
    obtain ⟨t, ht, _⟩ := pass_goes h ha
    obtain ⟨_, _, m, hm, _, _, _, hh⟩ := pass_next ht
    obtain rfl : n = m := Option.some.inj (ha.symm.trans hm)
    simp only [ht, hh, Option.some.injEq]
    omega

/-- A stuck sub-packet is found again at the next loop head. -/
theorem stuck_stays (h : s.buf.head < s.buf.size ∧ Stuck enableTwcc s.buf) :
    ∃ t, decodePass enableTwcc s = .next t ∧ t.buf.head < t.buf.size ∧
      Stuck enableTwcc t.buf := by
  obtain ⟨hlt, hs⟩ := h
  obtain ⟨t, ht, _⟩ := pass_goes hlt ((stuck_iff enableTwcc s.buf).mpr hs)
  obtain ⟨_, _, n, hn, hd, _, hz, hh⟩ := pass_next ht
  obtain rfl : 0 = n := Option.some.inj (((stuck_iff enableTwcc s.buf).mpr hs).symm.trans hn)
  refine ⟨t, ht, by omega, ?_⟩
  rw [← stuck_iff, effect_bufferAt, hd, hz, hh]
  exact hn

/-- Without a stuck sub-packet the passes allowed are enough. -/
theorem decode_returns
    (h : ∀ t, Visits (decodePass enableTwcc) s t → t.buf.head < t.buf.size →
      ¬ Stuck enableTwcc t.buf) :
    ∃ r, decodeRtcpCompound enableTwcc s = some r := by
  refine run_of_measure (fun t => t.buf.size - t.buf.head) ?_ (Nat.lt_succ_self _)
  intro a b hva hab
  obtain ⟨hlt, _, _, _, _, _, hz, _⟩ := pass_next hab
  have hp := (progresses_iff hlt).mpr (h a hva hlt)
  simp only [Progresses, hab] at hp
  simp only [hz]
  omega

/-- The bound on the passes cuts off no run that would end. -/
theorem decode_bound : (∃ r, decodeRtcpCompound enableTwcc s = some r) ↔
    Terminates (decodePass enableTwcc) s := by
  constructor
  · rintro ⟨r, hr⟩
    exact ⟨_, r, hr⟩
  · intro ht
    refine decode_returns fun t hv hlt hs => ?_
    exact not_terminates_of_trap (fun _ => stuck_stays) hv ⟨hlt, hs⟩ ht

theorem terminates_iff : Terminates (decodePass enableTwcc) s ↔
    ∀ t, Visits (decodePass enableTwcc) s t → t.buf.head < t.buf.size →
      ¬ Stuck enableTwcc t.buf := by
  constructor
  · intro ht t hv hlt hs
    exact not_terminates_of_trap (fun _ => stuck_stays) hv ⟨hlt, hs⟩ ht
  · exact fun h => decode_bound.mp (decode_returns h)

/-- **Progress.** The compound decoder ends on a datagram, and every pass of it
progresses, exactly when no sub-packet start in the datagram is stuck. -/
theorem decode_progress (enableTwcc : Bool) (rtcps : RtcpCompound) (heap : Heap) (data : Mem)
    (size : Nat) :
    (Terminates (decodePass enableTwcc) ⟨rtcps, initBuffer data size, heap⟩ ∧
      ∀ t, Visits (decodePass enableTwcc) ⟨rtcps, initBuffer data size, heap⟩ t →
        t.buf.head < t.buf.size → Progresses enableTwcc t) ↔
    ∀ p, Starts enableTwcc data size 0 p → p < size →
      ¬ Stuck enableTwcc (bufferAt data size p) := by
  refine Iff.trans ?_ (forall_visits_iff (s := ⟨rtcps, initBuffer data size, heap⟩)
    (fun buf => ¬ Stuck enableTwcc buf) fun _ => Iff.rfl)
  constructor
  · exact fun h t hv hlt => (progresses_iff hlt).mp (h.2 t hv hlt)
  · exact fun h => ⟨terminates_iff.mpr h, fun t hv hlt => (progresses_iff hlt).mpr (h t hv hlt)⟩

/-- A bandwidth request (format 3 of transport-layer feedback), which nothing decodes. -/
def tmmbr : List UInt8 := [0x83, 205, 0, 2, 0, 0, 0, 1, 0, 0, 0, 2]

theorem tmmbr_hangs :
    ¬ (Terminates (decodePass false) ⟨{}, initBuffer (ofList tmmbr) 12, fun _ => 0⟩ ∨
      Progresses false ⟨{}, initBuffer (ofList tmmbr) 12, fun _ => 0⟩) := by
  have hs : Stuck false (initBuffer (ofList tmmbr) 12) := by
    simp [Stuck, subKind, hdr, initBuffer, ofList, tmmbr, RtcpType.sr, RtcpType.rr,
      RtcpType.rtpfb]
  rintro (h | h)
  · exact terminates_iff.mp h _ .refl (by decide) hs
  · exact (progresses_iff (by decide)).mp h hs

end MetaRtc
