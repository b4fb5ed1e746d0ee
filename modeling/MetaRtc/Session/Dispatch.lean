import MetaRtc.Rtcp.Walk
import MetaRtc.Session.Receive

/-! # Handlers find what decoding has made

The handlers go by a packet's type, the decoder by its type and format. They agree: an
element of the vector has the sub-structures its type is taken to promise. -/
namespace MetaRtc

open Bytes Exec YangBuffer Loop

/-- The sub-structures that some handler follows a pointer to. A transport-wide report
shares its type with the retransmission requests but goes to a handler of its own. -/
structure RtcpCommon.Complete (rtcp : RtcpCommon) : Prop where
  sr : rtcp.header.type = RtcpType.sr → rtcp.sr.isSome
  rr : rtcp.header.type = RtcpType.rr → rtcp.rb.isSome
  nack : rtcp.header.type = RtcpType.rtpfb → rtcp.header.rc = 15 ∨ rtcp.nack.isSome
  xr : rtcp.header.type = RtcpType.xr → rtcp.data.isSome

namespace RtcpCommon.Complete

variable {rtcp : RtcpCommon}

theorem of_sr (h : rtcp.header.type = RtcpType.sr) (hs : rtcp.sr.isSome) : rtcp.Complete where
  sr _ := hs
  rr k := absurd (h.symm.trans k) (by decide)
  nack k := absurd (h.symm.trans k) (by decide)
  xr k := absurd (h.symm.trans k) (by decide)

theorem of_rr (h : rtcp.header.type = RtcpType.rr) (hs : rtcp.rb.isSome) : rtcp.Complete where
  sr k := absurd (h.symm.trans k) (by decide)
  rr _ := hs
  nack k := absurd (h.symm.trans k) (by decide)
  xr k := absurd (h.symm.trans k) (by decide)

theorem of_rtpfb (h : rtcp.header.type = RtcpType.rtpfb)
    (hs : rtcp.header.rc = 15 ∨ rtcp.nack.isSome) : rtcp.Complete where
  sr k := absurd (h.symm.trans k) (by decide)
  rr k := absurd (h.symm.trans k) (by decide)
  nack _ := hs
  xr k := absurd (h.symm.trans k) (by decide)

theorem of_psfb (h : rtcp.header.type = RtcpType.psfb) : rtcp.Complete where
  sr k := absurd (h.symm.trans k) (by decide)
  rr k := absurd (h.symm.trans k) (by decide)
  nack k := absurd (h.symm.trans k) (by decide)
  xr k := absurd (h.symm.trans k) (by decide)

theorem of_xr (h : rtcp.header.type = RtcpType.xr) (hs : rtcp.data.isSome) : rtcp.Complete where
  sr k := absurd (h.symm.trans k) (by decide)
  rr k := absurd (h.symm.trans k) (by decide)
  nack k := absurd (h.symm.trans k) (by decide)
  xr _ := hs

/-- A packet of a type that no handler asks anything of. -/
theorem of_other (hsr : rtcp.header.type ≠ RtcpType.sr) (hrr : rtcp.header.type ≠ RtcpType.rr)
    (hfb : rtcp.header.type ≠ RtcpType.rtpfb) (hxr : rtcp.header.type ≠ RtcpType.xr) :
    rtcp.Complete where
  sr k := absurd k hsr
  rr k := absurd k hrr
  nack k := absurd k hfb
  xr k := absurd k hxr

end RtcpCommon.Complete

section Decoding

open RtcpCommon.Complete

variable {buf : YangBuffer} {comm : RtcpCommon}

theorem sr_complete (hc : comm.sr.isSome) (ht : buf.hdr.type = RtcpType.sr)
    (he : (decodeRtcpSR comm buf).err = yangOk) : (decodeRtcpSR comm buf).comm.Complete := by
  obtain ⟨header, ssrc, hcomm, _, hok⟩ := start_comm comm buf
  unfold decodeRtcpSR at he ⊢
  simp only at he ⊢
  split at he
  · rename_i hne
    exact absurd he hne
  · rename_i hstart
    obtain rfl := hok (not_not.mp hstart)
    rw [if_neg hstart]
    exact of_sr (by simpa [hcomm] using ht) (by simpa [hcomm] using hc)

theorem rr_complete (hc : comm.rb.isSome) (ht : buf.hdr.type = RtcpType.rr)
    (he : (decodeRtcpRR comm buf).err = yangOk) : (decodeRtcpRR comm buf).comm.Complete := by
  obtain ⟨header, ssrc, hcomm, _, hok⟩ := start_comm comm buf
  have hempty : errorRtcRtcpEmptyRR ≠ yangOk := by decide
  unfold decodeRtcpRR at he ⊢
  simp only [Option.isNone_eq_false_iff.mpr hc, Bool.false_eq_true, ite_false] at he ⊢
  split at he
  · rename_i hne
    exact absurd he hne
  · rename_i hstart
    obtain rfl := hok (not_not.mp hstart)
    split at he
    · exact absurd he hempty
    · rename_i hrc
      rw [if_neg hstart, if_neg hrc]
      exact of_rr (by simpa [hcomm] using ht) rfl

theorem nack_complete (hc : comm.nack.isSome) (ht : buf.hdr.type = RtcpType.rtpfb)
    (hm : comm.header.type = RtcpType.rtpfb) : (decodeRtcpNack comm buf).comm.Complete := by
  obtain ⟨header, ssrc, hcomm, hheader, _⟩ := start_comm comm buf
  have htype : header.type = RtcpType.rtpfb := by
    rcases hheader with rfl | rfl
    · exact hm
    · exact ht
  unfold decodeRtcpNack
  simp only
  split
  · exact of_rtpfb (by simpa [hcomm] using htype) (.inr (by simpa [hcomm] using hc))
  · exact of_rtpfb (by simpa [hcomm] using htype) (.inr (by simpa [hcomm] using hc))

theorem twcc_complete (ht : buf.hdr.type = RtcpType.rtpfb ∧ buf.hdr.rc = 15)
    (hm : comm.header.type = RtcpType.rtpfb ∧ comm.header.rc = 15) :
    (twccRtcpDecode comm buf).comm.Complete := by
  obtain ⟨header, ssrc, hcomm, hheader, _⟩ := start_comm comm buf
  have htype : header.type = RtcpType.rtpfb ∧ header.rc = 15 := by
    rcases hheader with rfl | rfl
    · exact hm
    · exact ht
  unfold twccRtcpDecode
  simp only
  split
  · exact of_rtpfb (by simpa [hcomm] using htype.1) (.inl (by simpa [hcomm] using htype.2))
  · exact of_rtpfb (by simpa [hcomm] using htype.1) (.inl (by simpa [hcomm] using htype.2))

theorem psfb_header (ht : buf.hdr.type = RtcpType.psfb) (hm : comm.header.type = RtcpType.psfb) :
    (decodeStart comm buf).comm.header.type = RtcpType.psfb := by
  obtain ⟨header, ssrc, hcomm, hheader, _⟩ := start_comm comm buf
  rw [hcomm]
  rcases hheader with rfl | rfl
  · exact hm
  · exact ht

theorem pli_complete (ht : buf.hdr.type = RtcpType.psfb) (hm : comm.header.type = RtcpType.psfb) :
    (decodeRtcpPli comm buf).comm.Complete := by
  have hh := psfb_header ht hm
  unfold decodeRtcpPli
  simp only
  split <;> exact of_psfb hh

theorem rpsi_complete (ht : buf.hdr.type = RtcpType.psfb) (hm : comm.header.type = RtcpType.psfb) :
    (decodeRtcpRpsi comm buf).comm.Complete := by
  have hh := psfb_header ht hm
  unfold decodeRtcpRpsi
  simp only
  split <;> exact of_psfb hh

theorem psfb_complete (ht : buf.hdr.type = RtcpType.psfb) (hm : comm.header.type = RtcpType.psfb) :
    (decodeRtcpPsfb comm buf).comm.Complete := by
  have hh := psfb_header ht hm
  unfold decodeRtcpPsfb
  simp only
  split <;> exact of_psfb hh

theorem xr_complete (ht : buf.hdr.type = RtcpType.xr) (hm : comm.header.type = RtcpType.xr) :
    (decodeRtcpXr comm buf).comm.Complete := by
  obtain ⟨header, ssrc, hcomm, hheader, _⟩ := start_comm comm buf
  have htype : header.type = RtcpType.xr := by
    rcases hheader with rfl | rfl
    · exact hm
    · exact ht
  unfold decodeRtcpXr
  simp only
  split
  · exact of_xr (by simpa [hcomm] using htype) (by simp [hcomm])
  · exact of_xr (by simpa [hcomm] using htype) (by simp [hcomm])

theorem other_complete (hsr : buf.hdr.type ≠ RtcpType.sr) (hrr : buf.hdr.type ≠ RtcpType.rr)
    (hfb : buf.hdr.type ≠ RtcpType.rtpfb) (hxr : buf.hdr.type ≠ RtcpType.xr)
    (he : (decodeRtcpCommon comm buf).err = yangOk) : (decodeRtcpCommon comm buf).comm.Complete := by
  by_cases h : buf.HeaderOk
  · rw [decodeRtcpCommon, header_accepts h]
    exact of_other hsr hrr hfb hxr
  · rw [decodeRtcpCommon, header_refuses h] at he
    exact absurd he error_ne_ok

/-- A packet that nothing was decoded of has no type. -/
theorem unread_complete : RtcpCommon.Complete {} :=
  of_other (by decide) (by decide) (by decide) (by decide)

/-- What a pass keeps has what the handlers will follow. -/
theorem subPacket_complete (enableTwcc : Bool) (buf : YangBuffer) (heap : Heap)
    (he : (decodeSubPacket enableTwcc buf heap).1.err = yangOk) :
    (decodeSubPacket enableTwcc buf heap).1.comm.Complete := by
  revert he
  unfold decodeSubPacket
  simp only
  split
  · rename_i ht
    exact sr_complete rfl ht
  split
  · rename_i ht
    exact rr_complete rfl ht
  split
  · rename_i ht
    split
    · exact fun _ => nack_complete rfl ht rfl
    split
    · rename_i hrc
      split
      · exact fun _ => twcc_complete ⟨ht, hrc.symm⟩ ⟨rfl, rfl⟩
      · exact fun _ => unread_complete
    · exact fun _ => unread_complete
  split
  · rename_i ht
    split
    · exact fun _ => pli_complete ht rfl
    split
    · exact fun _ => unread_complete
    split
    · exact fun _ => rpsi_complete ht rfl
    · exact fun _ => psfb_complete ht rfl
  split
  · rename_i ht
    exact fun _ => xr_complete ht rfl
  · rename_i hsr hrr hfb _ hxr
    exact other_complete hsr hrr hfb hxr

end Decoding

/-- Each element of the session's vector is complete. -/
def AllComplete (rtcps : RtcpCompound) : Prop := ∀ rtcp ∈ rtcps.rtcpVector, rtcp.Complete

theorem pass_complete {enableTwcc : Bool} {s t : DecodeState} (h : AllComplete s.rtcps)
    (hs : decodePass enableTwcc s = .next t) : AllComplete t.rtcps := by
  obtain ⟨hlt, _, n, ha, _⟩ := pass_next hs
  cases hk : (effect enableTwcc s.buf).kept with
  | true =>
    rw [pass_kept hlt ha hk] at hs
    cases hs
    intro rtcp hm
    rcases List.mem_append.mp hm with hm | hm
    · exact h rtcp hm
    · rw [List.mem_singleton.mp hm]
      apply subPacket_complete
      rw [(subPacket_has enableTwcc s.buf s.heap).err, ha, hk]
      rfl
  | false =>
    rw [pass_dropped hlt ha hk] at hs
    cases hs
    exact h

theorem decode_complete {enableTwcc : Bool} {s t : DecodeState} {err : Err}
    (h : AllComplete s.rtcps) (hd : decodeRtcpCompound enableTwcc s = some (err, t)) :
    AllComplete t.rtcps := by
  obtain ⟨u, hv, hu⟩ := run_last hd
  have hcu : AllComplete u.rtcps :=
    visits_invariant (P := fun u => AllComplete u.rtcps) hv h
      fun a b _ ha hab => pass_complete ha hab
  rcases Nat.lt_or_ge u.buf.head u.buf.size with hlt | hge
  · cases ha : (effect enableTwcc u.buf).advance with
    | none =>
      rw [pass_error hlt ha] at hu
      cases hu
      exact hcu
    | some n =>
      obtain ⟨v, hv', _⟩ := pass_goes hlt ha
      rw [hv'] at hu
      cases hu
  · rw [pass_empty hge] at hu
    cases hu
    exact hcu

section Handlers

variable {env : SessionEnv} {s : Streams} {rtcp : RtcpCommon}

theorem encRtp_safe (env : Env) (pub : Publisher) (m : Media) (data : Option Nat) (nb : Nat) :
    encRtp env pub m data nb ≠ .crash := by
  unfold encRtp
  split
  · simp
  split
  · simp
  simp only
  split <;> simp

theorem resend_safe (env : Env) (pub : Publisher) (m : Media) (seq : Nat) :
    resend env pub m seq ≠ .crash := by
  unfold resend
  split
  · simp
  · apply Call.bind_ne_crash (encRtp_safe _ _ _ _ _)
    rintro ⟨err, packet, pub'⟩ _
    simp only
    split <;> simp

theorem onRecvNack_safe (env : Env) (m : Media) (nacks : List Nat) (pub : Publisher) :
    rtcpushOnRecvNack env m nacks pub ≠ .crash := by
  induction nacks generalizing pub with
  | nil => simp [rtcpushOnRecvNack]
  | cons seq rest ih =>
    apply Call.bind_ne_crash (resend_safe _ _ _ _)
    rintro ⟨err, pub'⟩ _
    simp only
    split
    · simp
    · exact ih _

theorem onNack_safe (h : rtcp.nack.isSome) : rtcpushOnNack env s rtcp ≠ .crash := by
  apply Call.bind_ne_crash (Call.deref_ne_crash h)
  intro nack _
  apply Call.bind_ne_crash
  · unfold rtcpushOnRtcpNack
    split
    · simp
    split
    · simp
    · exact onRecvNack_safe _ _ _ _
  · intro r _
    simp

theorem onRecvRR_safe (h : rtcp.rb.isSome) (m : Media) : statsOnRecvRR env s m rtcp ≠ .crash := by
  apply Call.bind_ne_crash (Call.deref_ne_crash h)
  intro rb _
  simp

theorem pushOnRtcp_safe (h : rtcp.Complete)
    (hrc : ¬ (rtcp.header.type = RtcpType.rtpfb ∧ rtcp.header.rc = 15)) :
    rtcpushOnRtcp env s rtcp ≠ .crash := by
  unfold rtcpushOnRtcp
  split
  · rename_i ht
    unfold rtcpushOnRtcpRr
    split
    · exact onRecvRR_safe (h.rr ht) _
    split
    · exact onRecvRR_safe (h.rr ht) _
    · simp
  split
  · rename_i ht
    exact onNack_safe ((h.nack ht).resolve_left fun h15 => hrc ⟨ht, h15⟩)
  split
  · unfold rtcpushOnRtcpPsFeedback
    simp only
    repeat' split
    all_goals simp
  · simp

theorem playOnRtcp_safe (h : rtcp.Complete) (memory : Mem) :
    rtcplayOnRtcp env memory s rtcp ≠ .crash := by
  unfold rtcplayOnRtcp
  split
  · rename_i ht
    apply Call.bind_ne_crash (Call.deref_ne_crash (h.sr ht))
    intro sr _
    simp
  split
  · rename_i ht
    apply Call.bind_ne_crash (Call.deref_ne_crash (h.xr ht))
    intro data _
    simp only
    split
    · simp
    split <;> simp
  · simp

theorem onStreams_safe (h : rtcp.Complete)
    (hrc : ¬ (rtcp.header.type = RtcpType.rtpfb ∧ rtcp.header.rc = 15)) (memory : Mem) :
    onStreams env memory s rtcp ≠ .crash := by
  apply Call.bind_ne_crash
  · split
    · exact pushOnRtcp_safe h hrc
    · simp
  · intro r _
    simp only
    split
    · simp
    split
    · exact playOnRtcp_safe h memory
    · simp

/-- Complete packets take the handlers through no null pointer. -/
theorem dispatch_safe (h : rtcp.Complete) (memory : Mem) :
    rtcconnDispatchRtcp env memory s rtcp ≠ .crash := by
  unfold rtcconnDispatchRtcp
  split
  · unfold rtcconnOnRtcpFeedbackTwcc
    split
    · split <;> simp
    · simp
  rename_i hrc
  split
  · simp
  split
  · rename_i ht
    apply Call.bind_ne_crash (Call.deref_ne_crash (h.rr ht))
    intro rb _
    split
    · simp
    · exact onStreams_safe h hrc memory
  · exact onStreams_safe h hrc memory

end Handlers

/-- What a call leaves in the vector is complete again. -/
theorem step_complete {env : SessionEnv} {s s' : RtcpSession} {d : RtcpDatagram}
    (h : AllComplete s.rtcps) (hs : RtcpStep env s d s') : AllComplete s'.rtcps := by
  obtain ⟨err, hs⟩ := hs
  by_cases hok : decRtcp s.streams.pub.srtp d.status = yangOk
  · obtain ⟨e, t, hd, ⟨_, rfl⟩ | ⟨_, streams, log, _, rfl⟩⟩ := onRtcp_passed hok hs
    · exact decode_complete (s := s.decodeState d) h hd
    · intro rtcp hm
      cases hm
  · obtain ⟨e, hr⟩ := onRtcp_refused env hok
    cases hr.symm.trans hs
    exact h

/-- After any run of datagrams, each packet that one more yields finds in the handlers no
null pointer, whatever the streams have become. -/
theorem dispatch_finds_decoded (env : SessionEnv) (streams : Streams) (ds : List RtcpDatagram)
    (s : RtcpSession) (d : RtcpDatagram) (t : DecodeState)
    (hrun : Run.Leads (RtcpStep env) ds { streams } s)
    (hd : decodeRtcpCompound env.enableTwcc (s.decodeState d) = some (yangOk, t)) :
    ∀ rtcp ∈ t.rtcps.rtcpVector, ∀ memory streams',
      rtcconnDispatchRtcp env memory streams' rtcp ≠ .crash := by
  have hs : AllComplete s.rtcps := by
    apply Run.leads_invariant (P := fun _ _ => True) (fun s => AllComplete s.rtcps)
      (fun a e b ha _ hab => step_complete ha hab) hrun
    · intro rtcp hm
      cases hm
    · exact Run.throughout_of_forall fun _ _ => trivial
  intro rtcp hm memory streams'
  exact dispatch_safe (decode_complete (s := s.decodeState d) hs hd rtcp hm) memory

theorem dispatch_finds_decoded_report : ∃ t,
    decodeRtcpCompound false (demoSession.decodeState ⟨0, ofList oneReport, 32⟩) =
      some (yangOk, t) ∧ t.rtcps.rtcpVector.length = 1 ∧
    ∀ rtcp ∈ t.rtcps.rtcpVector, ∀ memory streams,
      rtcconnDispatchRtcp demoEnv memory streams rtcp ≠ .crash := by
  have hd : (decodeRtcpCompound false (demoSession.decodeState ⟨0, ofList oneReport, 32⟩)).map
      (fun r => (r.1, r.2.rtcps.rtcpVector.length)) = some (yangOk, 1) := by
    decide +kernel
  obtain ⟨⟨err, t⟩, ht, hr⟩ := Option.map_eq_some_iff.mp hd
  obtain ⟨rfl, hlen⟩ := Prod.mk.inj hr
  exact ⟨t, ht, hlen, dispatch_finds_decoded demoEnv demoSession.streams [] demoSession _ t
    (.nil _) ht⟩

end MetaRtc
