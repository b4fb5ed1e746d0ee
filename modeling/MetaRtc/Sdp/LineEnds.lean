import MetaRtc.Lib.Run
import MetaRtc.Sdp.Readings
import MetaRtc.Sdp.RoundTrip

/-! # Line ends -/
namespace MetaRtc

open Exec Tokens

section Session

variable (content : CStr)

/-! When a line of the session is read the same. -/

/-- The sizes of the arrays the tokens of an origin are copied to. -/
def originSizes : List Nat := [128, 32, 128, 16, 32, 32]

def OriginUntouched : Prop :=
  (cstrSplit (content ++ [CR]) space).length < 5 ∨
    (Closed space content ∧ 6 ≤ (cstrSplit (content ++ [CR]) space).length ∨
      7 ≤ (cstrSplit (content ++ [CR]) space).length) ∧
    ∀ (i size : Nat) (token : CStr), originSizes[i]? = some size →
      (cstrSplit (content ++ [CR]) space)[i]? = some token → token.length < size

def TimingUntouched : Prop :=
  (cstrSplit (content ++ [CR]) space).length < 2 ∨ Closed space content ∨
    3 ≤ (cstrSplit (content ++ [CR]) space).length

/-- A group line is never read the same. -/
structure SessionValueUntouched (attr value : CStr) : Prop where
  name : attr.length ≤ 256
  room : value.length + 1 < 256
  group : attr ≠ lit "group"
  msidSemantic : attr = lit "msid-semantic" → cstrSplit value space ≠ [] ∧
    ∀ first ∈ (cstrSplit (value ++ [CR]) space).head?, first.length < 64
  iceUfrag : attr = lit "ice-ufrag" → value.length + 1 < 32
  other : attr ∈ [lit "ice-pwd", lit "ice-options", lit "setup"] → value.length + 1 < 128
  fingerprint : attr = lit "fingerprint" → ∀ algo rest, cut space value = some (algo, rest) →
    algo.length ≤ 128 ∧ rest.length + 1 < 128

def SessionAttributeUntouched : Prop :=
  ∀ attr value, cut colon content = some (attr, value) → SessionValueUntouched attr value

def SectionUntouched : Prop :=
  (cstrSplit (content ++ [CR]) space).length < 4 ∨
    ∃ type port protos format more,
      cstrSplit (content ++ [CR]) space = type :: port :: protos :: format :: more ∧
      Closed space content ∧ type.length < 16 ∧ protos.length < 64

/-- Where a line is not touched by a carriage return at its end. -/
structure LineUntouched (sdp : YangSdp) (type : UInt8) : Prop where
  origin : type = 111 → OriginUntouched content
  version : type = 118 → content.length + 1 < 16
  sessionName : type = 115 → content.length + 1 < 64
  timing : type = 116 → TimingUntouched content
  before : type = 97 → sdp.inMediaSession = false → SessionAttributeUntouched content
  inside : type = 97 → sdp.inMediaSession = true →
    ∃ desc, sdp.mediaDescs.getLast? = some desc ∧ AttributeUntouched desc content
  section_ : type = 109 → SectionUntouched content

/-- An empty line is skipped, and refused where it holds a carriage return. -/
def Untouched (sdp : YangSdp) : CStr → Prop
  | [] => False
  | type :: 61 :: content => LineUntouched content sdp type
  | _ => True

end Session

section Same

/-- Both succeed or both fail, with the same groups and the same sections. -/
def SameResult (a b : Call (Nat × YangSdp)) : Prop :=
  ∃ err sdp err' sdp', a = .ret (err, sdp) ∧ b = .ret (err', sdp') ∧ (err = 0 ↔ err' = 0) ∧
    sdp.core = sdp'.core

variable {sdp sdp' : YangSdp} {content : CStr}

theorem length_tokens_closed (h : Closed space content) :
    (tokens space content).length = (tokens space (content ++ [CR])).length := by
  obtain ⟨ts, w, hw, hs, hlong⟩ := tokens_cr (by decide : CR ≠ space) content
  rw [hs, hlong, if_neg (hw h)]
  simp

theorem length_tokens_cr :
    (tokens space (content ++ [CR])).length ≤ (tokens space content).length + 1 := by
  obtain ⟨ts, w, -, hs, hlong⟩ := tokens_cr (by decide : CR ≠ space) content
  rw [hs, hlong]
  simp

/-- Each token is one of the longer text, or that one without its end. -/
theorem getElem?_tokens_cr {i : Nat} {x : CStr} (h : (tokens space content)[i]? = some x) :
    ∃ y, (tokens space (content ++ [CR]))[i]? = some y ∧ x.length ≤ y.length := by
  obtain ⟨ts, w, -, hs, hlong⟩ := tokens_cr (by decide : CR ≠ space) content
  rw [hs] at h
  rw [hlong]
  by_cases hi : i < ts.length
  · rw [List.getElem?_append_left hi] at h ⊢
    exact ⟨x, h, Nat.le_refl _⟩
  · rw [List.getElem?_append_right (Nat.le_of_not_lt hi)] at h ⊢
    split at h
    · simp at h
    · obtain ⟨hi0, rfl⟩ : i - ts.length = 0 ∧ w = x := by
        rw [List.getElem?_singleton] at h
        split at h
        · exact ⟨‹_›, Option.some.inj h⟩
        · exact nomatch h
      exact ⟨w ++ [CR], by rw [hi0]; rfl, by simp⟩

theorem origin_returns (hlen : 6 ≤ (tokens space content).length)
    (hfits : ∀ (i size : Nat) (token : CStr), originSizes[i]? = some size →
      (tokens space content)[i]? = some token → token.length < size) (sdp : YangSdp) :
    ∃ sdp', rtcsdpParseOrigin sdp content = .ret (0, sdp') := by
  have hcopy : ∀ i size, originSizes[i]? = some size → i < 6 → ∃ token,
      Call.deref (tokens space content)[i]? = .ret token ∧ strcpy size token = .ret token := by
    intro i size hsize hi
    have htoken := List.getElem?_eq_getElem (Nat.lt_of_lt_of_le hi hlen)
    exact ⟨_, Call.deref_eq_ret.mpr htoken, strcpy_eq_ret.mpr ⟨hfits i size _ hsize htoken, rfl⟩⟩
  obtain ⟨a, ha, ha'⟩ := hcopy 0 128 rfl (by decide)
  obtain ⟨b, hb, hb'⟩ := hcopy 1 32 rfl (by decide)
  obtain ⟨c, hc, hc'⟩ := hcopy 2 128 rfl (by decide)
  obtain ⟨d, hd, hd'⟩ := hcopy 3 16 rfl (by decide)
  obtain ⟨e, he, he'⟩ := hcopy 4 32 rfl (by decide)
  obtain ⟨f, hf, hf'⟩ := hcopy 5 32 rfl (by decide)
  have hnot : ¬ (tokens space content).length < 5 := by omega
  simp only [rtcsdpParseOrigin, cstrSplit, hnot, if_false, ha, ha', hb, hb', hc, hc', hd, hd', he,
    he', hf, hf', Call.ret_bind]
  exact ⟨_, rfl⟩

theorem origin_same (h : OriginUntouched content) (hcore : sdp.core = sdp'.core) :
    SameResult (rtcsdpParseOrigin sdp content) (rtcsdpParseOrigin sdp' (content ++ [CR])) := by
  have hshort : ∀ (s : YangSdp) (v : CStr), (tokens space v).length < 5 →
      rtcsdpParseOrigin s v = .ret (1, s) := by
    intro s v hv
    simp only [rtcsdpParseOrigin, cstrSplit, hv, if_true]
    rfl
  rcases h with hlen | ⟨hshape, hfits⟩
  · exact ⟨1, sdp, 1, sdp', hshort _ _ (length_tokens_cr_le.trans_lt hlen), hshort _ _ hlen,
      Iff.rfl, hcore⟩
  · have hlen : 6 ≤ (tokens space content).length := by
      simp only [cstrSplit] at hshape
      rcases hshape with ⟨hclosed, hlen⟩ | hlen
      · rwa [length_tokens_closed hclosed]
      · have := @length_tokens_cr content
        omega
    have hfits' : ∀ (i size : Nat) (token : CStr), originSizes[i]? = some size →
        (tokens space content)[i]? = some token → token.length < size := by
      intro i size token hsize htoken
      obtain ⟨y, hy, hle⟩ := getElem?_tokens_cr htoken
      exact hle.trans_lt (hfits i size y hsize hy)
    obtain ⟨t, ht⟩ := origin_returns hlen hfits' sdp
    obtain ⟨t', ht'⟩ := origin_returns (hlen.trans length_tokens_cr_le) hfits sdp'
    refine ⟨0, t, 0, t', ht, ht', Iff.rfl, ?_⟩
    rw [rtcsdpParseOrigin_core ht, rtcsdpParseOrigin_core ht', hcore]

/-- Lines of the session that return, whatever they read, leave the same. -/
theorem same_of_core {err : Nat} {a b : Call (Nat × YangSdp)} (ha : ∃ s, a = .ret (err, s))
    (hb : ∃ s, b = .ret (err, s)) (hcore : sdp.core = sdp'.core)
    (hkeeps : ∀ s, a = .ret (err, s) → s.core = sdp.core)
    (hkeeps' : ∀ s, b = .ret (err, s) → s.core = sdp'.core) : SameResult a b := by
  obtain ⟨s, hs⟩ := ha
  obtain ⟨s', hs'⟩ := hb
  refine ⟨err, s, err, s', hs, hs', Iff.rfl, ?_⟩
  rw [hkeeps s hs, hkeeps' s' hs', hcore]

theorem version_same (h : content.length + 1 < 16) (hcore : sdp.core = sdp'.core) :
    SameResult (rtcsdpParseVersion sdp content) (rtcsdpParseVersion sdp' (content ++ [CR])) := by
  have hreturns : ∀ (s : YangSdp) (v : CStr), v.length < 16 →
      ∃ t, rtcsdpParseVersion s v = .ret (0, t) := by
    intro s v hv
    have hfits : (if v ≠ [] then v else itoa 0).length < 16 := by
      split
      · exact hv
      · decide
    simp only [rtcsdpParseVersion, strcpy, hfits, if_true]
    exact ⟨_, rfl⟩
  exact same_of_core (hreturns _ _ (by omega)) (hreturns _ _ (by simpa using h)) hcore
    (fun _ => rtcsdpParseVersion_core) fun _ => rtcsdpParseVersion_core

theorem sessionName_same (h : content.length + 1 < 64) (hcore : sdp.core = sdp'.core) :
    SameResult (rtcsdpParseSessionName sdp content)
      (rtcsdpParseSessionName sdp' (content ++ [CR])) := by
  have hreturns : ∀ (s : YangSdp) (v : CStr), v.length < 64 →
      ∃ t, rtcsdpParseSessionName s v = .ret (0, t) := by
    intro s v hv
    simp only [rtcsdpParseSessionName, strcpy, hv, if_true]
    exact ⟨_, rfl⟩
  exact same_of_core (hreturns _ _ (by omega)) (hreturns _ _ (by simpa using h)) hcore
    (fun _ => rtcsdpParseSessionName_core) fun _ => rtcsdpParseSessionName_core

theorem timing_same (h : TimingUntouched content) (hcore : sdp.core = sdp'.core) :
    SameResult (rtcsdpParseTiming sdp content) (rtcsdpParseTiming sdp' (content ++ [CR])) := by
  have hshort : ∀ (s : YangSdp) (v : CStr), (tokens space v).length < 2 →
      ∃ t, rtcsdpParseTiming s v = .ret (1, t) := by
    intro s v hv
    simp only [rtcsdpParseTiming, cstrSplit]
    split
    · rename_i hts
      rw [hts] at hv
      simp only [List.length_cons] at hv
      omega
    · exact ⟨_, rfl⟩
  have hlong : ∀ (s : YangSdp) (v : CStr), 2 ≤ (tokens space v).length →
      ∃ t, rtcsdpParseTiming s v = .ret (0, t) := by
    intro s v hv
    rcases hts : tokens space v with _ | ⟨_, _ | ⟨_, _⟩⟩
    · simp [hts] at hv
    · simp [hts] at hv
    · simp only [rtcsdpParseTiming, cstrSplit, hts]
      exact ⟨_, rfl⟩
  simp only [TimingUntouched, cstrSplit] at h
  by_cases hlen : (tokens space (content ++ [CR])).length < 2
  · exact same_of_core (hshort _ _ (length_tokens_cr_le.trans_lt hlen)) (hshort _ _ hlen) hcore
      (fun _ => rtcsdpParseTiming_core) fun _ => rtcsdpParseTiming_core
  · have htwo : 2 ≤ (tokens space content).length := by
      rcases h.resolve_left hlen with hclosed | hthree
      · rw [length_tokens_closed hclosed]
        omega
      · have := @length_tokens_cr content
        omega
    exact same_of_core (hlong _ _ htwo) (hlong _ _ (by omega)) hcore
      (fun _ => rtcsdpParseTiming_core) fun _ => rtcsdpParseTiming_core

theorem msidSemantic_returns {value first : CStr} {more : List CStr}
    (htokens : tokens space value = first :: more) (hfits : first.length < 64) (sdp : YangSdp) :
    ∃ t, rtcsdpParseMsidSemantic sdp value = .ret (0, t) := by
  simp only [rtcsdpParseMsidSemantic, cstrSplit, htokens, List.getElem?_cons_zero, Call.deref_some,
    Call.ret_bind, strcpy, hfits, if_true]
  exact ⟨_, rfl⟩

theorem sessionInfo_returns {info : YangSessionInfo} {attr value : CStr}
    (hufrag : attr = lit "ice-ufrag" → value.length < 32)
    (hother : attr ∈ [lit "ice-pwd", lit "ice-options", lit "setup"] → value.length < 128)
    (hfp : attr = lit "fingerprint" → ∀ algo rest, cut space value = some (algo, rest) →
      algo.length ≤ 128 ∧ rest.length < 128) :
    ∃ info', sessioninfoParseAttribute info attr (.ret value) = .ret info' := by
  unfold sessioninfoParseAttribute
  split
  · rename_i hattr
    split
    · exact ⟨_, rfl⟩
    · simp only [Call.ret_bind, strcpy, hufrag hattr, if_true]
      exact ⟨_, rfl⟩
  split
  · rename_i hattr
    split
    · exact ⟨_, rfl⟩
    · simp only [Call.ret_bind, strcpy, hother (by simp [hattr]), if_true]
      exact ⟨_, rfl⟩
  split
  · rename_i hattr
    split
    · exact ⟨_, rfl⟩
    · simp only [Call.ret_bind, strcpy, hother (by simp [hattr]), if_true]
      exact ⟨_, rfl⟩
  split
  · rename_i hattr
    split
    · exact ⟨_, rfl⟩
    · cases hcut : cut space value with
      | none =>
        simp only [Call.ret_bind, hcut]
        exact ⟨_, rfl⟩
      | some ab =>
        obtain ⟨halgo, hrest⟩ := hfp hattr ab.1 ab.2 hcut
        simp only [Call.ret_bind, hcut, memcpyTo, halgo, strcpy, hrest, if_true]
        exact ⟨_, rfl⟩
  split
  · rename_i hattr
    split
    · exact ⟨_, rfl⟩
    · simp only [Call.ret_bind, strcpy, hother (by simp [hattr]), if_true]
      exact ⟨_, rfl⟩
  · exact ⟨_, rfl⟩

/-- What a session attribute takes its name and its value for. -/
theorem sessionAttribute_returns {content attr value : CStr}
    (hcut : (cut colon content).getD ([], []) = (attr, value)) (hname : attr.length ≤ 256)
    (hroom : value.length < 256) (hgroup : attr ≠ lit "group")
    (hmsid : attr = lit "msid-semantic" → ∃ first more, tokens space value = first :: more ∧
      first.length < 64)
    (hufrag : attr = lit "ice-ufrag" → value.length < 32)
    (hother : attr ∈ [lit "ice-pwd", lit "ice-options", lit "setup"] → value.length < 128)
    (hfp : attr = lit "fingerprint" → ∀ algo rest, cut space value = some (algo, rest) →
      algo.length ≤ 128 ∧ rest.length < 128) (sdp : YangSdp) :
    ∃ t, rtcsdpParseAttribute sdp content = .ret (0, t) ∧ t.core = sdp.core := by
  simp only [rtcsdpParseAttribute, hcut, memcpyTo, hname, strcpy, hroom, if_true, Call.ret_bind,
    hgroup, if_false]
  split
  · rename_i hattr
    obtain ⟨first, more, htokens, hfits⟩ := hmsid hattr
    obtain ⟨t, ht⟩ := msidSemantic_returns htokens hfits sdp
    exact ⟨t, ht, rtcsdpParseMsidSemantic_core ht⟩
  · obtain ⟨info, hinfo⟩ := @sessionInfo_returns sdp.sessionInfo attr value hufrag hother hfp
    rw [hinfo]
    exact ⟨_, rfl, rfl⟩

theorem sessionAttribute_same (h : SessionAttributeUntouched content)
    (hcore : sdp.core = sdp'.core) :
    SameResult (rtcsdpParseAttribute sdp content)
      (rtcsdpParseAttribute sdp' (content ++ [CR])) := by
  have hboth : (∃ t, rtcsdpParseAttribute sdp content = .ret (0, t) ∧ t.core = sdp.core) ∧
      ∃ t, rtcsdpParseAttribute sdp' (content ++ [CR]) = .ret (0, t) ∧ t.core = sdp'.core := by
    have hcr := cut_concat (by decide : CR ≠ colon) content
    cases hcut : cut colon content with
    | none =>
      rw [hcut, Option.map_none] at hcr
      have hbare : ∀ (s : YangSdp) (v : CStr), cut colon v = none →
          ∃ t, rtcsdpParseAttribute s v = .ret (0, t) ∧ t.core = s.core := by
        intro s v hv
        exact sessionAttribute_returns (by rw [hv, Option.getD_none]) (by simp) (by simp)
          (by decide) (fun he => absurd he (by decide)) (fun he => absurd he (by decide))
          (fun he => absurd he (by decide)) (fun he => absurd he (by decide)) s
      exact ⟨hbare _ _ hcut, hbare _ _ hcr⟩
    | some ab =>
      rw [hcut, Option.map_some] at hcr
      have huntouched := h ab.1 ab.2 hcut
      obtain ⟨ts, w, -, hs, hlong⟩ := tokens_cr (by decide : CR ≠ space) ab.2
      refine ⟨sessionAttribute_returns (by rw [hcut]; rfl) huntouched.name
          (by have := huntouched.room; omega) huntouched.group ?_
          (fun he => by have := huntouched.iceUfrag he; omega)
          (fun he => by have := huntouched.other he; omega) ?_ sdp,
        sessionAttribute_returns (by rw [hcr]; rfl) huntouched.name
          (by simpa using huntouched.room) huntouched.group ?_
          (fun he => by simpa using huntouched.iceUfrag he)
          (fun he => by simpa using huntouched.other he) ?_ sdp'⟩
      · intro he
        obtain ⟨hne, hfits⟩ := huntouched.msidSemantic he
        obtain ⟨first, more, hfirst⟩ := List.exists_cons_of_ne_nil hne
        obtain ⟨y, hy, hle⟩ := @getElem?_tokens_cr ab.2 0 first (by rw [← cstrSplit, hfirst]; rfl)
        refine ⟨first, more, hfirst, hle.trans_lt (hfits y ?_)⟩
        rw [List.head?_eq_getElem?]
        exact hy
      · intro he algo rest hspace
        obtain ⟨halgo, hrest⟩ := huntouched.fingerprint he algo rest hspace
        exact ⟨halgo, by omega⟩
      · intro he
        have hfits := (huntouched.msidSemantic he).2
        rw [cstrSplit] at hfits
        cases hts : tokens space (ab.2 ++ [CR]) with
        | nil =>
          rw [hlong] at hts
          simp at hts
        | cons first more => exact ⟨first, more, rfl, hfits first (by rw [hts]; rfl)⟩
      · intro he algo rest hspace
        rw [cut_concat (by decide : CR ≠ space)] at hspace
        obtain ⟨ar, har, heq⟩ := Option.map_eq_some_iff.mp hspace
        obtain ⟨rfl, rfl⟩ := Prod.mk.inj heq
        obtain ⟨halgo, hrest⟩ := huntouched.fingerprint he ar.1 ar.2 har
        exact ⟨halgo, by simpa using hrest⟩
  obtain ⟨⟨t, ht, htcore⟩, t', ht', htcore'⟩ := hboth
  exact ⟨0, t, 0, t', ht, ht', Iff.rfl, by rw [htcore, htcore', hcore]⟩

theorem section_same (h : SectionUntouched content) (hcore : sdp.core = sdp'.core) :
    SameResult (rtcsdpParseMediaDescription sdp content)
      (rtcsdpParseMediaDescription sdp' (content ++ [CR])) := by
  have hshort : ∀ (s : YangSdp) (v : CStr), (tokens space v).length < 4 →
      rtcsdpParseMediaDescription s v = .ret (1, s) := by
    intro s v hv
    simp only [rtcsdpParseMediaDescription, cstrSplit]
    split
    · rename_i hts
      rw [hts] at hv
      simp only [List.length_cons] at hv
      omega
    · rfl
  rcases h with hlen | ⟨type, port, protos, format, more, htokens, hclosed, htype, hprotos⟩
  · exact ⟨1, sdp, 1, sdp', hshort _ _ (length_tokens_cr_le.trans_lt hlen), hshort _ _ hlen,
      Iff.rfl, hcore⟩
  · obtain ⟨ts, w, hw, hs, hlong⟩ := tokens_cr (by decide : CR ≠ space) content
    rw [if_neg (hw hclosed)] at hs
    rw [cstrSplit, hlong] at htokens
    simp only [YangSdp.core, Prod.mk.injEq] at hcore
    have hdescs := hcore.2.2.2
    rcases ts with _ | ⟨a, _ | ⟨b, _ | ⟨c, _ | ⟨d, ts⟩⟩⟩⟩
    · simp at htokens
    · simp at htokens
    · simp at htokens
    · simp only [List.cons_append, List.nil_append, List.cons.injEq] at htokens
      obtain ⟨rfl, rfl, rfl, rfl, rfl⟩ := htokens
      simp only [rtcsdpParseMediaDescription, cstrSplit, hs, hlong, List.cons_append,
        List.nil_append, strcpy, htype, hprotos, if_true, Call.ret_bind, List.map_cons,
        List.map_nil, atoi_cr]
      refine ⟨0, _, 0, _, rfl, rfl, Iff.rfl, ?_⟩
      simp only [YangSdp.core, hcore.2.1, hcore.2.2.1, hdescs]
    · simp only [List.cons_append, List.cons.injEq] at htokens
      obtain ⟨rfl, rfl, rfl, rfl, rfl⟩ := htokens
      simp only [rtcsdpParseMediaDescription, cstrSplit, hs, hlong, List.cons_append, strcpy, htype,
        hprotos, if_true, Call.ret_bind, List.map_cons, List.map_append, List.map_nil, atoi_cr]
      refine ⟨0, _, 0, _, rfl, rfl, Iff.rfl, ?_⟩
      simp only [YangSdp.core, hcore.2.1, hcore.2.2.1, hdescs]

theorem line_same {type : UInt8} (h : LineUntouched content sdp type)
    (hcore : sdp.core = sdp'.core) :
    SameResult (rtcsdpParseLine sdp type content)
      (rtcsdpParseLine sdp' type (content ++ [CR])) := by
  have hparts := hcore
  simp only [YangSdp.core, Prod.mk.injEq] at hparts
  obtain ⟨hin, hpolicy, hgroups, hdescs⟩ := hparts
  unfold rtcsdpParseLine
  split
  · exact origin_same (h.origin ‹_›) hcore
  split
  · exact version_same (h.version ‹_›) hcore
  split
  · exact sessionName_same (h.sessionName ‹_›) hcore
  split
  · exact timing_same (h.timing ‹_›) hcore
  split
  · rename_i ha
    rw [← hin]
    cases hinside : sdp.inMediaSession with
    | false => exact sessionAttribute_same (h.before ha hinside) hcore
    | true =>
      obtain ⟨desc, hlast, huntouched⟩ := h.inside ha hinside
      obtain ⟨⟨err, read⟩, hread, hread'⟩ := attribute_agree huntouched
      simp only [if_true, mediadescParseLine, ← hdescs, hlast, Call.deref_some, Call.ret_bind,
        hread, hread']
      refine ⟨err, _, err, _, rfl, rfl, Iff.rfl, ?_⟩
      simp only [YangSdp.core, hin, hpolicy, hgroups]
  split
  · exact section_same (h.section_ ‹_›) hcore
  · exact ⟨0, sdp, 0, sdp', rfl, rfl, Iff.rfl, hcore⟩

end Same

section Texts

/-- The parser goes on behind a line that it takes. -/
def TakesLine (sdp : YangSdp) (line : CStr) (next : YangSdp) : Prop :=
  ∃ type content, line = type :: 61 :: content ∧ rtcsdpParseLine sdp type content = .ret (0, next)

variable {sdp sdp' : YangSdp} {lines : List CStr}

theorem lines_same (h : Run.Throughout TakesLine Untouched lines sdp)
    (hcore : sdp.core = sdp'.core) :
    SameResult (rtcsdpParseLines sdp (lines.filter (· ≠ [])))
      (rtcsdpParseLines sdp' (lines.map (· ++ [CR]))) := by
  induction lines generalizing sdp sdp' with
  | nil => exact ⟨0, sdp, 0, sdp', rfl, rfl, Iff.rfl, hcore⟩
  | cons line lines ih =>
    obtain ⟨hline, hrest⟩ := h
    match line with
    | [] => exact hline.elim
    | [b] =>
      refine ⟨errorRtcSdpDecode, sdp, errorRtcSdpDecode, sdp', rfl, ?_, Iff.rfl, hcore⟩
      simp only [List.map_cons, List.cons_append, List.nil_append]
      rfl
    | type :: b :: content =>
      by_cases hb : b = 61
      · subst hb
        obtain ⟨err, next, err', next', hone, hone', herr, hnext⟩ := line_same hline hcore
        by_cases hzero : err = 0
        · obtain rfl := hzero
          have hzero' : err' = 0 := herr.mp rfl
          subst hzero'
          have hgo := ih (hrest next ⟨type, content, rfl, hone⟩) hnext
          simpa [rtcsdpParseLines, hone, hone'] using hgo
        · have hzero' : err' ≠ 0 := fun he => hzero (herr.mpr he)
          refine ⟨1, next, 1, next', ?_, ?_, Iff.rfl, hnext⟩
          · simp [rtcsdpParseLines, hone, hzero]
          · simp [rtcsdpParseLines, hone', hzero']
      · refine ⟨errorRtcSdpDecode, sdp, errorRtcSdpDecode, sdp', ?_, ?_, Iff.rfl, hcore⟩
        · simp [rtcsdpParseLines, hb]
        · simp [rtcsdpParseLines, hb]

/-- A text of lines, each ended the same way. -/
def sdpText (lineEnd : CStr) (lines : List CStr) : CStr := lines.flatMap (· ++ lineEnd)

theorem cstrSplit_lf (h : ∀ line ∈ lines, LF ∉ line) :
    cstrSplit (sdpText [LF] lines) LF = lines.filter (· ≠ []) := by
  unfold cstrSplit sdpText
  induction lines with
  | nil => simp
  | cons line lines ih =>
    obtain ⟨hline, hlines⟩ := List.forall_mem_cons.mp h
    rw [List.flatMap_cons, List.append_assoc, List.singleton_append]
    by_cases hnil : line = []
    · rw [hnil, List.nil_append, tokens_cons_sep, ih hlines]
      simp
    · rw [tokens_word_sep hnil hline, ih hlines]
      simp [hnil]

theorem cstrSplit_crlf (h : ∀ line ∈ lines, LF ∉ line) :
    cstrSplit (sdpText kCRLF lines) LF = lines.map (· ++ [CR]) := by
  have hends : sdpText kCRLF lines = (lines.map (· ++ [CR])).flatMap (· ++ [LF]) ++ [] := by
    simp [sdpText, kCRLF, List.flatMap_map]
  have hlines : ∀ line ∈ lines.map (· ++ [CR]), line ≠ [] ∧ LF ∉ line := by
    intro line hline
    obtain ⟨l, hl, rfl⟩ := List.mem_map.mp hline
    have hcr : LF ∉ [CR] := by decide
    exact ⟨by simp, by simp only [List.mem_append, h l hl, hcr, or_self, not_false_iff]⟩
  rw [hends, cstrSplit, tokens_lines hlines, tokens_nil, List.append_nil]

/-- A text whose lines, as far as the parser comes, are not touched by a carriage return
gives the same result with either line end. -/
theorem same_with_either_end (hlines : ∀ line ∈ lines, LF ∉ line)
    (h : Run.Throughout TakesLine Untouched lines createRtcsdp) :
    SameResult (rtcsdpParse createRtcsdp (sdpText [LF] lines))
      (rtcsdpParse createRtcsdp (sdpText kCRLF lines)) := by
  obtain ⟨err, s, err', s', hs, hs', herr, hcore⟩ := lines_same h rfl
  unfold rtcsdpParse
  rw [cstrSplit_lf hlines, cstrSplit_crlf hlines, hs, hs']
  by_cases hzero : err = 0
  · obtain rfl := hzero
    have hzero' : err' = 0 := herr.mp rfl
    subst hzero'
    refine ⟨0, _, 0, _, rfl, rfl, Iff.rfl, ?_⟩
    simp only [YangSdp.core, Prod.mk.injEq] at hcore ⊢
    exact ⟨hcore.1, hcore.2.1, hcore.2.2.1, by rw [hcore.2.2.2]⟩
  · have hzero' : err' ≠ 0 := fun he => hzero (herr.mpr he)
    refine ⟨err, s, err', s', ?_, ?_, herr, hcore⟩
    · simp [hzero]
    · simp [hzero']

theorem closed_of_getLast? {sep b : UInt8} {s : CStr} (h : s.getLast? = some b) (hb : b ≠ sep) :
    Closed sep s := by
  refine ⟨by rintro rfl; exact (nomatch h), ?_⟩
  rintro ⟨f, rfl⟩
  rw [List.getLast?_append] at h
  exact hb (Option.some.inj h).symm

theorem takesLine_unique {line : CStr} {t u : YangSdp} (ht : TakesLine sdp line t)
    (hu : TakesLine sdp line u) : u = t := by
  obtain ⟨type, content, rfl, ht⟩ := ht
  obtain ⟨type', content', heq, hu⟩ := hu
  cases heq
  rw [ht] at hu
  cases hu
  rfl

/-- A section whose one attribute names its codec without parameters. -/
def plainLines : List CStr :=
  [lit "v=0", lit "m=audio 9 UDP/TLS/RTP/SAVPF 111", lit "a=rtpmap:111 opus/48000"]

theorem same_plain : SameResult (rtcsdpParse createRtcsdp (sdpText [LF] plainLines))
    (rtcsdpParse createRtcsdp (sdpText kCRLF plainLines)) := by
  refine same_with_either_end (by decide) ?_
  have hno : ∀ {P : Prop} {a b : UInt8}, a ≠ b → a = b → P := fun hne he => absurd he hne
  have hversion : TakesLine createRtcsdp (lit "v=0") createRtcsdp := ⟨118, lit "0", rfl, by decide⟩
  have hdesc : TakesLine createRtcsdp (lit "m=audio 9 UDP/TLS/RTP/SAVPF 111")
      { createRtcsdp with
        inMediaSession := true
        mediaDescs := [{
          port := 9, type := lit "audio", protos := lit "UDP/TLS/RTP/SAVPF"
          payloadTypes := [{ payloadType := 111 }] }] } :=
    ⟨109, lit "audio 9 UDP/TLS/RTP/SAVPF 111", rfl, by decide⟩
  refine Run.throughout_cons (fun u => takesLine_unique hversion) ?_
    (Run.throughout_cons (fun u => takesLine_unique hdesc) ?_ ⟨?_, fun _ _ => trivial⟩)
  · exact ⟨hno (by decide), fun _ => by decide, hno (by decide), hno (by decide), hno (by decide),
      hno (by decide), hno (by decide)⟩
  · refine ⟨hno (by decide), hno (by decide), hno (by decide), hno (by decide), hno (by decide),
      hno (by decide), fun _ => .inr ⟨lit "audio", lit "9", lit "UDP/TLS/RTP/SAVPF",
        lit "111" ++ [CR], [], by decide, closed_of_getLast? rfl (by decide), by decide, by decide⟩⟩
  · refine ⟨hno (by decide), hno (by decide), hno (by decide), hno (by decide),
      fun _ hin => (nomatch hin), fun _ _ => ⟨_, rfl, ?_, fun hnone => (nomatch hnone)⟩,
      hno (by decide)⟩
    intro attr value hcut
    have hparts : cut colon (lit "rtpmap:111 opus/48000") =
        some (lit "rtpmap", lit "111 opus/48000") := by decide
    obtain ⟨rfl, rfl⟩ := Prod.mk.inj (Option.some.inj (hparts.symm.trans hcut))
    have hother : ∀ {P : Prop} {name : CStr}, lit "rtpmap" ≠ name → lit "rtpmap" = name → P :=
      fun hne he => absurd he hne
    refine ⟨⟨hother (by decide), hother (by decide), hother (by decide), hother (by decide),
      hother (by decide)⟩, by decide, by decide, hother (by decide), fun _ => ?_,
      hother (by decide), hother (by decide), by decide, hother (by decide), hother (by decide),
      hother (by decide), hother (by decide)⟩
    intro intstr rest hspace
    have hmap : cut space (lit "111 opus/48000") = some (lit "111", lit "opus/48000") := by decide
    obtain ⟨rfl, rfl⟩ := Prod.mk.inj (Option.some.inj (hmap.symm.trans hspace))
    exact ⟨111, by decide, .inr (.inr ⟨.inl ⟨closed_of_getLast? rfl (by decide), by decide⟩,
      by decide⟩)⟩

/-- A small offer. -/
def offerLines : List CStr :=
  [lit "v=0", lit "o=- 1 2 IN IP4 127.0.0.1", lit "s=-", lit "t=0 0", lit "a=group:BUNDLE 0",
   lit "m=audio 9 UDP/TLS/RTP/SAVPF 111", lit "a=mid:0", lit "a=rtcp-mux",
   lit "a=rtpmap:111 opus/48000/2"]

theorem offer_group_differs : ¬ SameResult (rtcsdpParse createRtcsdp (sdpText [LF] offerLines))
    (rtcsdpParse createRtcsdp (sdpText kCRLF offerLines)) := by
  rintro ⟨err, s, err', s', h, h', -, hcore⟩
  have hlf : (do
      let parsed ← rtcsdpParse createRtcsdp (sdpText [LF] offerLines)
      return parsed.2.groups : Call (List CStr)) = .ret [lit "0"] := by decide +kernel
  have hcrlf : (do
      let parsed ← rtcsdpParse createRtcsdp (sdpText kCRLF offerLines)
      return parsed.2.groups : Call (List CStr)) = .ret [lit "0" ++ [CR]] := by decide +kernel
  rw [h] at hlf
  rw [h'] at hcrlf
  simp only [Call.ret_bind, Call.pure_eq, Call.ret.injEq] at hlf hcrlf
  simp only [YangSdp.core, Prod.mk.injEq] at hcore
  exact absurd (hlf.symm.trans (hcore.2.2.1.trans hcrlf)) (by decide)

end Texts

end MetaRtc
