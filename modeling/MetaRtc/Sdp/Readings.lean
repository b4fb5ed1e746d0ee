import MetaRtc.Sdp.MediaDesc

/-! # Attributes read with a carriage return behind them

Lines are told apart at their line feeds, so that a text with carriage returns has one at
the end of each line. Here stands which attributes of a section are read as if it were not
there. -/
namespace MetaRtc

open Exec Tokens

/-- The last token of a text goes on to its end. -/
def Closed (sep : UInt8) (s : CStr) : Prop := s ≠ [] ∧ ¬ ∃ f, s = f ++ [sep]

/-- Tokens with a carriage return behind the text: the last of them is another one. -/
theorem tokens_cr {sep : UInt8} (hsep : CR ≠ sep) (s : CStr) :
    ∃ ts w, (Closed sep s → w ≠ []) ∧ tokens sep s = ts ++ (if w = [] then [] else [w]) ∧
      tokens sep (s ++ [CR]) = ts ++ [w ++ [CR]] := by
  obtain ⟨ts, w, hw, hs, hlong⟩ := tokens_concat hsep s
  exact ⟨ts, w, fun hclosed hnil => (hw.mp hnil).elim hclosed.1 hclosed.2, hs, hlong⟩

section Attributes

variable (desc : YangMediaDesc) (value : CStr)

/-! When an attribute of a section is read the same with a carriage return behind it. -/

def ExtmapUntouched : Prop :=
  ∀ intstr rest, cut space value = some (intstr, rest) →
    ∃ id, intstrValue intstr = .ret id ∧ desc.extmaps.any (·.mapid == id)

def RtpmapUntouched : Prop :=
  ∀ intstr rest, cut space value = some (intstr, rest) →
    ∃ pt, intstrValue intstr = .ret pt ∧ (mediadescFindMediaWithPayloadType desc pt = none ∨
      (cstrSplit (rest ++ [CR]) slash).length < 2 ∨
      (Closed slash rest ∧ (cstrSplit (rest ++ [CR]) slash).length ≠ 3 ∨
        5 ≤ (cstrSplit (rest ++ [CR]) slash).length) ∧
        ∀ name ∈ (cstrSplit rest slash).head?, name.length < 16)

def RtcpFbUntouched : Prop :=
  ∀ intstr rest, cut space value = some (intstr, rest) →
    ∃ pt, intstrValue intstr = .ret pt ∧ mediadescFindMediaWithPayloadType desc pt = none

def FmtpUntouched : Prop :=
  ∃ format more, cstrSplit (value ++ [CR]) space = format :: more ∧
    (mediadescFindMediaWithPayloadType desc (atoi format) = none ∨ 2 ≤ more.length)

def MsidUntouched : Prop :=
  (cstrSplit (value ++ [CR]) space).length < 2 ∨
    ∃ msid tracker third more, cstrSplit (value ++ [CR]) space = msid :: tracker :: third :: more ∧
      msid.length < 64 ∧ tracker.length < 64

def SsrcGroupUntouched : Prop :=
  (cstrSplit (value ++ [CR]) space).length < 3 ∨
    Closed space value ∧ ∀ semantic ∈ (cstrSplit value space).head?, semantic.length < 64

def SsrcUntouched : Prop :=
  ∃ intstr tail id p before attr rest, cut colon value = some (intstr, tail) ∧
    intstrValue intstr = .ret id ∧ cut space value = some (before, p) ∧
    cut colon p = some (attr, rest) ∧ attr.length ≤ 16 ∧
    attr ≠ lit "cname" ∧ attr ≠ lit "mslabel" ∧ attr ≠ lit "label" ∧
    (attr = lit "msid" → ∃ msid tracker third more,
      cstrSplit (rest ++ [CR]) space = msid :: tracker :: third :: more ∧
      msid.length < 64 ∧ tracker.length < 64)

def CandidateUntouched : Prop :=
  (cstrSplit (value ++ [CR]) space).length < 8 ∨
    ∃ a b c d ip port e type last more,
      cstrSplit (value ++ [CR]) space =
        a :: b :: c :: d :: ip :: port :: e :: type :: last :: more ∧
      ip.length < 64 ∧ type.length < 32

variable (info : YangSessionInfo)

/-- The session's attributes keep what they have got first. -/
structure SessionInfoUntouched (attr : CStr) : Prop where
  iceUfrag : attr = lit "ice-ufrag" → info.iceUfrag ≠ []
  icePwd : attr = lit "ice-pwd" → info.icePwd ≠ []
  iceOptions : attr = lit "ice-options" → info.iceOptions ≠ []
  fingerprint : attr = lit "fingerprint" → info.fingerprintAlgo ≠ [] ∨ space ∉ value
  setup : attr = lit "setup" → info.setup ≠ []

/-- An attribute with a value. -/
structure ValueUntouched (attr : CStr) : Prop extends
    SessionInfoUntouched value desc.sessionInfo attr where
  name : attr.length ≤ 128
  room : value.length + 1 < 128
  extmap : attr = lit "extmap" → ExtmapUntouched desc value
  rtpmap : attr = lit "rtpmap" → RtpmapUntouched desc value
  rtcpFb : attr = lit "rtcp-fb" → RtcpFbUntouched desc value
  fmtp : attr = lit "fmtp" → FmtpUntouched desc value
  mid : attr ≠ lit "mid"
  msid : attr = lit "msid" → MsidUntouched value
  ssrc : attr = lit "ssrc" → SsrcUntouched value
  ssrcGroup : attr = lit "ssrc-group" → SsrcGroupUntouched value
  candidate : attr = lit "candidate" → CandidateUntouched value

/-- An attribute without one: with the carriage return it has no name the parser knows. -/
structure BareUntouched (attr : CStr) : Prop where
  room : attr.length + 1 < 128
  refused : attr ∉ [lit "extmap", lit "rtpmap", lit "rtcp-fb", lit "fmtp", lit "ssrc",
    lit "ssrc-group", lit "candidate"]
  mid : attr = lit "mid" → desc.mid = []
  rtcpMux : attr = lit "rtcp-mux" → desc.rtcpMux = true
  rtcpRsize : attr = lit "rtcp-rsize" → desc.rtcpRsize = true
  recvonly : attr = lit "recvonly" → desc.recvonly = true
  sendonly : attr = lit "sendonly" → desc.sendonly = true
  sendrecv : attr = lit "sendrecv" → desc.sendrecv = true
  inactive : attr = lit "inactive" → desc.inactive = true
  fingerprint : attr = lit "fingerprint" →
    desc.sessionInfo.fingerprintAlgo ≠ [] ∨ desc.sessionInfo.fingerprint = []

def AttributeUntouched (content : CStr) : Prop :=
  (∀ attr value, cut colon content = some (attr, value) → ValueUntouched desc value attr) ∧
    (cut colon content = none → BareUntouched desc content)

end Attributes

section Readings

/-! What is read the same. -/

/-- Two calls that return, and the same. -/
def Agree {α : Type} (a b : Call α) : Prop := ∃ r, a = .ret r ∧ b = .ret r

theorem agree_ite {α : Type} {P : Prop} [Decidable P] {a a' b b' : Call α}
    (hpos : P → Agree a a') (hneg : ¬ P → Agree b b') :
    Agree (if P then a else b) (if P then a' else b') := by
  split
  · exact hpos ‹_›
  · exact hneg ‹_›

variable {desc : YangMediaDesc} {value : CStr}

theorem extmap_agree (h : ExtmapUntouched desc value) :
    Agree (mediadescParseAttrExtmap desc (.ret value))
      (mediadescParseAttrExtmap desc (.ret (value ++ [CR]))) := by
  simp only [mediadescParseAttrExtmap, Call.ret_bind, cut_concat (by decide : CR ≠ space)]
  cases hcut : cut space value with
  | none => exact ⟨_, rfl, rfl⟩
  | some ab =>
    obtain ⟨id, hid, hany⟩ := h ab.1 ab.2 hcut
    simp only [Option.map_some, hid, Call.ret_bind, hany, if_true]
    exact ⟨_, rfl, rfl⟩

theorem rtcpFb_agree (h : RtcpFbUntouched desc value) :
    Agree (mediadescParseAttrRtcpFb desc (.ret value))
      (mediadescParseAttrRtcpFb desc (.ret (value ++ [CR]))) := by
  simp only [mediadescParseAttrRtcpFb, Call.ret_bind, cut_concat (by decide : CR ≠ space)]
  cases hcut : cut space value with
  | none => exact ⟨_, rfl, rfl⟩
  | some ab =>
    obtain ⟨pt, hpt, hnone⟩ := h ab.1 ab.2 hcut
    simp only [Option.map_some, hpt, Call.ret_bind, hnone]
    exact ⟨_, rfl, rfl⟩

theorem rtpmap_agree (h : RtpmapUntouched desc value) :
    Agree (mediadescParseAttrRtpmap desc (.ret value))
      (mediadescParseAttrRtpmap desc (.ret (value ++ [CR]))) := by
  simp only [mediadescParseAttrRtpmap, Call.ret_bind, cut_concat (by decide : CR ≠ space)]
  cases hcut : cut space value with
  | none => exact ⟨_, rfl, rfl⟩
  | some ab =>
    obtain ⟨pt, hpt, hcase⟩ := h ab.1 ab.2 hcut
    simp only [Option.map_some, hpt, Call.ret_bind]
    cases hfind : mediadescFindMediaWithPayloadType desc pt with
    | none => exact ⟨_, rfl, rfl⟩
    | some i =>
      obtain ⟨ts, w, hclosed, hs, hlong⟩ := tokens_cr (by decide : CR ≠ slash) ab.2
      simp only [cstrSplit] at hcase ⊢
      rw [hlong, hs] at hcase
      rw [hlong, hs]
      match ts with
      | [] =>
        by_cases hw : w = []
        · exact ⟨(errorRtcSdpDecode, desc), by simp [hw], by simp⟩
        · exact ⟨(errorRtcSdpDecode, desc), by simp [hw], by simp⟩
      | [name] =>
        simp only [hfind, List.cons_append, List.nil_append, List.length_cons,
          List.length_nil] at hcase
        rcases hcase with hno | hshort | ⟨hshape, hname⟩
        · exact nomatch hno
        · omega
        · have hw : w ≠ [] := hclosed (hshape.elim (·.1) (by omega))
          have hfits : name.length < 16 := hname name rfl
          simp only [hw, if_false, List.cons_append, List.nil_append, strcpy, hfits, if_true,
            Call.ret_bind, List.length_nil, atoi_cr]
          exact ⟨_, rfl, rfl⟩
      | name :: rate :: more =>
        simp only [hfind, List.cons_append, List.length_cons, List.length_append,
          List.length_nil] at hcase
        rcases hcase with hno | hshort | ⟨hshape, hname⟩
        · exact nomatch hno
        · omega
        · have hfits : name.length < 16 := hname name rfl
          have hlen : (more ++ if w = [] then [] else [w]).length ≠ 1 := by
            rcases hshape with ⟨hc, hne⟩ | hlong
            · simp only [hclosed hc, if_false, List.length_append, List.length_singleton]
              omega
            · simp only [List.length_append]
              omega
          have hlen' : (more ++ [w ++ [CR]]).length ≠ 1 := by
            simp only [List.length_append, List.length_singleton]
            omega
          simp only [List.cons_append, strcpy, hfits, if_true, Call.ret_bind, if_neg hlen,
            if_neg hlen']
          exact ⟨_, rfl, rfl⟩

theorem fmtp_agree (hroom : value.length + 1 < 128) (h : FmtpUntouched desc value) :
    Agree (mediadescParseAttrFmtp desc (.ret value))
      (mediadescParseAttrFmtp desc (.ret (value ++ [CR]))) := by
  obtain ⟨format, more, htokens, hcase⟩ := h
  obtain ⟨ts, w, -, hs, hlong⟩ := tokens_cr (by decide : CR ≠ space) value
  simp only [mediadescParseAttrFmtp, Call.ret_bind, cstrSplit] at htokens ⊢
  rw [hlong] at htokens ⊢
  have hmem : ∀ t ∈ tokens space value, t.length < 128 := by
    intro t ht
    have := length_le_of_mem_tokens ht
    omega
  rw [hs] at hmem ⊢
  match ts with
  | [] =>
    obtain ⟨rfl, rfl⟩ := List.cons.inj htokens
    have hnone : mediadescFindMediaWithPayloadType desc (atoi w) = none := by
      rcases hcase with hnone | hlen
      · rwa [atoi_cr] at hnone
      · simp at hlen
    refine ⟨(errorRtcSdpDecode, desc), ?_, by simp [atoi_cr, hnone]⟩
    by_cases hw : w = [] <;> simp [hw, hnone]
  | first :: ts =>
    obtain ⟨rfl, rfl⟩ := List.cons.inj htokens
    simp only [List.cons_append, List.getElem?_cons_zero, List.getElem?_cons_succ]
    cases hfind : mediadescFindMediaWithPayloadType desc (atoi first) with
    | none => exact ⟨_, rfl, rfl⟩
    | some i =>
      match ts with
      | [] => simp [hfind] at hcase
      | param :: ts =>
        have hfits : param.length < 128 := hmem param (by simp)
        simp only [List.cons_append, List.getElem?_cons_zero, Call.deref_some, Call.ret_bind,
          strcpy, hfits, if_true]
        exact ⟨_, rfl, rfl⟩

/-- All tokens but the last are the same with a carriage return behind the text. -/
theorem tokens_three {a b c : CStr} {more : List CStr}
    (h : tokens space (value ++ [CR]) = a :: b :: c :: more) :
    ∃ more', tokens space value = a :: b :: more' := by
  obtain ⟨ts, w, -, hs, hlong⟩ := tokens_cr (by decide : CR ≠ space) value
  rw [hlong] at h
  match ts with
  | [] => simp at h
  | [first] => simp at h
  | first :: second :: ts =>
    obtain ⟨hfirst, hrest⟩ := List.cons.inj h
    obtain ⟨hsecond, -⟩ := List.cons.inj hrest
    rw [hs, ← hfirst, ← hsecond]
    exact ⟨_, rfl⟩

theorem length_tokens_cr_le :
    (tokens space value).length ≤ (tokens space (value ++ [CR])).length := by
  obtain ⟨ts, w, -, hs, hlong⟩ := tokens_cr (by decide : CR ≠ space) value
  rw [hs, hlong, List.length_append, List.length_append, List.length_singleton]
  split <;> simp

theorem msid_agree (h : MsidUntouched value) :
    Agree (mediadescParseAttrMsid desc (.ret value))
      (mediadescParseAttrMsid desc (.ret (value ++ [CR]))) := by
  have hshort : ∀ v, (tokens space v).length < 2 →
      mediadescParseAttrMsid desc (.ret v) = .ret (0, desc) := by
    intro v hv
    simp only [mediadescParseAttrMsid, Call.ret_bind, cstrSplit]
    split
    · rename_i hts
      rw [hts] at hv
      simp only [List.length_cons] at hv
      omega
    · rfl
  rcases h with hlen | ⟨msid, tracker, third, more, htokens, hmsid, htracker⟩
  · exact ⟨_, hshort _ (length_tokens_cr_le.trans_lt hlen), hshort _ hlen⟩
  · obtain ⟨more', hs⟩ := tokens_three htokens
    rw [cstrSplit] at htokens
    simp only [mediadescParseAttrMsid, Call.ret_bind, cstrSplit, htokens, hs, strcpy, hmsid,
      htracker, if_true]
    exact ⟨_, rfl, rfl⟩

theorem ssrcGroup_agree (h : SsrcGroupUntouched value) :
    Agree (mediadescParseAttrSsrcGroup desc (.ret value))
      (mediadescParseAttrSsrcGroup desc (.ret (value ++ [CR]))) := by
  have hshort : ∀ v, (tokens space v).length < 3 →
      mediadescParseAttrSsrcGroup desc (.ret v) = .ret (errorRtcSdpDecode, desc) := by
    intro v hv
    simp only [mediadescParseAttrSsrcGroup, Call.ret_bind, cstrSplit]
    split
    · rename_i hts
      rw [hts] at hv
      simp only [List.length_cons] at hv
      omega
    · rfl
  by_cases hlen : (tokens space (value ++ [CR])).length < 3
  · exact ⟨_, hshort _ (length_tokens_cr_le.trans_lt hlen), hshort _ hlen⟩
  · obtain ⟨hclosed, hfits⟩ := h.resolve_left hlen
    obtain ⟨ts, w, hw, hs, hlong⟩ := tokens_cr (by decide : CR ≠ space) value
    simp only [mediadescParseAttrSsrcGroup, Call.ret_bind, cstrSplit] at hfits ⊢
    rw [if_neg (hw hclosed)] at hs
    rw [hlong] at hlen
    rw [hs] at hfits
    rw [hs, hlong]
    match ts with
    | [] => simp at hlen
    | [semantic] => simp at hlen
    | [semantic, id] =>
      have hsemantic : semantic.length < 64 := hfits semantic rfl
      simp only [List.cons_append, List.nil_append, strcpy, hsemantic, if_true, Call.ret_bind,
        List.map_cons, List.map_nil, atoi_cr]
      exact ⟨_, rfl, rfl⟩
    | semantic :: id :: next :: ts =>
      have hsemantic : semantic.length < 64 := hfits semantic rfl
      simp only [List.cons_append, strcpy, hsemantic, if_true, Call.ret_bind, List.map_cons,
        List.map_append, List.map_nil, atoi_cr]
      exact ⟨_, rfl, rfl⟩

theorem candidate_agree (h : CandidateUntouched value) :
    Agree (mediadescParseAttrCandidate desc (.ret value))
      (mediadescParseAttrCandidate desc (.ret (value ++ [CR]))) := by
  have hshort : ∀ v, (tokens space v).length < 8 →
      mediadescParseAttrCandidate desc (.ret v) = .ret (errorRtcSdpDecode, desc) := by
    intro v hv
    simp only [mediadescParseAttrCandidate, Call.ret_bind, cstrSplit]
    split
    · rename_i hts
      rw [hts] at hv
      simp only [List.length_cons] at hv
      omega
    · rfl
  rcases h with hlen | ⟨a, b, c, d, ip, port, e, type, last, more, htokens, hip, htype⟩
  · exact ⟨_, hshort _ (length_tokens_cr_le.trans_lt hlen), hshort _ hlen⟩
  · obtain ⟨ts, w, -, hs, hlong⟩ := tokens_cr (by decide : CR ≠ space) value
    have hprefix : ∃ more',
        tokens space value = a :: b :: c :: d :: ip :: port :: e :: type :: more' := by
      rw [cstrSplit, hlong] at htokens
      have htake := congrArg (List.take 8) htokens
      have hlen : 8 ≤ ts.length := by
        have := congrArg List.length htokens
        simp only [List.length_append, List.length_cons, List.length_nil] at this
        omega
      rw [List.take_append_of_le_length hlen] at htake
      refine ⟨ts.drop 8 ++ if w = [] then [] else [w], ?_⟩
      rw [hs]
      conv_lhs => rw [← List.take_append_drop 8 ts, htake]
      rfl
    obtain ⟨more', hs'⟩ := hprefix
    rw [cstrSplit] at htokens
    simp only [mediadescParseAttrCandidate, Call.ret_bind, cstrSplit, htokens, hs', strcpy, hip,
      htype, if_true]
    exact ⟨_, rfl, rfl⟩

theorem ssrc_agree (hroom : value.length + 1 < 128) (h : SsrcUntouched value) :
    Agree (mediadescParseAttrSsrc desc value) (mediadescParseAttrSsrc desc (value ++ [CR])) := by
  obtain ⟨intstr, tail, id, p, before, attr, rest, hcolon, hid, hspace, hattr, hlen, hcname,
    hmslabel, hlabel, hmsid⟩ := h
  have hread : readTo 128 value = .ret value := strcpy_eq_ret.mpr ⟨by omega, rfl⟩
  have hread' : readTo 128 (value ++ [CR]) = .ret (value ++ [CR]) :=
    strcpy_eq_ret.mpr ⟨by simpa using hroom, rfl⟩
  simp only [mediadescParseAttrSsrc, cut_concat (by decide : CR ≠ space),
    cut_concat (by decide : CR ≠ colon), hcolon, hspace, hattr, Option.map_some, Call.deref_some,
    Call.ret_bind, hid, memcpyTo, hlen, if_true, hcname, hmslabel, hlabel, if_false, hread, hread',
    Call.pure_eq]
  by_cases hname : attr = lit "msid"
  · obtain ⟨msid, tracker, third, more, htokens, hm, ht⟩ := hmsid hname
    obtain ⟨more', hs⟩ := tokens_three htokens
    rw [cstrSplit] at htokens
    simp only [hname, if_true, cstrSplit, htokens, hs, strcpy, hm, ht, Call.ret_bind]
    exact ⟨_, rfl, rfl⟩
  · simp only [hname, if_false]
    exact ⟨_, rfl, rfl⟩

theorem sessionInfo_agree {info : YangSessionInfo} {attr : CStr}
    (h : SessionInfoUntouched value info attr) :
    Agree (sessioninfoParseAttribute info attr (.ret value))
      (sessioninfoParseAttribute info attr (.ret (value ++ [CR]))) := by
  unfold sessioninfoParseAttribute
  split
  · rename_i hattr
    exact ⟨info, by rw [if_pos (h.iceUfrag hattr)], by rw [if_pos (h.iceUfrag hattr)]⟩
  split
  · rename_i hattr
    exact ⟨info, by rw [if_pos (h.icePwd hattr)], by rw [if_pos (h.icePwd hattr)]⟩
  split
  · rename_i hattr
    exact ⟨info, by rw [if_pos (h.iceOptions hattr)], by rw [if_pos (h.iceOptions hattr)]⟩
  split
  · rename_i hattr
    split
    · exact ⟨info, rfl, rfl⟩
    · rename_i hempty
      have hno := (h.fingerprint hattr).resolve_left hempty
      simp only [Call.ret_bind, cut_concat (by decide : CR ≠ space), cut_eq_none.mpr hno,
        Option.map_none]
      exact ⟨_, rfl, rfl⟩
  split
  · rename_i hattr
    exact ⟨info, by rw [if_pos (h.setup hattr)], by rw [if_pos (h.setup hattr)]⟩
  · exact ⟨info, rfl, rfl⟩

theorem dispatch_agree {attr : CStr} (h : ValueUntouched desc value attr) :
    Agree (mediadescDispatch desc attr value) (mediadescDispatch desc attr (value ++ [CR])) := by
  have hread : readTo 128 value = .ret value := strcpy_eq_ret.mpr ⟨by have := h.room; omega, rfl⟩
  have hread' : readTo 128 (value ++ [CR]) = .ret (value ++ [CR]) :=
    strcpy_eq_ret.mpr ⟨by simpa using h.room, rfl⟩
  simp only [mediadescDispatch, hread, hread']
  refine agree_ite (fun hattr => extmap_agree (h.extmap hattr)) fun _ => ?_
  refine agree_ite (fun hattr => rtpmap_agree (h.rtpmap hattr)) fun _ => ?_
  refine agree_ite (fun _ => ⟨_, rfl, rfl⟩) fun _ => ?_
  refine agree_ite (fun hattr => rtcpFb_agree (h.rtcpFb hattr)) fun _ => ?_
  refine agree_ite (fun hattr => fmtp_agree h.room (h.fmtp hattr)) fun _ => ?_
  refine agree_ite (fun hattr => absurd hattr h.mid) fun _ => ?_
  refine agree_ite (fun hattr => msid_agree (h.msid hattr)) fun _ => ?_
  refine agree_ite (fun hattr => ssrc_agree h.room (h.ssrc hattr)) fun _ => ?_
  refine agree_ite (fun hattr => ssrcGroup_agree (h.ssrcGroup hattr)) fun _ => ?_
  refine agree_ite (fun hattr => candidate_agree (h.candidate hattr)) fun _ => ?_
  iterate 6 refine agree_ite (fun _ => ⟨_, rfl, rfl⟩) fun _ => ?_
  obtain ⟨info, hinfo, hinfo'⟩ := sessionInfo_agree h.toSessionInfoUntouched
  exact ⟨(0, { desc with sessionInfo := info }), by rw [hinfo]; rfl, by rw [hinfo']; rfl⟩

/-- No attribute the parser knows has a carriage return in its name. -/
theorem dispatch_unknown {attr : CStr} (hcr : CR ∈ attr) (array : CStr) :
    mediadescDispatch desc attr array = .ret (0, desc) := by
  have hne : ∀ name : CStr, CR ∉ name → attr ≠ name := fun name hname he => hname (he ▸ hcr)
  have hinfo : sessioninfoParseAttribute desc.sessionInfo attr (readTo 128 array) =
      .ret desc.sessionInfo := by
    unfold sessioninfoParseAttribute
    rw [if_neg (hne _ (by decide)), if_neg (hne _ (by decide)), if_neg (hne _ (by decide)),
      if_neg (hne _ (by decide)), if_neg (hne _ (by decide))]
  unfold mediadescDispatch
  rw [if_neg (hne _ (by decide)), if_neg (hne _ (by decide)), if_neg (hne _ (by decide)),
    if_neg (hne _ (by decide)), if_neg (hne _ (by decide)), if_neg (hne _ (by decide)),
    if_neg (hne _ (by decide)), if_neg (hne _ (by decide)), if_neg (hne _ (by decide)),
    if_neg (hne _ (by decide)), if_neg (hne _ (by decide)), if_neg (hne _ (by decide)),
    if_neg (hne _ (by decide)), if_neg (hne _ (by decide)), if_neg (hne _ (by decide)),
    if_neg (hne _ (by decide)), hinfo]
  rfl

/-- An attribute without a value gives the session nothing it has not got. -/
theorem sessionInfo_bare {info : YangSessionInfo} {attr : CStr}
    (h : attr = lit "fingerprint" → info.fingerprintAlgo ≠ [] ∨ info.fingerprint = []) :
    sessioninfoParseAttribute info attr (.ret []) = .ret info := by
  obtain ⟨iceUfrag, icePwd, iceOptions, fingerprintAlgo, fingerprint, setup⟩ := info
  unfold sessioninfoParseAttribute
  split
  · cases iceUfrag <;> rfl
  split
  · cases icePwd <;> rfl
  split
  · cases iceOptions <;> rfl
  split
  · rename_i hattr
    cases fingerprintAlgo with
    | cons => rfl
    | nil =>
      have hfp : fingerprint = [] := (h hattr).resolve_left (by simp)
      rw [hfp]
      rfl
  split
  · cases setup <;> rfl
  · rfl

theorem dispatch_bare {attr : CStr} (h : BareUntouched desc attr) :
    mediadescDispatch desc attr [] = .ret (0, desc) := by
  have hread : readTo 128 [] = .ret [] := rfl
  have hrefused := h.refused
  simp only [List.mem_cons, List.not_mem_nil, or_false, not_or] at hrefused
  obtain ⟨hextmap, hrtpmap, hfb, hfmtp, hssrc, hgroup, hcandidate⟩ := hrefused
  unfold mediadescDispatch
  rw [hread, if_neg hextmap, if_neg hrtpmap, if_neg hfb, if_neg hfmtp, if_neg hssrc,
    if_neg hgroup, if_neg hcandidate]
  split
  · rfl
  split
  · rename_i hattr
    simp only [mediadescParseAttrMid, Call.ret_bind]
    rw [show strcpy 64 [] = .ret [] from rfl, ← h.mid hattr]
    rfl
  split
  · rfl
  split
  · rename_i hattr
    rw [← h.rtcpMux hattr]
  split
  · rename_i hattr
    rw [← h.rtcpRsize hattr]
  split
  · rename_i hattr
    rw [← h.recvonly hattr]
  split
  · rename_i hattr
    rw [← h.sendonly hattr]
  split
  · rename_i hattr
    rw [← h.sendrecv hattr]
  split
  · rename_i hattr
    rw [← h.inactive hattr]
  · rw [sessionInfo_bare h.fingerprint]
    rfl

theorem attribute_agree {content : CStr} (h : AttributeUntouched desc content) :
    Agree (mediadescParseAttribute desc content)
      (mediadescParseAttribute desc (content ++ [CR])) := by
  simp only [mediadescParseAttribute, cut_concat (by decide : CR ≠ colon)]
  cases hcut : cut colon content with
  | none =>
    have hbare := h.2 hcut
    have hcopy : strcpy 128 content = .ret content :=
      strcpy_eq_ret.mpr ⟨by have := hbare.room; omega, rfl⟩
    have hcopy' : strcpy 128 (content ++ [CR]) = .ret (content ++ [CR]) :=
      strcpy_eq_ret.mpr ⟨by simpa using hbare.room, rfl⟩
    simp only [Option.map_none, hcopy, hcopy', Call.ret_bind, dispatch_bare hbare,
      dispatch_unknown (List.mem_append_right content (List.mem_singleton_self CR))]
    exact ⟨_, rfl, rfl⟩
  | some ab =>
    have hvalue := h.1 ab.1 ab.2 hcut
    have hname : memcpyTo 128 ab.1 = .ret ab.1 := memcpyTo_eq_ret.mpr ⟨hvalue.name, rfl⟩
    have hcopy : memcpyTo 128 ab.2 = .ret ab.2 :=
      memcpyTo_eq_ret.mpr ⟨by have := hvalue.room; omega, rfl⟩
    have hcopy' : memcpyTo 128 (ab.2 ++ [CR]) = .ret (ab.2 ++ [CR]) :=
      memcpyTo_eq_ret.mpr ⟨by simpa using hvalue.room.le, rfl⟩
    simp only [Option.map_some, hname, hcopy, hcopy', Call.ret_bind]
    exact dispatch_agree hvalue

end Readings

end MetaRtc
