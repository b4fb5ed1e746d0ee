import MetaRtc.Lib.Run
import MetaRtc.Sdp.AttributeFits
import MetaRtc.Sdp.RtcSdp

/-! # The lines that a description has room for -/
namespace MetaRtc

open Exec Tokens

section Conditions

variable (content : CStr)

/-- Too few tokens, or all six. -/
def OriginFits : Prop :=
  (cstrSplit content space).length < 5 ∨
    ∃ username sessionId sessionVersion nettype addrtype unicastAddress more,
      cstrSplit content space =
        username :: sessionId :: sessionVersion :: nettype :: addrtype :: unicastAddress :: more ∧
      username.length < 128 ∧ sessionId.length < 32 ∧ sessionVersion.length < 128 ∧
      nettype.length < 16 ∧ addrtype.length < 32 ∧ unicastAddress.length < 32

def MediaDescriptionFits : Prop :=
  ∀ type port protos format more,
    cstrSplit content space = type :: port :: protos :: format :: more →
    type.length < 16 ∧ protos.length < 64

def GroupFits (value : CStr) : Prop :=
  ∀ policy groups, cstrSplit value space = policy :: groups → policy.length < 16

def MsidSemanticFits (value : CStr) : Prop :=
  ∃ semantic msids, cstrSplit value space = semantic :: msids ∧ semantic.length < 64

/-- Of an attribute without a colon nothing is read. -/
def SessionAttributeFits (sdp : YangSdp) : Prop :=
  match (cut colon content).getD ([], []) with
  | (attr, value) => attr.length ≤ 256 ∧ value.length < 256 ∧
    if attr = lit "group" then GroupFits value
    else if attr = lit "msid-semantic" then MsidSemanticFits value
    else SessionInfoFits 256 sdp.sessionInfo attr value

/-- What comes after `type=`, where the description is as far as the lines before have made it. -/
def ContentFits (sdp : YangSdp) (type : UInt8) : Prop :=
  if type = 111 then OriginFits content
  else if type = 118 then content.length < 16
  else if type = 115 then content.length < 64
  else if type = 116 then True
  else if type = 97 then
    if sdp.inMediaSession then
      ∃ last, sdp.mediaDescs.getLast? = some last ∧ AttributeFits last content
    else SessionAttributeFits content sdp
  else if type = 109 then MediaDescriptionFits content
  else True

/-- Other lines are refused. -/
def LineFits (sdp : YangSdp) (line : CStr) : Prop :=
  ∀ type content, line = type :: 61 :: content → ContentFits content sdp type

/-- A line is read without an error. -/
def LineStep (sdp : YangSdp) (line : CStr) (sdp' : YangSdp) : Prop :=
  ∃ type content, line = type :: 61 :: content ∧ rtcsdpParseLine sdp type content = .ret (0, sdp')

end Conditions

/-- The parser comes back with a description or an error: no token was missing, and no string
longer than its array. -/
def ParsesSafely (sdp : YangSdp) (sdpStr : CStr) : Prop := ∃ r, rtcsdpParse sdp sdpStr = .ret r

section Returns

variable {sdp : YangSdp} {content value attr : CStr}

theorem cons_drop {α : Type} {i : Nat} {xs : List α} {x : α} (h : xs[i]? = some x) :
    xs.drop i = x :: xs.drop (i + 1) := by
  obtain ⟨hi, rfl⟩ := List.getElem?_eq_some_iff.mp h
  exact List.drop_eq_getElem_cons hi

theorem origin_fits : (∃ r, rtcsdpParseOrigin sdp content = .ret r) ↔ OriginFits content := by
  unfold rtcsdpParseOrigin OriginFits
  dsimp only
  by_cases hshort : (cstrSplit content space).length < 5
  · rw [if_pos hshort]
    exact iff_of_true ⟨_, rfl⟩ (.inl hshort)
  · rw [if_neg hshort, or_iff_right hshort]
    simp only [deref_returns, strcpy_returns, Call.pure_eq, ret_returns, and_true]
    constructor
    · rintro ⟨a, ha, ha', b, hb, hb', c, hc, hc', d, hd, hd', e, he, he', f, hf, hf'⟩
      refine ⟨a, b, c, d, e, f, (cstrSplit content space).drop 6, ?_, ha', hb', hc', hd', he', hf'⟩
      calc cstrSplit content space = a :: (cstrSplit content space).drop 1 := cons_drop ha
        _ = _ := by rw [cons_drop hb, cons_drop hc, cons_drop hd, cons_drop he, cons_drop hf]
    · rintro ⟨a, b, c, d, e, f, more, htokens, ha, hb, hc, hd, he, hf⟩
      rw [htokens]
      exact ⟨a, rfl, ha, b, rfl, hb, c, rfl, hc, d, rfl, hd, e, rfl, he, f, rfl, hf⟩

theorem version_fits : (∃ r, rtcsdpParseVersion sdp content = .ret r) ↔ content.length < 16 := by
  unfold rtcsdpParseVersion
  rw [strcpy_returns, Call.pure_eq, ret_returns, and_true]
  by_cases hempty : content = []
  · rw [if_neg fun h => h hempty, hempty]
    decide
  · rw [if_pos hempty]

theorem sessionName_fits :
    (∃ r, rtcsdpParseSessionName sdp content = .ret r) ↔ content.length < 64 := by
  unfold rtcsdpParseSessionName
  rw [strcpy_returns, Call.pure_eq, ret_returns, and_true]

theorem timing_fits : (∃ r, rtcsdpParseTiming sdp content = .ret r) ↔ True := by
  unfold rtcsdpParseTiming
  split
  · exact ret_returns
  · exact ret_returns

theorem group_fits : (∃ r, rtcsdpParseAttrGroup sdp value = .ret r) ↔ GroupFits value := by
  unfold rtcsdpParseAttrGroup GroupFits
  cases cstrSplit value space with
  | nil => exact iff_of_true ⟨_, rfl⟩ fun _ _ h => nomatch h
  | cons policy groups =>
    dsimp only
    rw [strcpy_returns, Call.pure_eq, ret_returns, and_true]
    constructor
    · rintro hfits _ _ ⟨⟩
      exact hfits
    · intro hfits
      exact hfits policy groups rfl

theorem msidSemantic_fits :
    (∃ r, rtcsdpParseMsidSemantic sdp value = .ret r) ↔ MsidSemanticFits value := by
  unfold rtcsdpParseMsidSemantic MsidSemanticFits
  dsimp only
  rw [deref_returns]
  cases cstrSplit value space with
  | nil =>
    refine iff_of_false ?_ ?_
    · rintro ⟨_, h, -⟩
      exact nomatch h
    · rintro ⟨_, _, h, -⟩
      exact nomatch h
  | cons semantic msids =>
    simp [strcpy_returns]

theorem mediaDescription_fits :
    (∃ r, rtcsdpParseMediaDescription sdp content = .ret r) ↔ MediaDescriptionFits content := by
  unfold rtcsdpParseMediaDescription MediaDescriptionFits
  split
  · rename_i type port protos format more htokens
    rw [strcpy_returns, strcpy_returns, Call.pure_eq, ret_returns, and_true]
    constructor
    · intro hfits _ _ _ _ _ h
      cases htokens.symm.trans h
      exact hfits
    · intro hfits
      exact hfits _ _ _ _ _ htokens
  · rename_i hshort
    exact iff_of_true ⟨_, rfl⟩ fun _ _ _ _ _ h => absurd h (hshort _ _ _ _ _)

theorem sessionAttribute_fits :
    (∃ r, rtcsdpParseAttribute sdp content = .ret r) ↔ SessionAttributeFits content sdp := by
  unfold rtcsdpParseAttribute SessionAttributeFits
  generalize (cut colon content).getD ([], []) = parts
  obtain ⟨name, rest⟩ := parts
  dsimp only
  rw [memcpyTo_returns]
  refine and_congr_right fun _ => ?_
  rw [strcpy_returns]
  refine and_congr_right fun hvalue => ?_
  refine ite_returns group_fits <| ite_returns msidSemantic_fits ?_
  have hread : readTo 256 rest = .ret rest := if_pos hvalue
  rw [← hread, bind_returns, ← sessionInfo_fits (by decide)]
  exact exists_congr fun _ => and_iff_left ⟨_, rfl⟩

theorem mediadescLine_fits : (∃ r, mediadescParseLine sdp content = .ret r) ↔
    ∃ last, sdp.mediaDescs.getLast? = some last ∧ AttributeFits last content := by
  unfold mediadescParseLine
  rw [deref_returns]
  refine exists_congr fun last => and_congr_right fun _ => ?_
  rw [bind_returns, ← attribute_returns]
  exact exists_congr fun _ => and_iff_left ⟨_, rfl⟩

theorem content_fits {type : UInt8} :
    (∃ r, rtcsdpParseLine sdp type content = .ret r) ↔ ContentFits content sdp type := by
  unfold rtcsdpParseLine ContentFits
  exact ite_returns origin_fits <| ite_returns version_fits <| ite_returns sessionName_fits <|
    ite_returns timing_fits <| ite_returns (ite_returns mediadescLine_fits sessionAttribute_fits) <|
    ite_returns mediaDescription_fits ret_returns

theorem rtcsdpParseLines_line {type : UInt8} {lines : List CStr} :
    rtcsdpParseLines sdp ((type :: 61 :: content) :: lines) =
      rtcsdpParseLine sdp type content >>= fun r =>
        if r.1 ≠ 0 then .ret (1, r.2) else rtcsdpParseLines r.2 lines := rfl

theorem rtcsdpParseLines_other {line : CStr} {lines : List CStr}
    (h : ∀ type content, line ≠ type :: 61 :: content) :
    rtcsdpParseLines sdp (line :: lines) = .ret (errorRtcSdpDecode, sdp) := by
  unfold rtcsdpParseLines
  split
  · rename_i hnil
    exact nomatch hnil
  · rename_i type content _ hline
    cases hline
    exact absurd rfl (h type content)
  · rfl

theorem lines_fit {lines : List CStr} : (∃ r, rtcsdpParseLines sdp lines = .ret r) ↔
    Run.Throughout LineStep LineFits lines sdp := by
  induction lines generalizing sdp with
  | nil => exact iff_of_true ⟨_, rfl⟩ trivial
  | cons line lines ih =>
    by_cases hline : ∃ type content, line = type :: 61 :: content
    · obtain ⟨type, content, rfl⟩ := hline
      rw [rtcsdpParseLines_line, bind_returns]
      constructor
      · rintro ⟨⟨err, sdp'⟩, hone, hrest⟩
        constructor
        · rintro _ _ ⟨⟩
          exact content_fits.mp ⟨_, hone⟩
        · rintro t ⟨_, _, ⟨⟩, hstep⟩
          cases hone.symm.trans hstep
          exact ih.mp hrest
      · rintro ⟨hfits, hrest⟩
        obtain ⟨⟨err, sdp'⟩, hone⟩ := content_fits.mpr (hfits type content rfl)
        refine ⟨⟨err, sdp'⟩, hone, ?_⟩
        by_cases herr : err = 0
        · subst herr
          exact ih.mpr (hrest sdp' ⟨type, content, rfl, hone⟩)
        · exact ⟨_, if_pos herr⟩
    · have hother : ∀ type content, line ≠ type :: 61 :: content :=
        fun type content h => hline ⟨type, content, h⟩
      rw [rtcsdpParseLines_other hother]
      refine iff_of_true ⟨_, rfl⟩ ⟨fun type content h => absurd h (hother type content), ?_⟩
      rintro t ⟨type, content, h, -⟩
      exact absurd h (hother type content)

end Returns

/-- The parser is safe exactly if each line that it comes to has room in the description, as the
lines before have made it. -/
theorem sdp_parse_safe (sdp : YangSdp) (sdpStr : CStr) : ParsesSafely sdp sdpStr ↔
    Run.Throughout LineStep LineFits (cstrSplit sdpStr LF) sdp := by
  unfold ParsesSafely rtcsdpParse
  rw [bind_returns, ← lines_fit]
  refine exists_congr fun r => and_iff_left ?_
  by_cases herr : r.1 = 0
  · exact ⟨_, if_neg fun hne => hne herr⟩
  · exact ⟨_, if_pos herr⟩

/-- A format without parameters. -/
def bareFormat : CStr := lit "m=audio 9 UDP/TLS/RTP/SAVPF 111\na=fmtp:111\n"

theorem parameters_missing : ¬ParsesSafely createRtcsdp bareFormat := by
  have hcrash : rtcsdpParse createRtcsdp bareFormat = .crash := by decide
  rintro ⟨r, h⟩
  rw [hcrash] at h
  exact nomatch h

end MetaRtc
