import MetaRtc.Sdp.MediaDesc

/-! # The attributes that a section has room for

Each condition says what an attribute may be so that every token it is read for is there, and no
string is longer than the array it is copied to. -/
namespace MetaRtc

open Exec Tokens

section Conditions

variable (desc : YangMediaDesc) (array : CStr)

/-- The value ends in its array, and so does the number before its first space. -/
def NumberedFits : Prop :=
  array.length < 128 ∧ ∀ intstr rest, cut space array = some (intstr, rest) → NumberFits intstr

/-- Behind the number of a known payload type, a name with a clock rate. -/
def RtpmapFits : Prop :=
  NumberedFits array ∧ ∀ intstr rest, cut space array = some (intstr, rest) →
    mediadescFindMediaWithPayloadType desc (atoi intstr) ≠ none →
      ∀ name rate more, cstrSplit rest slash = name :: rate :: more → name.length < 16

def FmtpFits : Prop :=
  array.length < 128 ∧ ∀ format, cstrSplit array space = [format] →
    mediadescFindMediaWithPayloadType desc (atoi format) = none

def MsidFits : Prop :=
  array.length < 128 ∧ ∀ msid tracker more, cstrSplit array space = msid :: tracker :: more →
    msid.length < 64 ∧ tracker.length < 64

def SsrcGroupFits : Prop :=
  array.length < 128 ∧ ∀ semantic id next more,
    cstrSplit array space = semantic :: id :: next :: more → semantic.length < 64

def CandidateFits : Prop :=
  array.length < 128 ∧ ∀ foundation component transport priority ip port typ type more,
    cstrSplit array space =
      foundation :: component :: transport :: priority :: ip :: port :: typ :: type :: more →
    ip.length < 64 ∧ type.length < 32

/-- What is said of a source: its one token, or the two it begins with. -/
def SsrcMsidFits (value : CStr) : Prop :=
  (∀ only, cstrSplit value space = [only] → (value.takeWhile (· = space) ++ only).length < 64) ∧
    ∀ msid tracker more, cstrSplit value space = msid :: tracker :: more →
      msid.length < 64 ∧ tracker.length < 64

def SsrcValueFits (attr value : CStr) : Prop :=
  if attr = lit "cname" then array.length < 128 ∧ value.length < 64
  else if attr = lit "msid" then array.length < 128 ∧ SsrcMsidFits value
  else if attr = lit "mslabel" then array.length < 128 ∧ value.length < 64
  else if attr = lit "label" then array.length < 128 ∧ value.length < 64
  else True

/-- There are a colon, a space and a colon behind that space. -/
def SsrcFits : Prop :=
  ∃ intstr tail, cut colon array = some (intstr, tail) ∧ NumberFits intstr ∧
    ∃ before p, cut space array = some (before, p) ∧
      ∃ attr value, cut colon p = some (attr, value) ∧ attr.length ≤ 16 ∧
        SsrcValueFits array attr value

/-- An attribute of a session or of a section, in an array of `room` bytes. What the session has
already is not copied again. -/
def SessionInfoFits (room : Nat) (info : YangSessionInfo) (attr value : CStr) : Prop :=
  if attr = lit "ice-ufrag" then info.iceUfrag = [] → value.length < 32
  else if attr = lit "ice-pwd" then info.icePwd = [] → value.length < 128
  else if attr = lit "ice-options" then info.iceOptions = [] → value.length < 128
  else if attr = lit "fingerprint" then info.fingerprintAlgo = [] → value.length < room ∧
    ∀ algo rest, cut space value = some (algo, rest) → algo.length ≤ 128 ∧ rest.length < 128
  else if attr = lit "setup" then info.setup = [] → value.length < 128
  else True

/-- The value of an attribute of a section is copied to an array without its NUL. -/
def ValueFits (attr : CStr) : Prop :=
  if attr = lit "extmap" then NumberedFits array
  else if attr = lit "rtpmap" then RtpmapFits desc array
  else if attr = lit "rtcp" then True
  else if attr = lit "rtcp-fb" then NumberedFits array
  else if attr = lit "fmtp" then FmtpFits desc array
  else if attr = lit "mid" then array.length < 64
  else if attr = lit "msid" then MsidFits array
  else if attr = lit "ssrc" then SsrcFits array
  else if attr = lit "ssrc-group" then SsrcGroupFits array
  else if attr = lit "candidate" then CandidateFits array
  else if attr = lit "rtcp-mux" then True
  else if attr = lit "rtcp-rsize" then True
  else if attr = lit "recvonly" then True
  else if attr = lit "sendonly" then True
  else if attr = lit "sendrecv" then True
  else if attr = lit "inactive" then True
  else SessionInfoFits 128 desc.sessionInfo attr array

/-- An attribute without a colon is all name. -/
def AttributeFits (content : CStr) : Prop :=
  match cut colon content with
  | some (name, rest) => name.length ≤ 128 ∧ rest.length ≤ 128 ∧ ValueFits desc rest name
  | none => content.length < 128 ∧ ValueFits desc [] content

end Conditions

section Returns

variable {desc : YangMediaDesc} {array value attr : CStr} {info : YangSessionInfo} {room : Nat}

theorem readTo_returns {α : Type} {f : CStr → Call α} :
    (∃ a, (readTo room value >>= f) = .ret a) ↔ value.length < room ∧ ∃ a, f value = .ret a :=
  strcpy_returns

/-- A value copied to an array of its own. -/
theorem copied_returns {size : Nat} {α : Type} {f : CStr → α} (h : size ≤ room) :
    (∃ a, (readTo room value >>= fun v => strcpy size v >>= fun s => (pure (f s) : Call α)) =
      .ret a) ↔ value.length < size := by
  rw [readTo_returns, strcpy_returns, Call.pure_eq, ret_returns, and_true]
  omega

theorem rest_lt {sep : UInt8} {before rest : CStr} (h : array.length < room)
    (hcut : cut sep array = some (before, rest)) : rest.length < room := by
  have hlen := congrArg List.length (cut_eq_some.mp hcut).1
  rw [List.length_append, List.length_cons] at hlen
  omega

theorem token_lt {sep : UInt8} {token : CStr} (h : array.length < room)
    (htoken : token ∈ cstrSplit array sep) : token.length < room :=
  lt_of_le_of_lt (length_le_of_mem_tokens htoken) h

/-- What the parsers of numbered attributes do first: without a space, the value is refused. -/
theorem numbered_returns {α : Type} {a : α} {f : CStr → Int32 → Call α} :
    (∃ b, (readTo 128 array >>= fun value =>
        match cut space value with
        | none => .ret a
        | some (intstr, rest) => intstrValue intstr >>= f rest) = .ret b) ↔
      NumberedFits array ∧ ∀ intstr rest, cut space array = some (intstr, rest) →
        ∃ b, f rest (atoi intstr) = .ret b := by
  unfold NumberedFits
  rw [readTo_returns, and_assoc]
  refine and_congr_right fun hroom => ?_
  cases hcut : cut space array with
  | none => exact iff_of_true ⟨a, rfl⟩ ⟨fun _ _ h => (nomatch h), fun _ _ h => nomatch h⟩
  | some parts =>
    obtain ⟨intstr, rest⟩ := parts
    dsimp only
    rw [intstrValue_returns]
    constructor
    · rintro ⟨hfits, hrest⟩
      constructor
      · rintro _ _ ⟨⟩
        exact hfits
      · rintro _ _ ⟨⟩
        exact hrest
    · rintro ⟨hfits, hrest⟩
      exact ⟨hfits intstr rest rfl, hrest intstr rest rfl⟩

theorem extmap_returns : (∃ r, mediadescParseAttrExtmap desc (readTo 128 array) = .ret r) ↔
    NumberedFits array := by
  refine numbered_returns.trans (and_iff_left_of_imp fun hfits intstr rest hcut => ?_)
  split
  · exact ⟨_, rfl⟩
  · exact strcpy_returns.mpr ⟨rest_lt hfits.1 hcut, _, rfl⟩

theorem rtcpFb_returns : (∃ r, mediadescParseAttrRtcpFb desc (readTo 128 array) = .ret r) ↔
    NumberedFits array := by
  refine numbered_returns.trans (and_iff_left_of_imp fun _ intstr rest _ => ?_)
  split
  · exact ⟨_, rfl⟩
  · exact ⟨_, rfl⟩

theorem rtpmap_returns : (∃ r, mediadescParseAttrRtpmap desc (readTo 128 array) = .ret r) ↔
    RtpmapFits desc array := by
  refine numbered_returns.trans (and_congr_right fun hfits => ?_)
  refine forall_congr' fun intstr => forall_congr' fun rest => forall_congr' fun hcut => ?_
  have hrest := rest_lt hfits.1 hcut
  cases hfind : mediadescFindMediaWithPayloadType desc (atoi intstr) with
  | none => exact iff_of_true ⟨_, rfl⟩ fun h => absurd rfl h
  | some i =>
    rw [imp_iff_right (Option.some_ne_none i)]
    dsimp only
    rcases htokens : cstrSplit rest slash with _ | ⟨name, _ | ⟨rate, more⟩⟩
    · exact iff_of_true ⟨_, rfl⟩ fun _ _ _ h => nomatch h
    · exact iff_of_true ⟨_, rfl⟩ fun _ _ _ h => nomatch h
    · refine strcpy_returns.trans ?_
      constructor
      · rintro ⟨hname, -⟩ _ _ _ ⟨⟩
        exact hname
      · intro hname
        refine ⟨hname name rate more rfl, ?_⟩
        split
        · rename_i param hparam
          have hmem : param ∈ cstrSplit rest slash := by
            split at hparam
            · rw [htokens]
              have hhead := List.mem_of_mem_head? hparam
              exact List.mem_cons_of_mem _ (List.mem_cons_of_mem _ hhead)
            · exact nomatch hparam
          exact strcpy_returns.mpr ⟨token_lt (by omega) hmem, _, rfl⟩
        · exact ⟨_, rfl⟩

theorem fmtp_returns : (∃ r, mediadescParseAttrFmtp desc (readTo 128 array) = .ret r) ↔
    FmtpFits desc array := by
  unfold mediadescParseAttrFmtp FmtpFits
  rw [readTo_returns]
  refine and_congr_right fun hroom => ?_
  dsimp only
  cases htokens : cstrSplit array space with
  | nil => exact iff_of_true ⟨_, rfl⟩ fun _ h => nomatch h
  | cons format more =>
    rw [List.getElem?_cons_zero]
    dsimp only
    cases hfind : mediadescFindMediaWithPayloadType desc (atoi format) with
    | none =>
      refine iff_of_true ⟨_, rfl⟩ ?_
      rintro _ ⟨⟩
      exact hfind
    | some i =>
      dsimp only
      rw [List.getElem?_cons_succ, deref_returns]
      cases more with
      | nil =>
        refine iff_of_false ?_ fun h => ?_
        · rintro ⟨_, h, -⟩
          exact nomatch h
        · rw [h format rfl] at hfind
          exact nomatch hfind
      | cons param more =>
        have hmem : param ∈ cstrSplit array space := by simp [htokens]
        refine iff_of_true ⟨param, rfl, ?_⟩ fun _ h => nomatch h
        exact strcpy_returns.mpr ⟨token_lt hroom hmem, _, rfl⟩

theorem mid_returns : (∃ r, mediadescParseAttrMid desc (readTo 128 array) = .ret r) ↔
    array.length < 64 :=
  copied_returns (by decide)

theorem msid_returns : (∃ r, mediadescParseAttrMsid desc (readTo 128 array) = .ret r) ↔
    MsidFits array := by
  unfold mediadescParseAttrMsid MsidFits
  rw [readTo_returns]
  refine and_congr_right fun _ => ?_
  rcases cstrSplit array space with _ | ⟨msid, _ | ⟨tracker, more⟩⟩
  · exact iff_of_true ⟨_, rfl⟩ fun _ _ _ h => nomatch h
  · exact iff_of_true ⟨_, rfl⟩ fun _ _ _ h => nomatch h
  · dsimp only
    rw [strcpy_returns, strcpy_returns, Call.pure_eq, ret_returns, and_true]
    constructor
    · rintro hfits _ _ _ ⟨⟩
      exact hfits
    · intro hfits
      exact hfits msid tracker more rfl

theorem ssrcGroup_returns : (∃ r, mediadescParseAttrSsrcGroup desc (readTo 128 array) = .ret r) ↔
    SsrcGroupFits array := by
  unfold mediadescParseAttrSsrcGroup SsrcGroupFits
  rw [readTo_returns]
  refine and_congr_right fun _ => ?_
  rcases cstrSplit array space with _ | ⟨semantic, _ | ⟨id, _ | ⟨next, more⟩⟩⟩
  · exact iff_of_true ⟨_, rfl⟩ fun _ _ _ _ h => nomatch h
  · exact iff_of_true ⟨_, rfl⟩ fun _ _ _ _ h => nomatch h
  · exact iff_of_true ⟨_, rfl⟩ fun _ _ _ _ h => nomatch h
  · dsimp only
    rw [strcpy_returns, Call.pure_eq, ret_returns, and_true]
    constructor
    · rintro hfits _ _ _ _ ⟨⟩
      exact hfits
    · intro hfits
      exact hfits semantic id next more rfl

theorem candidate_returns : (∃ r, mediadescParseAttrCandidate desc (readTo 128 array) = .ret r) ↔
    CandidateFits array := by
  unfold mediadescParseAttrCandidate CandidateFits
  rw [readTo_returns]
  refine and_congr_right fun _ => ?_
  split
  · rename_i foundation component transport priority ip port typ type more htokens
    rw [strcpy_returns, strcpy_returns, Call.pure_eq, ret_returns, and_true]
    constructor
    · intro hfits _ _ _ _ _ _ _ _ _ h
      cases htokens.symm.trans h
      exact hfits
    · intro hfits
      exact hfits _ _ _ _ _ _ _ _ _ htokens
  · rename_i hshort
    exact iff_of_true ⟨_, rfl⟩ fun _ _ _ _ _ _ _ _ _ h => absurd h (hshort _ _ _ _ _ _ _ _ _)

theorem ssrcMsid_returns {i : Nat} (desc : YangMediaDesc) :
    (∃ r : Nat × YangMediaDesc, (match cstrSplit value space with
      | [] => Call.ret (errorRtcSdpDecode, desc)
      | [only] => strcpy 64 (value.takeWhile (· = space) ++ only) >>= fun msid =>
        .ret (0, desc.modifySsrcInfo i fun info => { info with msid })
      | first :: second :: _ => strcpy 64 first >>= fun msid =>
        strcpy 64 second >>= fun msidTracker =>
          .ret (0, desc.modifySsrcInfo i fun info => { info with msid, msidTracker })) = .ret r) ↔
      SsrcMsidFits value := by
  unfold SsrcMsidFits
  rcases cstrSplit value space with _ | ⟨first, _ | ⟨second, more⟩⟩
  · exact iff_of_true ⟨_, rfl⟩ ⟨fun _ h => (nomatch h), fun _ _ _ h => nomatch h⟩
  · dsimp only
    rw [strcpy_returns, ret_returns, and_true]
    constructor
    · intro hfits
      constructor
      · rintro _ ⟨⟩
        exact hfits
      · exact fun _ _ _ h => nomatch h
    · intro hfits
      exact hfits.1 first rfl
  · dsimp only
    rw [strcpy_returns, strcpy_returns, ret_returns, and_true]
    constructor
    · intro hfits
      constructor
      · exact fun _ h => nomatch h
      · rintro _ _ _ ⟨⟩
        exact hfits
    · intro hfits
      exact hfits.2 first second more rfl

/-- The value of a source is read from the array of the whole attribute. -/
theorem ssrcValue_returns {α : Type} {f : CStr → Call α} :
    (∃ a, ((readTo 128 array >>= fun _ => (pure value : Call CStr)) >>= f) = .ret a) ↔
      array.length < 128 ∧ ∃ a, f value = .ret a := by
  rw [Call.bind_assoc, readTo_returns]
  rfl

theorem ssrc_returns : (∃ r, mediadescParseAttrSsrc desc array = .ret r) ↔ SsrcFits array := by
  unfold mediadescParseAttrSsrc SsrcFits
  rw [deref_returns, Prod.exists]
  refine exists_congr fun intstr => exists_congr fun tail => and_congr_right fun _ => ?_
  dsimp only
  rw [intstrValue_returns]
  refine and_congr_right fun _ => ?_
  rw [deref_returns, Prod.exists]
  refine exists_congr fun before => exists_congr fun p => and_congr_right fun _ => ?_
  dsimp only
  rw [deref_returns, Prod.exists]
  refine exists_congr fun attr => exists_congr fun value => and_congr_right fun _ => ?_
  dsimp only
  rw [memcpyTo_returns]
  refine and_congr_right fun _ => ?_
  unfold SsrcValueFits
  refine ite_returns ?_ <| ite_returns ?_ <| ite_returns ?_ <| ite_returns ?_ ret_returns
  · rw [ssrcValue_returns, strcpy_returns, Call.pure_eq, ret_returns, and_true]
  · refine ssrcValue_returns.trans (and_congr_right fun _ => ?_)
    exact ssrcMsid_returns _
  · rw [ssrcValue_returns, strcpy_returns, Call.pure_eq, ret_returns, and_true]
  · rw [ssrcValue_returns, strcpy_returns, Call.pure_eq, ret_returns, and_true]

/-- What is there already is kept. -/
theorem unset_returns {α : Type} {own : CStr} {a : α} {x : Call α} {P : Prop}
    (h : (∃ b, x = .ret b) ↔ P) :
    (∃ b, (if own ≠ [] then .ret a else x) = .ret b) ↔ (own = [] → P) := by
  by_cases hown : own = []
  · rw [if_neg fun hne => hne hown, imp_iff_right hown]
    exact h
  · rw [if_pos hown]
    exact iff_of_true ⟨a, rfl⟩ fun h => absurd h hown

theorem sessionInfo_fits (hroom : 128 ≤ room) :
    (∃ r, sessioninfoParseAttribute info attr (readTo room value) = .ret r) ↔
      SessionInfoFits room info attr value := by
  unfold sessioninfoParseAttribute SessionInfoFits
  refine ite_returns (unset_returns ?_) <| ite_returns (unset_returns ?_) <|
    ite_returns (unset_returns ?_) <| ite_returns (unset_returns ?_) <|
    ite_returns (unset_returns ?_) ret_returns
  · exact copied_returns (by omega)
  · exact copied_returns (by omega)
  · exact copied_returns (by omega)
  · rw [readTo_returns]
    refine and_congr_right fun _ => ?_
    cases cut space value with
    | none => exact iff_of_true ⟨_, rfl⟩ fun _ _ h => nomatch h
    | some parts =>
      obtain ⟨algo, rest⟩ := parts
      dsimp only
      rw [memcpyTo_returns, strcpy_returns, Call.pure_eq, ret_returns, and_true]
      constructor
      · rintro hfits _ _ ⟨⟩
        exact hfits
      · intro hfits
        exact hfits algo rest rfl
  · exact copied_returns (by omega)

theorem dispatch_returns : (∃ r, mediadescDispatch desc attr array = .ret r) ↔
    ValueFits desc array attr := by
  unfold mediadescDispatch ValueFits
  refine ite_returns extmap_returns <| ite_returns rtpmap_returns <| ite_returns ret_returns <|
    ite_returns rtcpFb_returns <| ite_returns fmtp_returns <| ite_returns mid_returns <|
    ite_returns msid_returns <| ite_returns ssrc_returns <| ite_returns ssrcGroup_returns <|
    ite_returns candidate_returns <| ite_returns ret_returns <| ite_returns ret_returns <|
    ite_returns ret_returns <| ite_returns ret_returns <| ite_returns ret_returns <|
    ite_returns ret_returns ?_
  rw [bind_returns, ← sessionInfo_fits (le_refl 128)]
  exact exists_congr fun _ => and_iff_left ⟨_, rfl⟩

theorem attribute_returns {content : CStr} :
    (∃ r, mediadescParseAttribute desc content = .ret r) ↔ AttributeFits desc content := by
  unfold mediadescParseAttribute AttributeFits
  cases cut colon content with
  | some parts =>
    obtain ⟨name, rest⟩ := parts
    dsimp only
    rw [memcpyTo_returns, memcpyTo_returns, dispatch_returns]
  | none =>
    dsimp only
    rw [strcpy_returns, dispatch_returns]

end Returns

end MetaRtc
