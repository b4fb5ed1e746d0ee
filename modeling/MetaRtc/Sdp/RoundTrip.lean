import MetaRtc.Sdp.RtcSdp

/-! # What comes back of an encoded description -/
namespace MetaRtc

open Exec Tokens

/-- The groups and the media sections, with what decides where an attribute goes. -/
def YangSdp.core (sdp : YangSdp) : Bool × CStr × List CStr × List YangMediaDesc :=
  (sdp.inMediaSession, sdp.groupPolicy, sdp.groups, sdp.mediaDescs)

section Session

/-! The lines of the session itself touch nothing of its groups and sections. -/

variable {sdp sdp' : YangSdp} {content value : CStr} {err : Nat}

theorem rtcsdpParseOrigin_core (h : rtcsdpParseOrigin sdp content = .ret (err, sdp')) :
    sdp'.core = sdp.core := by
  unfold rtcsdpParseOrigin at h
  simp only at h
  split at h
  · cases h
    rfl
  · simp only [Call.bind_eq_ret] at h
    obtain ⟨_, -, _, -, _, -, _, -, _, -, _, -, _, -, _, -, _, -, _, -, _, -, _, -, h⟩ := h
    cases h
    rfl

theorem rtcsdpParseVersion_core (h : rtcsdpParseVersion sdp content = .ret (err, sdp')) :
    sdp'.core = sdp.core := by
  simp only [rtcsdpParseVersion, Call.bind_eq_ret] at h
  obtain ⟨_, -, h⟩ := h
  cases h
  rfl

theorem rtcsdpParseSessionName_core (h : rtcsdpParseSessionName sdp content = .ret (err, sdp')) :
    sdp'.core = sdp.core := by
  simp only [rtcsdpParseSessionName, Call.bind_eq_ret] at h
  obtain ⟨_, -, h⟩ := h
  cases h
  rfl

theorem rtcsdpParseTiming_core (h : rtcsdpParseTiming sdp content = .ret (err, sdp')) :
    sdp'.core = sdp.core := by
  unfold rtcsdpParseTiming at h
  split at h <;> cases h <;> rfl

theorem rtcsdpParseMsidSemantic_core (h : rtcsdpParseMsidSemantic sdp value = .ret (err, sdp')) :
    sdp'.core = sdp.core := by
  simp only [rtcsdpParseMsidSemantic, Call.bind_eq_ret] at h
  obtain ⟨_, -, _, -, h⟩ := h
  cases h
  rfl

/-- The name of a session attribute is all that stands before the first colon. -/
theorem rtcsdpParseAttribute_group (hgroup : ∀ v, content ≠ lit "group:" ++ v)
    (h : rtcsdpParseAttribute sdp content = .ret (err, sdp')) : sdp'.core = sdp.core := by
  simp only [rtcsdpParseAttribute, Call.bind_eq_ret] at h
  obtain ⟨attr, hattr, v, -, h⟩ := h
  split at h
  · rename_i hname
    cases hcut : cut colon content with
    | none =>
      rw [hcut] at hattr
      cases hattr
      exact absurd hname (by decide)
    | some ab =>
      rw [hcut] at hattr
      have hfirst : ab.1 = attr := (memcpyTo_eq_ret.mp hattr).2
      have hcontent := (cut_eq_some.mp hcut).1
      rw [hfirst, hname] at hcontent
      exact absurd hcontent (hgroup ab.2)
  · split at h
    · exact rtcsdpParseMsidSemantic_core h
    · simp only [Call.bind_eq_ret] at h
      obtain ⟨_, -, h⟩ := h
      cases h
      rfl

end Session

section Lines

variable {sdp sdp' : YangSdp} {type : UInt8} {content : CStr} {err : Nat}

/-- A line that gives the session its groups, before the first section. -/
def IsGroup (line : CStr) : Prop := ∃ policy, line = lit "a=group:" ++ policy

def BeginsSection (line : CStr) : Prop := ∃ content, line = lit "m=" ++ content

/-- Within the sections no line reaches the session. -/
theorem rtcsdpParseLine_inside (hin : sdp.inMediaSession = true)
    (h : rtcsdpParseLine sdp type content = .ret (err, sdp')) :
    sdp'.inMediaSession = true ∧ sdp'.groupPolicy = sdp.groupPolicy ∧ sdp'.groups = sdp.groups := by
  have hsame : sdp'.core = sdp.core →
      sdp'.inMediaSession = true ∧ sdp'.groupPolicy = sdp.groupPolicy ∧
        sdp'.groups = sdp.groups := by
    intro hcore
    simp only [YangSdp.core, Prod.mk.injEq] at hcore
    exact ⟨hcore.1.trans hin, hcore.2.1, hcore.2.2.1⟩
  unfold rtcsdpParseLine at h
  split at h
  · exact hsame (rtcsdpParseOrigin_core h)
  split at h
  · exact hsame (rtcsdpParseVersion_core h)
  split at h
  · exact hsame (rtcsdpParseSessionName_core h)
  split at h
  · exact hsame (rtcsdpParseTiming_core h)
  split at h
  · simp only [hin, mediadescParseLine, Call.bind_eq_ret] at h
    obtain ⟨last, -, ⟨code, desc⟩, -, h⟩ := h
    cases h
    exact ⟨rfl, rfl, rfl⟩
  split at h
  · unfold rtcsdpParseMediaDescription at h
    split at h
    · simp only [Call.bind_eq_ret] at h
      obtain ⟨_, -, _, -, h⟩ := h
      cases h
      exact ⟨rfl, rfl, rfl⟩
    · cases h
      exact ⟨hin, rfl, rfl⟩
  · cases h
    exact ⟨hin, rfl, rfl⟩

/-- Before them, only a group line and the first line of a section do. -/
theorem rtcsdpParseLine_before (hout : sdp.inMediaSession = false) (hm : type ≠ 109)
    (hgroup : ¬ IsGroup (type :: 61 :: content))
    (h : rtcsdpParseLine sdp type content = .ret (err, sdp')) : sdp'.core = sdp.core := by
  unfold rtcsdpParseLine at h
  split at h
  · exact rtcsdpParseOrigin_core h
  split at h
  · exact rtcsdpParseVersion_core h
  split at h
  · exact rtcsdpParseSessionName_core h
  split at h
  · exact rtcsdpParseTiming_core h
  split at h
  · rename_i ha
    rw [if_neg (by simp [hout])] at h
    refine rtcsdpParseAttribute_group (fun v hv => hgroup ⟨v, ?_⟩) h
    rw [ha, hv]
    rfl
  · cases h
    rfl

/-- The first line of a section, once it is taken, begins the sections. -/
theorem rtcsdpParseLine_section (h : rtcsdpParseLine sdp 109 content = .ret (0, sdp')) :
    sdp'.inMediaSession = true ∧ sdp'.groupPolicy = sdp.groupPolicy ∧ sdp'.groups = sdp.groups := by
  have hline : rtcsdpParseMediaDescription sdp content = .ret (0, sdp') := h
  unfold rtcsdpParseMediaDescription at hline
  split at hline
  · simp only [Call.bind_eq_ret] at hline
    obtain ⟨_, -, _, -, hline⟩ := hline
    cases hline
    exact ⟨rfl, rfl, rfl⟩
  · cases hline

theorem rtcsdpParseLines_cons {line : CStr} {lines : List CStr}
    (h : rtcsdpParseLines sdp (line :: lines) = .ret (0, sdp')) :
    ∃ type content mid, line = type :: 61 :: content ∧
      rtcsdpParseLine sdp type content = .ret (0, mid) ∧
      rtcsdpParseLines mid lines = .ret (0, sdp') := by
  unfold rtcsdpParseLines at h
  split at h
  · cases ‹_ :: _ = []›
  · rename_i type content rest heq
    obtain ⟨rfl, rfl⟩ := List.cons.inj heq
    obtain ⟨⟨code, mid⟩, hline, h⟩ := Call.bind_eq_ret.mp h
    by_cases hcode : code = 0
    · subst hcode
      exact ⟨type, content, mid, rfl, hline, h⟩
    · simp [hcode] at h
  · cases h

theorem rtcsdpParseLines_append {first rest : List CStr}
    (h : rtcsdpParseLines sdp (first ++ rest) = .ret (0, sdp')) :
    ∃ mid, rtcsdpParseLines sdp first = .ret (0, mid) ∧
      rtcsdpParseLines mid rest = .ret (0, sdp') := by
  induction first generalizing sdp with
  | nil => exact ⟨sdp, rfl, h⟩
  | cons line first ih =>
    obtain ⟨type, content, next, rfl, hline, hrest⟩ := rtcsdpParseLines_cons h
    obtain ⟨mid, hfirst, hlast⟩ := ih hrest
    refine ⟨mid, ?_, hlast⟩
    simp only [rtcsdpParseLines, hline, Call.ret_bind, ne_eq, not_true, if_false]
    exact hfirst

theorem rtcsdpParseLines_inside {lines : List CStr} (hin : sdp.inMediaSession = true)
    (h : rtcsdpParseLines sdp lines = .ret (0, sdp')) :
    sdp'.groupPolicy = sdp.groupPolicy ∧ sdp'.groups = sdp.groups := by
  induction lines generalizing sdp with
  | nil =>
    cases h
    exact ⟨rfl, rfl⟩
  | cons line lines ih =>
    obtain ⟨type, content, mid, rfl, hline, hrest⟩ := rtcsdpParseLines_cons h
    obtain ⟨hmid, hpolicy, hgroups⟩ := rtcsdpParseLine_inside hin hline
    obtain ⟨hpolicy', hgroups'⟩ := ih hmid hrest
    exact ⟨hpolicy'.trans hpolicy, hgroups'.trans hgroups⟩

/-- Lines of the session without a group line leave the groups and the sections alone. -/
theorem rtcsdpParseLines_before {lines : List CStr} (hout : sdp.inMediaSession = false)
    (hlines : ∀ line ∈ lines, ¬ BeginsSection line ∧ ¬ IsGroup line)
    (h : rtcsdpParseLines sdp lines = .ret (0, sdp')) : sdp'.core = sdp.core := by
  induction lines generalizing sdp with
  | nil =>
    cases h
    rfl
  | cons line lines ih =>
    obtain ⟨type, content, mid, rfl, hline, hrest⟩ := rtcsdpParseLines_cons h
    obtain ⟨⟨hm, hgroup⟩, hlines⟩ := List.forall_mem_cons.mp hlines
    have hne : type ≠ 109 := by
      rintro rfl
      exact hm ⟨content, rfl⟩
    have hcore := rtcsdpParseLine_before hout hne hgroup hline
    have hmid : mid.inMediaSession = false := (congrArg Prod.fst hcore).trans hout
    exact (ih hmid hlines hrest).trans hcore

/-- Whatever the sections hold, the groups are those before the first of them. -/
theorem rtcsdpParseLines_sections {lines : List CStr}
    (hlines : lines = [] ∨ ∃ line rest, lines = line :: rest ∧ BeginsSection line)
    (h : rtcsdpParseLines sdp lines = .ret (0, sdp')) :
    sdp'.groupPolicy = sdp.groupPolicy ∧ sdp'.groups = sdp.groups := by
  rcases hlines with rfl | ⟨line, rest, rfl, content, hm⟩
  · cases h
    exact ⟨rfl, rfl⟩
  · obtain ⟨type, content', mid, hline, hone, hrest⟩ := rtcsdpParseLines_cons h
    rw [hm] at hline
    cases hline
    obtain ⟨hin, hpolicy, hgroups⟩ := rtcsdpParseLine_section hone
    obtain ⟨hpolicy', hgroups'⟩ := rtcsdpParseLines_inside hin hrest
    exact ⟨hpolicy'.trans hpolicy, hgroups'.trans hgroups⟩

end Lines

section Text

variable (sdp : YangSdp)

/-- No text of the session breaks its line. -/
structure YangSdp.Unbroken : Prop where
  version : LF ∉ sdp.version
  username : LF ∉ sdp.username
  sessionId : LF ∉ sdp.sessionId
  sessionVersion : LF ∉ sdp.sessionVersion
  nettype : LF ∉ sdp.nettype
  addrtype : LF ∉ sdp.addrtype
  unicastAddress : LF ∉ sdp.unicastAddress
  sessionName : LF ∉ sdp.sessionName
  groupPolicy : LF ∉ sdp.groupPolicy
  msidSemantic : LF ∉ sdp.msidSemantic
  msids : ∀ msid ∈ sdp.msids, LF ∉ msid
  iceUfrag : LF ∉ sdp.sessionInfo.iceUfrag
  icePwd : LF ∉ sdp.sessionInfo.icePwd
  iceOptions : LF ∉ sdp.sessionInfo.iceOptions
  fingerprintAlgo : LF ∉ sdp.sessionInfo.fingerprintAlgo
  fingerprint : LF ∉ sdp.sessionInfo.fingerprint
  setup : LF ∉ sdp.sessionInfo.setup

def sessionInfoLines (info : YangSessionInfo) : List CStr :=
  (if info.iceUfrag ≠ [] then [lit "a=ice-ufrag:" ++ info.iceUfrag ++ [CR]] else []) ++
  (if info.icePwd ≠ [] then [lit "a=ice-pwd:" ++ info.icePwd ++ [CR]] else []) ++
  (if info.iceOptions ≠ [] then [lit "a=ice-options:" ++ info.iceOptions ++ [CR]] else []) ++
  (if info.fingerprintAlgo ≠ [] ∧ info.fingerprint ≠ [] then
    [lit "a=fingerprint:" ++ info.fingerprintAlgo ++ lit " " ++ info.fingerprint ++ [CR]]
  else []) ++
  (if info.setup ≠ [] then [lit "a=setup:" ++ info.setup ++ [CR]] else [])

/-- The lines written before the group line. -/
def linesBefore : List CStr :=
  [lit "v=" ++ sdp.version ++ [CR],
   lit "o=" ++ sdp.username ++ lit " " ++ sdp.sessionId ++ lit " " ++ sdp.sessionVersion ++
     lit " " ++ sdp.nettype ++ lit " " ++ sdp.addrtype ++ lit " " ++ sdp.unicastAddress ++ [CR],
   lit "s=" ++ sdp.sessionName ++ [CR],
   lit "t=" ++ printInt sdp.startTime.toInt ++ lit " " ++ printInt sdp.endTime.toInt ++ [CR],
   lit "a=ice-lite" ++ [CR]]

def groupLines : List CStr :=
  if sdp.groups = [] then [lit "a=group:" ++ sdp.groupPolicy ++ [CR]] else []

/-- The lines of the session written after it. -/
def linesAfter : List CStr :=
  (lit "a=msid-semantic: " ++ sdp.msidSemantic ++
    (sdp.msids.flatMap fun msid => lit " " ++ msid) ++ [CR]) :: sessionInfoLines sdp.sessionInfo

theorem line_end (rest : CStr) : [CR] ++ ([LF] ++ rest) = kCRLF ++ rest := rfl

theorem flatMap_if {P : Prop} [Decidable P] (line : CStr) :
    (if P then [line ++ [CR]] else []).flatMap (· ++ [LF]) = if P then line ++ kCRLF else [] := by
  split <;> simp [kCRLF]

theorem encodeSessionInfo_lines (info : YangSessionInfo) :
    encodeSessionInfo info = (sessionInfoLines info).flatMap (· ++ [LF]) := by
  simp only [sessionInfoLines, List.flatMap_append, flatMap_if, encodeSessionInfo]

theorem encodeGroup_lines : encodeGroup sdp = (groupLines sdp).flatMap (· ++ [LF]) := by
  unfold encodeGroup groupLines
  rw [flatMap_if]
  split
  · rename_i hgroups
    rw [hgroups, List.flatMap_nil, List.append_nil]
  · rfl

theorem encodeSession_lines :
    encodeSession sdp ++ encodeSessionInfo sdp.sessionInfo =
      (linesBefore sdp ++ (groupLines sdp ++ linesAfter sdp)).flatMap (· ++ [LF]) := by
  unfold encodeSession linesBefore linesAfter
  rw [encodeGroup_lines, encodeSessionInfo_lines]
  simp only [List.flatMap_append, List.flatMap_cons, List.flatMap_nil, List.append_assoc, line_end,
    List.nil_append]

/-- A line of the session other than the group line. -/
structure Plain (line : CStr) : Prop where
  nonempty : line ≠ []
  unbroken : LF ∉ line
  noSection : ¬ BeginsSection line
  noGroup : ¬ IsGroup line

/-- What the encoder begins a line with shows already that the line is plain. -/
def PlainStart (start : CStr) : Prop :=
  LF ∉ start ∧ (∃ type ∈ start.head?, type ≠ 97 ∧ type ≠ 109 ∨
    type = 97 ∧ ∃ b ∈ start[2]?, b ≠ 103)

instance (start : CStr) : Decidable (PlainStart start) := by
  unfold PlainStart
  infer_instance

theorem plain_append {start content : CStr} (hstart : PlainStart start) (hcontent : LF ∉ content) :
    Plain (start ++ content) := by
  obtain ⟨hlf, type, htype, hname⟩ := hstart
  cases start with
  | nil => exact nomatch htype
  | cons first rest =>
    obtain rfl : first = type := Option.some.inj htype
    refine ⟨by simp, by simp only [List.mem_append, not_or]; exact ⟨hlf, hcontent⟩, ?_, ?_⟩
    · rintro ⟨tail, hline⟩
      have hm : first = 109 := (List.cons.inj hline).1
      rcases hname with ⟨-, hne⟩ | ⟨ha, -⟩
      · exact hne hm
      · exact absurd (ha.symm.trans hm) (by decide)
    · rintro ⟨tail, hline⟩
      have ha : first = 97 := (List.cons.inj hline).1
      rcases hname with ⟨hne, -⟩ | ⟨-, b, hb, hne⟩
      · exact hne ha
      · have hthird : ((first :: rest) ++ content)[2]? = some b := by
          rw [List.getElem?_append_left (List.getElem?_eq_some_iff.mp hb).1]
          exact hb
        rw [hline] at hthird
        exact hne (Option.some.inj hthird).symm

theorem lf_printInt (v : Int) : LF ∉ printInt v := by
  have hdecimal : ∀ n, LF ∉ decimal n := by
    intro n hmem
    obtain ⟨ch, hch, hlf⟩ := List.mem_map.mp hmem
    have hdigit := Nat.isDigit_of_mem_toDigits (by decide) (by decide) hch
    obtain ⟨hlo, hhi⟩ := Char.isDigit_iff_toNat.mp hdigit
    have hmod : ch.toNat % 256 = 10 := by
      have hval := congrArg UInt8.toNat hlf
      rwa [Char.toUInt8, UInt32.toNat_toUInt8] at hval
    have hlo' : 48 ≤ ch.toNat := hlo
    have hhi' : ch.toNat ≤ 57 := hhi
    omega
  unfold printInt
  split
  · simpa [LF] using hdecimal v.natAbs
  · exact hdecimal _

variable {sdp}

theorem linesBefore_plain (hsdp : sdp.Unbroken) : ∀ line ∈ linesBefore sdp, Plain line := by
  have hspace : LF ∉ lit " " := by decide
  have hcr : LF ∉ [CR] := by decide
  unfold linesBefore
  simp only [List.forall_mem_cons, List.append_assoc]
  refine ⟨plain_append (by decide) ?_, plain_append (by decide) ?_, plain_append (by decide) ?_,
    plain_append (by decide) ?_, plain_append (by decide) hcr, nofun⟩
  · simp only [List.mem_append, hsdp.version, hcr, or_self, not_false_iff]
  · simp only [List.mem_append, hsdp.username, hsdp.sessionId, hsdp.sessionVersion, hsdp.nettype,
      hsdp.addrtype, hsdp.unicastAddress, hspace, hcr, or_self, not_false_iff]
  · simp only [List.mem_append, hsdp.sessionName, hcr, or_self, not_false_iff]
  · simp only [List.mem_append, lf_printInt, hspace, hcr, or_self, not_false_iff]

theorem sessionInfoLines_plain (hsdp : sdp.Unbroken) :
    ∀ line ∈ sessionInfoLines sdp.sessionInfo, Plain line := by
  have hspace : LF ∉ lit " " := by decide
  have hcr : LF ∉ [CR] := by decide
  have hif : ∀ (P : Prop) [Decidable P] (line : CStr), Plain line →
      ∀ l ∈ (if P then [line] else []), Plain l := by
    intro P _ line hline l hl
    split at hl
    · rw [List.mem_singleton.mp hl]
      exact hline
    · exact nomatch hl
  unfold sessionInfoLines
  simp only [List.forall_mem_append, List.append_assoc]
  refine ⟨hif _ _ (plain_append (by decide) ?_), hif _ _ (plain_append (by decide) ?_),
    hif _ _ (plain_append (by decide) ?_), hif _ _ (plain_append (by decide) ?_),
    hif _ _ (plain_append (by decide) ?_)⟩
  · simp only [List.mem_append, hsdp.iceUfrag, hcr, or_self, not_false_iff]
  · simp only [List.mem_append, hsdp.icePwd, hcr, or_self, not_false_iff]
  · simp only [List.mem_append, hsdp.iceOptions, hcr, or_self, not_false_iff]
  · simp only [List.mem_append, hsdp.fingerprintAlgo, hsdp.fingerprint, hspace, hcr, or_self,
      not_false_iff]
  · simp only [List.mem_append, hsdp.setup, hcr, or_self, not_false_iff]

theorem linesAfter_plain (hsdp : sdp.Unbroken) : ∀ line ∈ linesAfter sdp, Plain line := by
  have hcr : LF ∉ [CR] := by decide
  have hmsids : LF ∉ sdp.msids.flatMap fun msid => lit " " ++ msid := by
    intro hmem
    obtain ⟨msid, hin, hlf⟩ := List.mem_flatMap.mp hmem
    rcases List.mem_append.mp hlf with hspace | hmsid
    · exact absurd hspace (by decide)
    · exact hsdp.msids msid hin hmsid
  unfold linesAfter
  simp only [List.forall_mem_cons, List.append_assoc]
  refine ⟨plain_append (by decide) ?_, sessionInfoLines_plain hsdp⟩
  simp only [List.mem_append, hsdp.msidSemantic, hmsids, hcr, or_self, not_false_iff]

theorem groupLines_unbroken (hsdp : sdp.Unbroken) :
    ∀ line ∈ groupLines sdp, line ≠ [] ∧ LF ∉ line := by
  intro line hline
  unfold groupLines at hline
  split at hline
  · rw [List.mem_singleton.mp hline]
    refine ⟨by simp, ?_⟩
    have hname : LF ∉ lit "a=group:" := by decide
    have hcr : LF ∉ [CR] := by decide
    simp only [List.mem_append, hname, hsdp.groupPolicy, hcr, or_self, not_false_iff]
  · exact nomatch hline

/-- The sections begin with their first line. -/
theorem encodeEach_mediadesc (descs : List YangMediaDesc) :
    cstrSplit (encodeEach encodeMediadesc descs).2 LF = [] ∨
      ∃ line rest, cstrSplit (encodeEach encodeMediadesc descs).2 LF = line :: rest ∧
        BeginsSection line := by
  cases descs with
  | nil => exact .inl tokens_nil
  | cons desc descs =>
    have hhead : ∃ text, encodeMediaHead desc = lit "m=" ++ text := by
      unfold encodeMediaHead
      simp only [List.append_assoc]
      exact ⟨_, rfl⟩
    have hdesc : ∃ text, (encodeMediadesc desc).2 = lit "m=" ++ text := by
      obtain ⟨text, htext⟩ := hhead
      unfold encodeMediadesc
      simp only [htext]
      split
      · exact ⟨_, List.append_assoc ..⟩
      · split <;> simp only [List.append_assoc] <;> exact ⟨_, rfl⟩
    have htext : ∃ text, (encodeEach encodeMediadesc (desc :: descs)).2 = lit "m=" ++ text := by
      obtain ⟨text, htext⟩ := hdesc
      simp only [encodeEach]
      split
      · exact ⟨text, htext⟩
      · rw [htext, List.append_assoc]
        exact ⟨_, rfl⟩
    obtain ⟨text, htext⟩ := htext
    have hm : LF ∉ lit "m=" := by decide
    obtain ⟨rest, -, htokens⟩ := tokens_run (by decide : lit "m=" ≠ []) hm text
    refine .inr ⟨_, tokens LF rest, ?_, upTo LF text, rfl⟩
    rw [htext]
    exact htokens

theorem rtcsdpEncode_text {room err : Nat} {text : CStr}
    (h : rtcsdpEncode sdp room = .ret (err, text)) :
    text = encodeSession sdp ++ encodeSessionInfo sdp.sessionInfo ++
      (encodeEach encodeMediadesc sdp.mediaDescs).2 := by
  unfold rtcsdpEncode at h
  obtain ⟨tmp, htmp, h⟩ := Call.bind_eq_ret.mp h
  rw [(strcpy_eq_ret.mp htmp).2]
  simp only at h
  split at h
  · cases h
    rfl
  · exact nomatch h

/-- The lines the parser finds in an encoded description. -/
theorem rtcsdpEncode_lines (hsdp : sdp.Unbroken) {room err : Nat} {text : CStr}
    (h : rtcsdpEncode sdp room = .ret (err, text)) :
    cstrSplit text LF = linesBefore sdp ++ (groupLines sdp ++ (linesAfter sdp ++
      cstrSplit (encodeEach encodeMediadesc sdp.mediaDescs).2 LF)) := by
  have hlines : ∀ line ∈ linesBefore sdp ++ (groupLines sdp ++ linesAfter sdp),
      line ≠ [] ∧ LF ∉ line := by
    simp only [List.forall_mem_append]
    exact ⟨fun line hline => ⟨(linesBefore_plain hsdp line hline).nonempty,
        (linesBefore_plain hsdp line hline).unbroken⟩, groupLines_unbroken hsdp,
      fun line hline => ⟨(linesAfter_plain hsdp line hline).nonempty,
        (linesAfter_plain hsdp line hline).unbroken⟩⟩
  rw [rtcsdpEncode_text h, encodeSession_lines, cstrSplit, tokens_lines hlines, List.append_assoc,
    List.append_assoc]
  rfl

end Text

section Back

variable {sdp sdp' : YangSdp}

/-- The first token of a text that ends in a carriage return is never the text before it. -/
theorem first_token_ne {policy first : CStr} {more : List CStr}
    (h : cstrSplit (policy ++ [CR]) space = first :: more) : first ≠ policy := by
  rintro rfl
  obtain ⟨ts, w, hw, hwhole, hlong⟩ := tokens_concat (by decide : CR ≠ space) first
  have hfirst : first ∈ tokens space (first ++ [CR]) := by
    rw [cstrSplit] at h
    rw [h]
    exact List.mem_cons_self
  rw [tokens_token hfirst] at hwhole
  rw [cstrSplit, hlong] at h
  cases ts with
  | nil =>
    -- the one token has grown by the carriage return
    simp only [List.nil_append, List.cons.injEq] at h hwhole
    split at hwhole
    · cases hwhole
    · have hsame := (List.cons.inj hwhole).1.symm.trans h.1.symm
      simpa using hsame.symm
  | cons t ts =>
    -- the text has ended before the carriage return, though it is a token itself
    obtain ⟨-, hrest⟩ := List.cons.inj hwhole
    have hnil : w = [] := by
      by_contra hne
      rw [if_neg hne] at hrest
      simp at hrest
    rcases hw.mp hnil with hempty | ⟨f, hf⟩
    · exact (mem_tokens hfirst).1 hempty
    · exact (mem_tokens hfirst).2 (by rw [hf]; simp)

/-- The group line gives the session another policy than it was written for. -/
theorem rtcsdpParseLine_policy (hout : sdp.inMediaSession = false) {policy : CStr}
    (h : rtcsdpParseLines sdp [lit "a=group:" ++ policy ++ [CR]] = .ret (0, sdp')) :
    sdp'.groupPolicy ≠ policy ∧ sdp'.inMediaSession = false := by
  obtain ⟨type, content, mid, hline, hone, hdone⟩ := rtcsdpParseLines_cons h
  cases hdone
  obtain ⟨rfl, rfl⟩ : type = 97 ∧ content = lit "group:" ++ policy ++ [CR] := by
    obtain ⟨htype, hrest⟩ := List.cons.inj hline
    exact ⟨htype.symm, (List.cons.inj hrest).2.symm⟩
  have hcut : cut colon (lit "group:" ++ policy ++ [CR]) = some (lit "group", policy ++ [CR]) := by
    refine cut_eq_some.mpr ⟨?_, by decide⟩
    rw [List.append_assoc]
    rfl
  have hattr : rtcsdpParseAttribute sdp (lit "group:" ++ policy ++ [CR]) = .ret (0, sdp') := by
    have hline : (if sdp.inMediaSession = true then
        mediadescParseLine sdp (lit "group:" ++ policy ++ [CR])
      else rtcsdpParseAttribute sdp (lit "group:" ++ policy ++ [CR])) = .ret (0, sdp') := hone
    rwa [if_neg (by simp [hout])] at hline
  simp only [rtcsdpParseAttribute, hcut, Option.getD_some, Call.bind_eq_ret] at hattr
  obtain ⟨attr, hname, value, hvalue, hattr⟩ := hattr
  obtain ⟨-, rfl⟩ := memcpyTo_eq_ret.mp hname
  obtain ⟨-, rfl⟩ := strcpy_eq_ret.mp hvalue
  rw [if_pos rfl, rtcsdpParseAttrGroup] at hattr
  split at hattr
  · cases hattr
  · rename_i first more htokens
    obtain ⟨copied, hcopy, hattr⟩ := Call.bind_eq_ret.mp hattr
    obtain ⟨-, rfl⟩ := strcpy_eq_ret.mp hcopy
    cases hattr
    exact ⟨first_token_ne htokens, hout⟩

/-- The text of a description, parsed, gives it back. -/
def ComesBack (room : Nat) (sdp : YangSdp) : Prop :=
  ∃ err text parsed, rtcsdpEncode sdp room = .ret (err, text) ∧
    rtcsdpParse createRtcsdp text = .ret (0, parsed) ∧
    parsed.groupPolicy = sdp.groupPolicy ∧ parsed.groups = sdp.groups ∧
    parsed.msidSemantic = sdp.msidSemantic ∧ parsed.msids = sdp.msids ∧
    parsed.mediaDescs = sdp.mediaDescs

/-- With groups no group line is written. Without them it is, and the policy read from it
is not the one written: the line keeps its carriage return. -/
theorem never_comes_back (hsdp : sdp.Unbroken) (room : Nat) : ¬ ComesBack room sdp := by
  rintro ⟨err, text, parsed, hencode, hparse, hpolicy, hgroups, -⟩
  obtain ⟨⟨code, last⟩, hrun, hfill⟩ := Call.bind_eq_ret.mp hparse
  have hlast : rtcsdpParseLines createRtcsdp (cstrSplit text LF) = .ret (0, last) ∧
      parsed.groupPolicy = last.groupPolicy ∧ parsed.groups = last.groups := by
    simp only at hfill
    split at hfill
    · rename_i hcode
      cases hfill
      exact absurd rfl hcode
    · rename_i hcode
      cases hfill
      exact ⟨by rw [hrun, not_not.mp hcode], rfl, rfl⟩
  obtain ⟨hlines, hpolicy', hgroups'⟩ := hlast
  rw [rtcsdpEncode_lines hsdp hencode] at hlines
  obtain ⟨before, hbefore, hlines⟩ := rtcsdpParseLines_append hlines
  obtain ⟨grouped, hgrouped, hlines⟩ := rtcsdpParseLines_append hlines
  obtain ⟨after, hafter, hsections⟩ := rtcsdpParseLines_append hlines
  have hstart : before.core = createRtcsdp.core :=
    rtcsdpParseLines_before rfl (fun line hline =>
      ⟨(linesBefore_plain hsdp line hline).noSection, (linesBefore_plain hsdp line hline).noGroup⟩)
      hbefore
  have hout : before.inMediaSession = false := congrArg Prod.fst hstart
  have hkept : grouped.inMediaSession = false →
      parsed.groupPolicy = grouped.groupPolicy ∧ parsed.groups = grouped.groups := by
    intro hgrouped
    have hcore := rtcsdpParseLines_before hgrouped (fun line hline =>
      ⟨(linesAfter_plain hsdp line hline).noSection, (linesAfter_plain hsdp line hline).noGroup⟩)
      hafter
    obtain ⟨hpol, hgrp⟩ := rtcsdpParseLines_sections (encodeEach_mediadesc _) hsections
    simp only [YangSdp.core, Prod.mk.injEq] at hcore
    exact ⟨(hpolicy'.trans hpol).trans hcore.2.1, (hgroups'.trans hgrp).trans hcore.2.2.1⟩
  unfold groupLines at hgrouped
  split at hgrouped
  · obtain ⟨hne, hstill⟩ := rtcsdpParseLine_policy hout hgrouped
    exact hne ((hkept hstill).1.symm.trans hpolicy)
  · rename_i hsome
    cases hgrouped
    simp only [YangSdp.core, Prod.mk.injEq] at hstart
    exact hsome (hgroups.symm.trans ((hkept hout).2.trans hstart.2.2.1))

/-- One audio section in one group. -/
def bundled : YangSdp :=
  { createRtcsdp with
    username := lit "MetaRtc", sessionId := lit "1", sessionVersion := lit "2", nettype := lit "IN"
    addrtype := lit "IP4", unicastAddress := lit "0.0.0.0", sessionName := lit "MetaRtcSession"
    groupPolicy := lit "BUNDLE", groups := [lit "0"], msidSemantic := lit "WMS"
    msids := [lit "live/home"]
    mediaDescs := [{
      port := 9, type := lit "audio", protos := lit "UDP/TLS/RTP/SAVPF", rtcpMux := true
      mid := lit "0", sessionInfo := { setup := lit "passive" }
      payloadTypes := [{ payloadType := 111, encodingName := lit "opus", clockRate := 48000 }]
      ssrcInfos := [{ ssrc := 7, cname := lit "c", label := lit "l" }] }] }

/-- The local description's way: no group, and all of the line in the policy. -/
def bundledInPolicy : YangSdp := { bundled with groups := [], groupPolicy := lit "BUNDLE 0" }

theorem never_comes_back_policy : ¬ ComesBack 12288 bundledInPolicy :=
  never_comes_back (by constructor <;> decide) 12288

theorem group_left_out : ¬ ComesBack 12288 bundled := by
  rintro ⟨err, text, parsed, hencode, hparse, -, hgroups, -⟩
  have hback : (do
      let encoded ← rtcsdpEncode bundled 12288
      let parsed ← rtcsdpParse createRtcsdp encoded.2
      return parsed.2.groups : Call (List CStr)) = .ret [] := by decide +kernel
  rw [hencode, Call.ret_bind] at hback
  simp only [hparse, Call.ret_bind, Call.pure_eq, Call.ret.injEq] at hback
  exact absurd (hgroups.symm.trans hback) (by decide)

end Back

end MetaRtc
