import MetaRtc.Sdp.RtcSdp
import MetaRtc.Session.Streams
import Mathlib.Data.List.Infix

/-! # What a session takes from the description of the other side

Of the candidates one address and one port are taken, for all sections. -/
namespace MetaRtc

open Exec

def yangServerP2p : Nat := 9

inductive YangStreamOptType where
  | play | publish | both
  deriving DecidableEq

inductive YangAudioCodec where
  | aac | mp3 | speex | opus | g711
  deriving DecidableEq

inductive YangVideoCodec where
  | h264 | h265 | av1 | vp9
  deriving DecidableEq

structure RemoteAudio where
  encode : YangAudioCodec := .aac
  sample : Int32 := 0
  channel : Int32 := 0
  audioClock : Int32 := 0

structure RemoteVideo where
  encode : YangVideoCodec := .h264
  videoClock : Nat := 0

/-- What the sections tell of the media. -/
structure RemoteMedia where
  streamOptType : YangStreamOptType
  audioTrack : RtcTrack := ⟨0, 0, 0⟩
  videoTracks : List RtcTrack := []
  remoteAudio : RemoteAudio := {}
  remoteVideo : RemoteVideo := {}
  codec : YangVideoCodec := .h264
  twccId : Int32 := 0
  usingDatachannel : Bool := false

structure RemoteSession where
  mediaServer : Nat
  remoteIp : CStr
  remotePort : Int32
  remoteIcePwd : CStr := []
  remoteUfrag : CStr := []
  media : RemoteMedia

def tolower (b : UInt8) : UInt8 := if 65 ≤ b ∧ b ≤ 90 then b + 32 else b

/-- Whether no difference is found, which is not looked for behind the end of the first string. -/
def yangStrcmp (str1 str2 : CStr) : Bool := (str1.map tolower).isPrefixOf (str2.map tolower)

section Media

variable (media : RemoteMedia) (desc : YangMediaDesc)

def remoteStreamOptType : YangStreamOptType :=
  if desc.sendonly then .play
  else if desc.recvonly then .publish
  else if desc.sendrecv then .both
  else media.streamOptType

def remoteAudioPayload (audio : RemoteAudio) (payload : YangMediaPayloadType) : RemoteAudio :=
  if yangStrcmp payload.encodingName (lit "opus") then
    { encode := .opus, sample := payload.clockRate, channel := atoi payload.encodingParam,
      audioClock := payload.clockRate }
  else audio

def remoteVideoPayload (media : RemoteMedia) (payload : YangMediaPayloadType) : RemoteMedia :=
  let media :=
    if yangStrcmp payload.encodingName (lit "H264") then
      { media with codec := .h264, remoteVideo := { media.remoteVideo with encode := .h264 } }
    else if yangStrcmp payload.encodingName (lit "H265") then
      { media with codec := .h265, remoteVideo := { media.remoteVideo with encode := .h265 } }
    else media
  { media with remoteVideo := { media.remoteVideo with videoClock := 90000 } }

def twccUri : CStr :=
  lit "http://www.ietf.org/id/draft-holmer-rmcat-transport-wide-cc-extensions-01"

def remoteExtmap (hasRtcpfbTwcc : Bool) (media : RemoteMedia) (extmap : YangExtmap) : RemoteMedia :=
  if twccUri <:+: extmap.extmap ∧ hasRtcpfbTwcc then { media with twccId := extmap.mapid }
  else media

/-- What a section of one of the three types tells. -/
def remoteMedia (mediaServer : Nat) : RemoteMedia :=
  let streamOptType :=
    if mediaServer = yangServerP2p then remoteStreamOptType media desc else media.streamOptType
  if yangStrcmp desc.type (lit "audio") then
    let audioTrack := match desc.ssrcInfos with
      | [] => media.audioTrack
      | info :: _ => { media.audioTrack with ssrc := info.ssrc.toNat }
    let remoteAudio := desc.payloadTypes.foldl remoteAudioPayload media.remoteAudio
    { media with streamOptType, audioTrack, remoteAudio }
  else if yangStrcmp desc.type (lit "video") then
    let videoTracks := media.videoTracks ++ desc.ssrcInfos.map fun info => ⟨info.ssrc.toNat, 0, 0⟩
    let hasRtcpfbTwcc := desc.payloadTypes.any fun payload =>
      payload.rtcpFb.contains (lit "transport-cc")
    let media :=
      desc.payloadTypes.foldl remoteVideoPayload { media with streamOptType, videoTracks }
    desc.extmaps.foldl (remoteExtmap hasRtcpfbTwcc) media
  else if yangStrcmp desc.type (lit "application") then { media with usingDatachannel := true }
  else media

/-- Change the track with that ssrc. -/
def RemoteMedia.modifyTrack (ssrc : Nat) (f : RtcTrack → RtcTrack) : RemoteMedia :=
  if hasSsrc media.audioTrack ssrc then { media with audioTrack := f media.audioTrack }
  else match media.videoTracks.findIdx? (·.ssrc == ssrc) with
    | some i => { media with videoTracks := media.videoTracks.modify i f }
    | none => media

/-- A vector begins with five places that are zero. -/
def remoteSsrcGroup (media : RemoteMedia) (group : YangSSRCGroup) : RemoteMedia :=
  let second := (group.groups.getD 1 0).toNat
  media.modifyTrack (group.groups.getD 0 0).toNat fun track =>
    if group.semantic = lit "FID" then { track with rtxSsrc := second }
    else if group.semantic = lit "FEC" then { track with fecSsrc := second }
    else track

end Media

section Parse

variable (session : RemoteSession)

/-- The first that is not empty is kept. -/
def takeCredential (size : Nat) (own shared : CStr) : Call CStr :=
  if own = [] then strcpy size shared else .ret own

/-- The array of the password is half as long as that of a section. -/
def remoteCredentials (info : YangSessionInfo) : Call RemoteSession := do
  let remoteIcePwd ← takeCredential 64 session.remoteIcePwd info.icePwd
  let remoteUfrag ← takeCredential 32 session.remoteUfrag info.iceUfrag
  return { session with remoteIcePwd, remoteUfrag }

/-- A candidate that begins with the address is taken for one with that address. -/
def hasRemoteIp (candidates : List YangCandidate) : Bool :=
  candidates.any fun candidate => session.remoteIp.isPrefixOf candidate.ip

def hasPort (candidate : YangCandidate) : Bool := 0 < candidate.port

/-- Every port is taken, and the address that comes first. The flag is the code's `replaceIp`. -/
def takeCandidate (s : RemoteSession × Bool) (candidate : YangCandidate) :
    Call (RemoteSession × Bool) :=
  if hasPort candidate then
    let session := { s.1 with remotePort := candidate.port }
    if s.2 then do return ({ session with remoteIp := ← strcpy 64 candidate.ip }, false)
    else return (session, false)
  else return s

def remoteCandidates (candidates : List YangCandidate) : Call RemoteSession := do
  let (session, _) ← candidates.foldlM takeCandidate (session, !hasRemoteIp session candidates)
  return session

def parseRemoteDesc (desc : YangMediaDesc) : Call RemoteSession := do
  let session ← remoteCredentials session desc.sessionInfo
  let media := desc.ssrcGroups.foldl remoteSsrcGroup
    (remoteMedia session.media desc session.mediaServer)
  remoteCandidates { session with media } desc.candidates

def sdpParseRemoteSdp (sdp : YangSdp) : Call RemoteSession :=
  sdp.mediaDescs.foldlM parseRemoteDesc session

end Parse

/-! The address and the port that are taken, by what is in the sections. -/

/-- Some candidate begins with the address. -/
def Begins (ip : CStr) (candidates : List YangCandidate) : Prop :=
  ∃ candidate ∈ candidates, ip <+: candidate.ip

/-- From the address standing before the sections to the one after them: a section with a port puts
its first candidate with one in its place, except where some candidate begins with it. -/
inductive IpStands : CStr → List (List YangCandidate) → CStr → Prop where
  | last (ip : CStr) : IpStands ip [] ip
  | kept {ip ip' : CStr} {candidates : List YangCandidate} {sections : List (List YangCandidate)} :
      candidates.find? hasPort = none ∨ Begins ip candidates → IpStands ip sections ip' →
      IpStands ip (candidates :: sections) ip'
  | replaced {ip ip' : CStr} {candidates : List YangCandidate}
      {sections : List (List YangCandidate)} {first : YangCandidate} :
      candidates.find? hasPort = some first → ¬Begins ip candidates →
      IpStands first.ip sections ip' → IpStands ip (candidates :: sections) ip'

def YangSdp.sections (sdp : YangSdp) : List (List YangCandidate) :=
  sdp.mediaDescs.map YangMediaDesc.candidates

def YangSdp.candidates (sdp : YangSdp) : List YangCandidate := sdp.sections.flatten

/-- The pair is that of one candidate, or unchanged where none has a port. -/
def PairOfOne (sdp : YangSdp) (session session' : RemoteSession) : Prop :=
  (∃ candidate ∈ sdp.candidates,
      session'.remoteIp = candidate.ip ∧ session'.remotePort = candidate.port) ∨
    ((∀ candidate ∈ sdp.candidates, ¬hasPort candidate) ∧
      session'.remoteIp = session.remoteIp ∧ session'.remotePort = session.remotePort)

def SelectsOne (sdp : YangSdp) (session : RemoteSession) : Prop :=
  ∃ session', sdpParseRemoteSdp session sdp = .ret session' ∧ PairOfOne sdp session session'

/-- The first password of a section is short enough where the session has none. -/
def PasswordFits (remoteIcePwd : CStr) (descs : List YangMediaDesc) : Prop :=
  remoteIcePwd = [] → ∀ desc, descs.find? (·.sessionInfo.icePwd ≠ []) = some desc →
    desc.sessionInfo.icePwd.length < 64

/-- The candidate with a port that comes last of all shares its port with one that has the address
left standing. -/
def SharedPort (sdp : YangSdp) (remoteIp : CStr) : Prop :=
  ∀ last, (sdp.candidates.filter hasPort).getLast? = some last →
    ∃ candidate ∈ sdp.candidates, candidate.port = last.port ∧
      IpStands remoteIp sdp.sections candidate.ip

/-- Strings as they are in the arrays of a section. -/
structure YangMediaDesc.InArrays (desc : YangMediaDesc) : Prop where
  iceUfrag : desc.sessionInfo.iceUfrag.length < 32
  ip : ∀ candidate ∈ desc.candidates, candidate.ip.length < 64

section Sections

variable {session session' : RemoteSession} {candidates : List YangCandidate} {replaceIp : Bool}
  {desc : YangMediaDesc} {ip a b : CStr} {sections : List (List YangCandidate)}

theorem hasRemoteIp_iff : hasRemoteIp session candidates ↔ Begins session.remoteIp candidates := by
  simp only [hasRemoteIp, Begins, List.any_eq_true, List.isPrefixOf_iff_prefix]

/-- What the candidates of one section leave. -/
theorem foldlM_takeCandidate (hip : ∀ candidate ∈ candidates, candidate.ip.length < 64) :
    ∃ replaceIp', candidates.foldlM takeCandidate (session, replaceIp) = .ret
      ({ session with
          remoteIp := if replaceIp then
            ((candidates.find? hasPort).map YangCandidate.ip).getD session.remoteIp
          else session.remoteIp
          remotePort := ((candidates.filter hasPort).getLast?.map YangCandidate.port).getD
            session.remotePort }, replaceIp') := by
  induction candidates generalizing session replaceIp with
  | nil => exact ⟨replaceIp, by cases replaceIp <;> rfl⟩
  | cons candidate candidates ih =>
    have hrest := fun c hc => hip c (List.mem_cons_of_mem _ hc)
    rw [List.foldlM_cons]
    by_cases hport : hasPort candidate
    · have htake : takeCandidate (session, replaceIp) candidate = .ret
          ({ session with
              remoteIp := if replaceIp then candidate.ip else session.remoteIp
              remotePort := candidate.port }, false) := by
        unfold takeCandidate
        rw [if_pos hport]
        cases replaceIp with
        | false => rfl
        | true =>
          have hcopy : strcpy 64 candidate.ip = .ret candidate.ip :=
            if_pos (hip candidate List.mem_cons_self)
          simp only [if_true, hcopy, Call.ret_bind, Call.pure_eq]
      rw [htake, Call.ret_bind]
      obtain ⟨replaceIp', hfold⟩ := @ih { session with
        remoteIp := if replaceIp then candidate.ip else session.remoteIp
        remotePort := candidate.port } false hrest
      refine ⟨replaceIp', hfold.trans ?_⟩
      rw [List.find?_cons_of_pos hport, List.filter_cons_of_pos hport, List.getLast?_cons]
      simp
    · have htake : takeCandidate (session, replaceIp) candidate = .ret (session, replaceIp) :=
        if_neg hport
      rw [htake, Call.ret_bind, List.find?_cons_of_neg hport, List.filter_cons_of_neg hport]
      exact ih hrest

/-- The port of the last candidate that has one, or the port before them. -/
def lastPort (candidates : List YangCandidate) (port : Int32) : Int32 :=
  ((candidates.filter hasPort).getLast?.map YangCandidate.port).getD port

theorem lastPort_append (front behind : List YangCandidate) (port : Int32) :
    lastPort (front ++ behind) port = lastPort behind (lastPort front port) := by
  unfold lastPort
  rw [List.filter_append, List.getLast?_append]
  cases (behind.filter hasPort).getLast? <;> rfl

theorem remoteCandidates_ret (hip : ∀ candidate ∈ candidates, candidate.ip.length < 64) :
    ∃ session', remoteCandidates session candidates = .ret session' ∧
      session'.remoteIcePwd = session.remoteIcePwd ∧
      session'.remotePort = lastPort candidates session.remotePort ∧
      ∀ sections ip, IpStands session'.remoteIp sections ip →
        IpStands session.remoteIp (candidates :: sections) ip := by
  obtain ⟨replaceIp', hfold⟩ := @foldlM_takeCandidate session candidates
    (!hasRemoteIp session candidates) hip
  unfold remoteCandidates
  rw [hfold, Call.ret_bind]
  refine ⟨_, rfl, rfl, rfl, ?_⟩
  intro sections ip hstands
  by_cases hbegins : Begins session.remoteIp candidates
  · rw [hasRemoteIp_iff.mpr hbegins] at hstands
    exact .kept (.inr hbegins) hstands
  · rw [Bool.not_eq_true _ |>.mp (mt hasRemoteIp_iff.mp hbegins)] at hstands
    cases hfirst : candidates.find? hasPort with
    | none =>
      rw [hfirst] at hstands
      exact .kept (.inl hfirst) hstands
    | some first =>
      rw [hfirst] at hstands
      exact .replaced hfirst hbegins hstands

theorem takeCredential_eq (size : Nat) (own shared : CStr) : takeCredential size own shared =
    if own = [] → shared.length < size then .ret (if own = [] then shared else own)
    else .crash := by
  unfold takeCredential strcpy
  by_cases hown : own = []
  · simp only [hown, if_true, true_implies]
  · simp only [hown, if_false, false_implies, if_true]

theorem remoteCredentials_eq (hufrag : desc.sessionInfo.iceUfrag.length < 32) :
    ∃ remoteUfrag, remoteCredentials session desc.sessionInfo =
      if session.remoteIcePwd = [] → desc.sessionInfo.icePwd.length < 64 then
        .ret { session with
          remoteIcePwd :=
            if session.remoteIcePwd = [] then desc.sessionInfo.icePwd else session.remoteIcePwd
          remoteUfrag }
      else .crash := by
  refine ⟨if session.remoteUfrag = [] then desc.sessionInfo.iceUfrag else session.remoteUfrag, ?_⟩
  unfold remoteCredentials
  rw [takeCredential_eq, takeCredential_eq, if_pos fun _ => hufrag]
  split
  · rfl
  · rfl

/-- What a section leaves: the session goes on with the first password, the last port and the
address that stands. -/
theorem parseRemoteDesc_ret (h : desc.InArrays)
    (hpwd : session.remoteIcePwd = [] → desc.sessionInfo.icePwd.length < 64) :
    ∃ session', parseRemoteDesc session desc = .ret session' ∧
      session'.remoteIcePwd =
        (if session.remoteIcePwd = [] then desc.sessionInfo.icePwd else session.remoteIcePwd) ∧
      session'.remotePort = lastPort desc.candidates session.remotePort ∧
      ∀ sections ip, IpStands session'.remoteIp sections ip →
        IpStands session.remoteIp (desc.candidates :: sections) ip := by
  obtain ⟨remoteUfrag, hcredentials⟩ := @remoteCredentials_eq session desc h.iceUfrag
  unfold parseRemoteDesc
  rw [hcredentials, if_pos hpwd, Call.ret_bind]
  exact remoteCandidates_ret h.ip

theorem parseRemoteDesc_pwd (h : desc.InArrays)
    (hret : parseRemoteDesc session desc = .ret session') :
    session.remoteIcePwd = [] → desc.sessionInfo.icePwd.length < 64 := by
  obtain ⟨remoteUfrag, hcredentials⟩ := @remoteCredentials_eq session desc h.iceUfrag
  unfold parseRemoteDesc at hret
  rw [hcredentials] at hret
  by_contra hpwd
  rw [if_neg hpwd] at hret
  exact nomatch hret

end Sections

section Run

variable {session session' : RemoteSession} {descs : List YangMediaDesc} {desc : YangMediaDesc}
  {pwd ip a b : CStr} {sections : List (List YangCandidate)} {sdp : YangSdp}

theorem passwordFits_cons : PasswordFits pwd (desc :: descs) ↔
    (pwd = [] → desc.sessionInfo.icePwd.length < 64) ∧
      PasswordFits (if pwd = [] then desc.sessionInfo.icePwd else pwd) descs := by
  unfold PasswordFits
  by_cases hpwd : pwd = []
  · simp only [hpwd, if_true, true_implies]
    by_cases hempty : desc.sessionInfo.icePwd = []
    · rw [List.find?_cons_of_neg (by simp [hempty])]
      simp [hempty]
    · rw [List.find?_cons_of_pos (by simp [hempty])]
      simp [hempty]
  · simp only [hpwd, if_false, false_implies, and_self]

/-- What all sections leave. -/
theorem foldlM_parseRemoteDesc (hin : ∀ desc ∈ descs, desc.InArrays)
    (hpwd : PasswordFits session.remoteIcePwd descs) :
    ∃ session', descs.foldlM parseRemoteDesc session = .ret session' ∧
      session'.remotePort =
        lastPort (descs.map YangMediaDesc.candidates).flatten session.remotePort ∧
      IpStands session.remoteIp (descs.map YangMediaDesc.candidates) session'.remoteIp := by
  induction descs generalizing session with
  | nil => exact ⟨session, rfl, rfl, .last _⟩
  | cons desc descs ih =>
    obtain ⟨hfirst, hrest⟩ := passwordFits_cons.mp hpwd
    obtain ⟨mid, hmid, hmidPwd, hmidPort, hmidIp⟩ :=
      parseRemoteDesc_ret (hin desc List.mem_cons_self) hfirst
    obtain ⟨session', hret, hport, hip⟩ := @ih mid
      (fun d hd => hin d (List.mem_cons_of_mem _ hd)) (hmidPwd ▸ hrest)
    refine ⟨session', ?_, ?_, ?_⟩
    · rw [List.foldlM_cons, hmid, Call.ret_bind, hret]
    · rw [hport, hmidPort, List.map_cons, List.flatten_cons, lastPort_append]
    · exact hmidIp _ _ hip

theorem passwordFits_of_ret (hin : ∀ desc ∈ descs, desc.InArrays)
    (h : descs.foldlM parseRemoteDesc session = .ret session') :
    PasswordFits session.remoteIcePwd descs := by
  induction descs generalizing session with
  | nil =>
    intro _ desc hdesc
    exact nomatch hdesc
  | cons desc descs ih =>
    rw [List.foldlM_cons] at h
    obtain ⟨mid, hmid, hrest⟩ := Call.bind_eq_ret.mp h
    have hpwd := parseRemoteDesc_pwd (hin desc List.mem_cons_self) hmid
    obtain ⟨mid', hmid', hmidPwd, -⟩ := parseRemoteDesc_ret (hin desc List.mem_cons_self) hpwd
    cases hmid.symm.trans hmid'
    have htail := ih (fun d hd => hin d (List.mem_cons_of_mem _ hd)) hrest
    rw [hmidPwd] at htail
    exact passwordFits_cons.mpr ⟨hpwd, htail⟩

/-- Only one address is left standing. -/
theorem ipStands_unique (ha : IpStands ip sections a) (hb : IpStands ip sections b) : a = b := by
  induction ha with
  | last ip =>
    cases hb
    rfl
  | kept hkept _ ih =>
    cases hb with
    | kept _ hb => exact ih hb
    | replaced hfirst hbegins _ =>
      rcases hkept with hnone | hkept
      · rw [hnone] at hfirst
        exact nomatch hfirst
      · exact absurd hkept hbegins
  | replaced hfirst hbegins _ ih =>
    cases hb with
    | kept hkept _ =>
      rcases hkept with hnone | hkept
      · rw [hnone] at hfirst
        exact nomatch hfirst
      · exact absurd hkept hbegins
    | replaced hfirst' _ hb =>
      cases hfirst.symm.trans hfirst'
      exact ih hb

theorem ipStands_portless (h : ∀ candidates ∈ sections, ∀ c ∈ candidates, ¬hasPort c)
    (hstands : IpStands ip sections a) : a = ip := by
  induction hstands with
  | last ip => rfl
  | kept _ _ ih => exact ih fun candidates hc => h candidates (List.mem_cons_of_mem _ hc)
  | replaced hfirst _ _ _ =>
    have hmem := List.mem_of_find?_eq_some hfirst
    exact absurd (List.find?_some hfirst) (h _ List.mem_cons_self _ hmem)

theorem selectsOne_iff (hin : ∀ desc ∈ sdp.mediaDescs, desc.InArrays) :
    SelectsOne sdp session ↔
      PasswordFits session.remoteIcePwd sdp.mediaDescs ∧ SharedPort sdp session.remoteIp := by
  constructor
  · rintro ⟨session', hret, hpair⟩
    have hpwd := passwordFits_of_ret hin hret
    obtain ⟨session'', hret', hport, hip⟩ := foldlM_parseRemoteDesc hin hpwd
    cases hret.symm.trans hret'
    refine ⟨hpwd, ?_⟩
    intro last hlast
    rcases hpair with ⟨candidate, hmem, hcip, hcport⟩ | ⟨hnone, -⟩
    · refine ⟨candidate, hmem, ?_, hcip ▸ hip⟩
      rw [← hcport, hport]
      unfold lastPort
      rw [← YangSdp.sections, ← YangSdp.candidates, hlast]
      rfl
    · have hmem := List.mem_filter.mp (List.mem_of_getLast? hlast)
      exact absurd hmem.2 (hnone last hmem.1)
  · rintro ⟨hpwd, hshared⟩
    obtain ⟨session', hret, hport, hip⟩ := foldlM_parseRemoteDesc hin hpwd
    refine ⟨session', hret, ?_⟩
    cases hlast : (sdp.candidates.filter hasPort).getLast? with
    | none =>
      have hnone : ∀ candidate ∈ sdp.candidates, ¬hasPort candidate :=
        List.filter_eq_nil_iff.mp (List.getLast?_eq_none_iff.mp hlast)
      refine .inr ⟨hnone, ?_, ?_⟩
      · apply ipStands_portless _ hip
        intro candidates hc c hmem
        exact hnone c (List.mem_flatten.mpr ⟨candidates, hc, hmem⟩)
      · rw [hport]
        unfold lastPort
        rw [← YangSdp.sections, ← YangSdp.candidates, hlast]
        rfl
    | some last =>
      obtain ⟨candidate, hmem, hcport, hcip⟩ := hshared last hlast
      refine .inl ⟨candidate, hmem, ipStands_unique hip hcip, ?_⟩
      rw [hport, hcport]
      unfold lastPort
      rw [← YangSdp.sections, ← YangSdp.candidates, hlast]
      rfl

end Run

/-- A section with two candidates. -/
def twoCandidates : YangSdp where
  mediaDescs := [{
    port := 9, type := lit "video", protos := lit "UDP/TLS/RTP/SAVPF"
    candidates := [⟨5000, lit "10.0.0.1", lit "host"⟩, ⟨6000, lit "10.0.0.2", lit "host"⟩] }]

/-- A player that has the address of a server in its configuration. -/
def otherServer : RemoteSession where
  mediaServer := 1
  remoteIp := lit "192.168.0.7"
  remotePort := 1985
  media := { streamOptType := .play }

theorem twoCandidates_inArrays : ∀ desc ∈ twoCandidates.mediaDescs, desc.InArrays := by
  intro desc hdesc
  rw [List.mem_singleton.mp hdesc]
  constructor <;> decide

end MetaRtc
