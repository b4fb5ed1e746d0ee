import MetaRtc.Sdp.CString

/-! # Media sections of a session description -/
namespace MetaRtc

open Exec Tokens

def errorRtcSdpDecode : Nat := 5012

structure YangSSRCGroup where
  groups : List UInt32
  semantic : CStr
  deriving DecidableEq

structure YangSSRCInfo where
  ssrc : UInt32
  cname : CStr := []
  msid : CStr := []
  msidTracker : CStr := []
  mslabel : CStr := []
  label : CStr := []
  deriving DecidableEq

structure YangMediaPayloadType where
  payloadType : Int32
  encodingName : CStr := []
  clockRate : Int32 := 0
  encodingParam : CStr := []
  formatSpecificParam : CStr := []
  rtcpFb : List CStr := []
  deriving DecidableEq

structure YangCandidate where
  port : Int32
  ip : CStr
  type : CStr
  deriving DecidableEq

structure YangExtmap where
  mapid : Int32
  extmap : CStr
  deriving DecidableEq

structure YangSessionInfo where
  iceUfrag : CStr := []
  icePwd : CStr := []
  iceOptions : CStr := []
  fingerprintAlgo : CStr := []
  fingerprint : CStr := []
  setup : CStr := []
  deriving DecidableEq

structure YangMediaDesc where
  port : Int32
  sctpPort : Bool := false
  rtcpMux : Bool := false
  rtcpRsize : Bool := false
  sendonly : Bool := false
  recvonly : Bool := false
  sendrecv : Bool := false
  inactive : Bool := false
  type : CStr
  mid : CStr := []
  msid : CStr := []
  msidTracker : CStr := []
  protos : CStr
  sessionInfo : YangSessionInfo := {}
  payloadTypes : List YangMediaPayloadType := []
  candidates : List YangCandidate := []
  ssrcGroups : List YangSSRCGroup := []
  ssrcInfos : List YangSSRCInfo := []
  extmaps : List YangExtmap := []
  deriving DecidableEq

section Encode

/-! What an encoder leaves in the buffer, with its error. -/

/-- Encode one after the other up to the first error. -/
def encodeEach {α : Type} (encode : α → Nat × CStr) : List α → Nat × CStr
  | [] => (0, [])
  | a :: as =>
    if (encode a).1 ≠ 0 then encode a
    else ((encodeEach encode as).1, (encode a).2 ++ (encodeEach encode as).2)

def encodeSsrcinfo (info : YangSSRCInfo) : Nat × CStr :=
  if info.ssrc = 0 then (errorRtcSdpDecode, [])
  else
    let ssrcstr := itoa info.ssrc.toInt32
    (0, lit "a=ssrc:" ++ ssrcstr ++ lit " cname:" ++ info.cname ++ kCRLF ++
      (if info.msid ≠ [] then
        lit "a=ssrc:" ++ ssrcstr ++ lit " msid:" ++ info.msid ++
          (if info.msidTracker ≠ [] then lit " " ++ info.msidTracker else []) ++ kCRLF
      else []) ++
      (if info.mslabel ≠ [] then
        lit "a=ssrc:" ++ ssrcstr ++ lit " mslabel:" ++ info.mslabel ++ kCRLF
      else []) ++
      (if info.label ≠ [] then
        lit "a=ssrc:" ++ ssrcstr ++ lit " label:" ++ info.label ++ kCRLF
      else []))

def encodeMediapayloadtype (payload : YangMediaPayloadType) : Nat × CStr :=
  let intstr := itoa payload.payloadType
  (0, lit "a=rtpmap:" ++ intstr ++ lit " " ++ payload.encodingName ++ lit "/" ++
    itoa payload.clockRate ++
    (if payload.encodingParam ≠ [] then lit "/" ++ payload.encodingParam else []) ++ kCRLF ++
    (payload.rtcpFb.flatMap fun fb => lit "a=rtcp-fb:" ++ intstr ++ lit " " ++ fb ++ kCRLF) ++
    (if payload.formatSpecificParam ≠ [] then
      lit "a=fmtp:" ++ intstr ++ lit " " ++ payload.formatSpecificParam ++ kCRLF
    else []))

def encodeSessionInfo (info : YangSessionInfo) : CStr :=
  (if info.iceUfrag ≠ [] then lit "a=ice-ufrag:" ++ info.iceUfrag ++ kCRLF else []) ++
  (if info.icePwd ≠ [] then lit "a=ice-pwd:" ++ info.icePwd ++ kCRLF else []) ++
  (if info.iceOptions ≠ [] then lit "a=ice-options:" ++ info.iceOptions ++ kCRLF else []) ++
  (if info.fingerprintAlgo ≠ [] ∧ info.fingerprint ≠ [] then
    lit "a=fingerprint:" ++ info.fingerprintAlgo ++ lit " " ++ info.fingerprint ++ kCRLF
  else []) ++
  (if info.setup ≠ [] then lit "a=setup:" ++ info.setup ++ kCRLF else [])

def encodeFlag (set : Bool) (line : CStr) : CStr := if set then line ++ kCRLF else []

def encodeCandidate (foundation : Nat) (candidate : YangCandidate) : CStr :=
  let priority := 2 ^ 24 * 126 + 2 ^ 8 * 65535 + (256 - 1)
  lit "a=candidate:" ++ itoa (.ofNat foundation) ++ lit " " ++ itoa 1 ++ lit " udp " ++
    itoa (.ofNat priority) ++ lit " " ++ candidate.ip ++ lit " " ++ itoa candidate.port ++
    lit " typ " ++ candidate.type ++ lit " generation 0" ++ kCRLF

/-- The lines of a section before those that may fail. -/
def encodeMediaHead (desc : YangMediaDesc) : CStr :=
  lit "m=" ++ desc.type ++ lit " " ++ itoa desc.port ++ lit " " ++ desc.protos ++
  (desc.payloadTypes.flatMap fun payload => lit " " ++ itoa payload.payloadType) ++ kCRLF ++
  lit "c=IN IP4 0.0.0.0" ++ kCRLF ++
  encodeSessionInfo desc.sessionInfo ++
  lit "a=mid:" ++ desc.mid ++ kCRLF ++
  (if desc.msid ≠ [] then
    lit "a=msid:" ++ desc.msid ++
      (if desc.msidTracker ≠ [] then lit " " ++ desc.msidTracker else []) ++ kCRLF
  else []) ++
  (desc.extmaps.flatMap fun ext =>
    lit "a=extmap:" ++ itoa ext.mapid ++ lit " " ++ ext.extmap ++ kCRLF) ++
  encodeFlag desc.sendonly (lit "a=sendonly") ++
  encodeFlag desc.recvonly (lit "a=recvonly") ++
  encodeFlag desc.sendrecv (lit "a=sendrecv") ++
  encodeFlag desc.inactive (lit "a=inactive") ++
  encodeFlag desc.rtcpMux (lit "a=rtcp-mux") ++
  encodeFlag desc.rtcpRsize (lit "a=rtcp-rsize")

def encodeMediadesc (desc : YangMediaDesc) : Nat × CStr :=
  let (err, payloads) := encodeEach encodeMediapayloadtype desc.payloadTypes
  if err ≠ 0 then (1, encodeMediaHead desc ++ payloads)
  else
    let (err, ssrcs) := encodeEach encodeSsrcinfo desc.ssrcInfos
    if err ≠ 0 then (1, encodeMediaHead desc ++ payloads ++ ssrcs)
    else
      (0, encodeMediaHead desc ++ payloads ++ ssrcs ++
        encodeFlag desc.sctpPort (lit "a=sctp-port:5000") ++
        (desc.candidates.mapIdx encodeCandidate).flatten)

end Encode

section Parse

/-! `value` is what reading the value of the attribute gives. -/

def sessioninfoParseAttribute (info : YangSessionInfo) (attr : CStr) (value : Call CStr) :
    Call YangSessionInfo :=
  if attr = lit "ice-ufrag" then
    if info.iceUfrag ≠ [] then .ret info
    else do return { info with iceUfrag := ← strcpy 32 (← value) }
  else if attr = lit "ice-pwd" then
    if info.icePwd ≠ [] then .ret info
    else do return { info with icePwd := ← strcpy 128 (← value) }
  else if attr = lit "ice-options" then
    if info.iceOptions ≠ [] then .ret info
    else do return { info with iceOptions := ← strcpy 128 (← value) }
  else if attr = lit "fingerprint" then
    if info.fingerprintAlgo ≠ [] then .ret info
    else do
      match cut space (← value) with
      | some (algo, rest) =>
        return { info with
          fingerprintAlgo := ← memcpyTo 128 algo, fingerprint := ← strcpy 128 rest }
      | none => return { info with fingerprintAlgo := [], fingerprint := [] }
  else if attr = lit "setup" then
    if info.setup ≠ [] then .ret info
    else do return { info with setup := ← strcpy 128 (← value) }
  else .ret info

variable (desc : YangMediaDesc)

def mediadescFindMediaWithPayloadType (payloadType : Int32) : Option Nat :=
  desc.payloadTypes.findIdx? fun payload => payload.payloadType == payloadType

def mediadescParseAttrExtmap (value : Call CStr) : Call (Nat × YangMediaDesc) := do
  match cut space (← value) with
  | none => return (errorRtcSdpDecode, desc)
  | some (intstr, rest) =>
    let id ← intstrValue intstr
    if desc.extmaps.any (·.mapid == id) then return (errorRtcSdpDecode, desc)
    let extmap ← strcpy 128 rest
    return (0, { desc with extmaps := desc.extmaps ++ [⟨id, extmap⟩] })

def mediadescParseAttrRtpmap (value : Call CStr) : Call (Nat × YangMediaDesc) := do
  match cut space (← value) with
  | none => return (errorRtcSdpDecode, desc)
  | some (intstr, rest) =>
    let payloadType ← intstrValue intstr
    match mediadescFindMediaWithPayloadType desc payloadType with
    | none => return (errorRtcSdpDecode, desc)
    | some i =>
      match cstrSplit rest slash with
      | name :: rate :: more =>
        let encodingName ← strcpy 16 name
        let named (payload : YangMediaPayloadType) : YangMediaPayloadType :=
          { payload with encodingName, clockRate := atoi rate }
        match if more.length = 1 then more.head? else none with
        | some param =>
          let encodingParam ← strcpy 256 param
          return (0, { desc with payloadTypes :=
            desc.payloadTypes.modify i fun payload => { named payload with encodingParam } })
        | none => return (0, { desc with payloadTypes := desc.payloadTypes.modify i named })
      | _ => return (errorRtcSdpDecode, desc)

def mediadescParseAttrRtcpFb (value : Call CStr) : Call (Nat × YangMediaDesc) := do
  match cut space (← value) with
  | none => return (errorRtcSdpDecode, desc)
  | some (intstr, rest) =>
    let payloadType ← intstrValue intstr
    match mediadescFindMediaWithPayloadType desc payloadType with
    | none => return (errorRtcSdpDecode, desc)
    | some i =>
      return (0, { desc with payloadTypes := desc.payloadTypes.modify i fun payload =>
        { payload with rtcpFb := payload.rtcpFb ++ [rest] } })

def mediadescParseAttrFmtp (value : Call CStr) : Call (Nat × YangMediaDesc) := do
  let str := cstrSplit (← value) space
  match str[0]? with
  | none => return (errorRtcSdpDecode, desc)
  | some format =>
    match mediadescFindMediaWithPayloadType desc (atoi format) with
    | none => return (errorRtcSdpDecode, desc)
    | some i =>
      -- the second token is not asked for before it is copied
      let formatSpecificParam ← strcpy 128 (← Call.deref str[1]?)
      return (0, { desc with payloadTypes := desc.payloadTypes.modify i fun payload =>
        { payload with formatSpecificParam } })

def mediadescParseAttrMid (value : Call CStr) : Call (Nat × YangMediaDesc) := do
  return (0, { desc with mid := ← strcpy 64 (← value) })

def mediadescParseAttrMsid (value : Call CStr) : Call (Nat × YangMediaDesc) := do
  match cstrSplit (← value) space with
  | msid :: tracker :: _ =>
    return (0, { desc with msid := ← strcpy 64 msid, msidTracker := ← strcpy 64 tracker })
  | _ => return (0, desc)

def mediadescParseAttrSsrcGroup (value : Call CStr) : Call (Nat × YangMediaDesc) := do
  match cstrSplit (← value) space with
  | first :: id :: next :: more =>
    let semantic ← strcpy 64 first
    let group := { semantic, groups := (id :: next :: more).map fun id => (atoi id).toUInt32 }
    return (0, { desc with ssrcGroups := desc.ssrcGroups ++ [group] })
  | _ => return (errorRtcSdpDecode, desc)

def mediadescFetchOrCreateSsrcInfo (ssrc : UInt32) : Nat × YangMediaDesc :=
  match desc.ssrcInfos.findIdx? (·.ssrc == ssrc) with
  | some i => (i, desc)
  | none => (desc.ssrcInfos.length, { desc with ssrcInfos := desc.ssrcInfos ++ [{ ssrc }] })

def YangMediaDesc.modifySsrcInfo (i : Nat) (f : YangSSRCInfo → YangSSRCInfo) : YangMediaDesc :=
  { desc with ssrcInfos := desc.ssrcInfos.modify i f }

/-- The array is searched before it is known to hold a string. -/
def mediadescParseAttrSsrc (array : CStr) : Call (Nat × YangMediaDesc) := do
  let (intstr, _) ← Call.deref (cut colon array)
  let ssrc := (← intstrValue intstr).toUInt32
  let (_, p) ← Call.deref (cut space array)
  let (attr, rest) ← Call.deref (cut colon p)
  let ssrcAttr ← memcpyTo 16 attr
  let ssrcValue : Call CStr := do
    let _ ← readTo 128 array
    return rest
  let (i, desc) := mediadescFetchOrCreateSsrcInfo desc ssrc
  if ssrcAttr = lit "cname" then
    let cname ← strcpy 64 (← ssrcValue)
    return (0, desc.modifySsrcInfo i fun info => { info with cname, ssrc })
  else if ssrcAttr = lit "msid" then
    let value ← ssrcValue
    match cstrSplit value space with
    | [] => return (errorRtcSdpDecode, desc)
    | [only] =>
      -- the split cut the text off behind its one token and left what stood before
      let msid ← strcpy 64 (value.takeWhile (· = space) ++ only)
      return (0, desc.modifySsrcInfo i fun info => { info with msid })
    | first :: second :: _ =>
      let msid ← strcpy 64 first
      let msidTracker ← strcpy 64 second
      return (0, desc.modifySsrcInfo i fun info => { info with msid, msidTracker })
  else if ssrcAttr = lit "mslabel" then
    let mslabel ← strcpy 64 (← ssrcValue)
    return (0, desc.modifySsrcInfo i fun info => { info with mslabel })
  else if ssrcAttr = lit "label" then
    let label ← strcpy 64 (← ssrcValue)
    return (0, desc.modifySsrcInfo i fun info => { info with label })
  else return (0, desc)

def mediadescParseAttrCandidate (value : Call CStr) : Call (Nat × YangMediaDesc) := do
  match cstrSplit (← value) space with
  | _ :: _ :: _ :: _ :: ip :: port :: _ :: type :: _ =>
    let ip ← strcpy 64 ip
    let type ← strcpy 32 type
    return (0, { desc with candidates := desc.candidates ++ [⟨atoi port, ip, type⟩] })
  | _ => return (errorRtcSdpDecode, desc)

/-- What is done with an attribute, given the bytes copied to the array of its value. -/
def mediadescDispatch (attr array : CStr) : Call (Nat × YangMediaDesc) :=
  let value := readTo 128 array
  if attr = lit "extmap" then mediadescParseAttrExtmap desc value
  else if attr = lit "rtpmap" then mediadescParseAttrRtpmap desc value
  else if attr = lit "rtcp" then .ret (0, desc)
  else if attr = lit "rtcp-fb" then mediadescParseAttrRtcpFb desc value
  else if attr = lit "fmtp" then mediadescParseAttrFmtp desc value
  else if attr = lit "mid" then mediadescParseAttrMid desc value
  else if attr = lit "msid" then mediadescParseAttrMsid desc value
  else if attr = lit "ssrc" then mediadescParseAttrSsrc desc array
  else if attr = lit "ssrc-group" then mediadescParseAttrSsrcGroup desc value
  else if attr = lit "candidate" then mediadescParseAttrCandidate desc value
  else if attr = lit "rtcp-mux" then .ret (0, { desc with rtcpMux := true })
  else if attr = lit "rtcp-rsize" then .ret (0, { desc with rtcpRsize := true })
  else if attr = lit "recvonly" then .ret (0, { desc with recvonly := true })
  else if attr = lit "sendonly" then .ret (0, { desc with sendonly := true })
  else if attr = lit "sendrecv" then .ret (0, { desc with sendrecv := true })
  else if attr = lit "inactive" then .ret (0, { desc with inactive := true })
  else do
    let sessionInfo ← sessioninfoParseAttribute desc.sessionInfo attr value
    return (0, { desc with sessionInfo })

def mediadescParseAttribute (content : CStr) : Call (Nat × YangMediaDesc) := do
  match cut colon content with
  | some (name, rest) => mediadescDispatch desc (← memcpyTo 128 name) (← memcpyTo 128 rest)
  | none => mediadescDispatch desc (← strcpy 128 content) []

end Parse

end MetaRtc
