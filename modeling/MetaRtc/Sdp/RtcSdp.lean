import MetaRtc.Sdp.MediaDesc

/-! # Session descriptions as text -/
namespace MetaRtc

open Exec Tokens

structure YangSdp where
  inMediaSession : Bool := false
  startTime : Int64 := 0
  endTime : Int64 := 0
  sessionInfo : YangSessionInfo := {}
  groups : List CStr := []
  groupPolicy : CStr := []
  msidSemantic : CStr := []
  msids : List CStr := []
  mediaDescs : List YangMediaDesc := []
  version : CStr := []
  username : CStr := []
  sessionId : CStr := []
  sessionVersion : CStr := []
  nettype : CStr := []
  addrtype : CStr := []
  unicastAddress : CStr := []
  sessionName : CStr := []
  deriving DecidableEq

/-- A zeroed description. -/
def createRtcsdp : YangSdp := { version := lit "0" }

section Encode

variable (sdp : YangSdp)

/-- The group line is written only where there is no group to write. -/
def encodeGroup : CStr :=
  if sdp.groups = [] then
    lit "a=group:" ++ sdp.groupPolicy ++ (sdp.groups.flatMap fun group => lit " " ++ group) ++ kCRLF
  else []

/-- The lines put together in an array of 2048 bytes. -/
def encodeSession : CStr :=
  lit "v=" ++ sdp.version ++ kCRLF ++
  lit "o=" ++ sdp.username ++ lit " " ++ sdp.sessionId ++ lit " " ++ sdp.sessionVersion ++
    lit " " ++ sdp.nettype ++ lit " " ++ sdp.addrtype ++ lit " " ++ sdp.unicastAddress ++ kCRLF ++
  lit "s=" ++ sdp.sessionName ++ kCRLF ++
  lit "t=" ++ printInt sdp.startTime.toInt ++ lit " " ++ printInt sdp.endTime.toInt ++ kCRLF ++
  lit "a=ice-lite" ++ kCRLF ++
  encodeGroup sdp ++
  lit "a=msid-semantic: " ++ sdp.msidSemantic ++
    (sdp.msids.flatMap fun msid => lit " " ++ msid) ++ kCRLF

/-- Encode to a buffer of `room` bytes. -/
def rtcsdpEncode (room : Nat) : Call (Nat × CStr) := do
  let tmp ← strcpy 2048 (encodeSession sdp)
  let descs := encodeEach encodeMediadesc sdp.mediaDescs
  let text := tmp ++ encodeSessionInfo sdp.sessionInfo ++ descs.2
  -- on an error the number of characters printed comes back
  let err := if descs.1 ≠ 0 then (lit "encode media description failed").length else 0
  if text.length ≤ room then return (err, text) else .crash

end Encode

section Parse

variable (sdp : YangSdp)

/-- Five tokens pass the check, the sixth is copied. -/
def rtcsdpParseOrigin (content : CStr) : Call (Nat × YangSdp) := do
  let str := cstrSplit content space
  if str.length < 5 then return (1, sdp)
  return (0, { sdp with
    username := ← strcpy 128 (← Call.deref str[0]?)
    sessionId := ← strcpy 32 (← Call.deref str[1]?)
    sessionVersion := ← strcpy 128 (← Call.deref str[2]?)
    nettype := ← strcpy 16 (← Call.deref str[3]?)
    addrtype := ← strcpy 32 (← Call.deref str[4]?)
    unicastAddress := ← strcpy 32 (← Call.deref str[5]?) })

def rtcsdpParseVersion (content : CStr) : Call (Nat × YangSdp) := do
  return (0, { sdp with version := ← strcpy 16 (if content ≠ [] then content else itoa 0) })

def rtcsdpParseSessionName (content : CStr) : Call (Nat × YangSdp) := do
  return (0, { sdp with sessionName := ← strcpy 64 content })

def rtcsdpParseTiming (content : CStr) : Call (Nat × YangSdp) :=
  match cstrSplit content space with
  | startTime :: endTime :: _ =>
    .ret (0, { sdp with startTime := atol startTime, endTime := atol endTime })
  | _ => .ret (1, sdp)

def rtcsdpParseAttrGroup (value : CStr) : Call (Nat × YangSdp) := do
  match cstrSplit value space with
  | [] => return (1, sdp)
  | policy :: groups =>
    return (0, { sdp with groupPolicy := ← strcpy 16 policy, groups := sdp.groups ++ groups })

def rtcsdpParseMediaDescription (content : CStr) : Call (Nat × YangSdp) := do
  match cstrSplit content space with
  | type :: port :: protos :: format :: more =>
    let type ← strcpy 16 type
    let protos ← strcpy 64 protos
    let payloadTypes := (format :: more).map fun pt => ({ payloadType := atoi pt } :
      YangMediaPayloadType)
    let desc : YangMediaDesc := { type, protos, port := atoi port, payloadTypes }
    return (0, { sdp with mediaDescs := sdp.mediaDescs ++ [desc], inMediaSession := true })
  | _ => return (1, sdp)

def rtcsdpParseMsidSemantic (value : CStr) : Call (Nat × YangSdp) := do
  let str := cstrSplit value space
  let msidSemantic ← strcpy 64 (← Call.deref str[0]?)
  return (0, { sdp with msidSemantic, msids := sdp.msids ++ str.drop 1 })

/-- An attribute without a value has no name here. -/
def rtcsdpParseAttribute (content : CStr) : Call (Nat × YangSdp) := do
  let (name, rest) := (cut colon content).getD ([], [])
  let attr ← memcpyTo 256 name
  let value ← strcpy 256 rest
  if attr = lit "group" then rtcsdpParseAttrGroup sdp value
  else if attr = lit "msid-semantic" then rtcsdpParseMsidSemantic sdp value
  else return (0, { sdp with
    sessionInfo := ← sessioninfoParseAttribute sdp.sessionInfo attr (.ret value) })

/-- An attribute of the section begun last. -/
def mediadescParseLine (content : CStr) : Call (Nat × YangSdp) := do
  let last ← Call.deref sdp.mediaDescs.getLast?
  let (err, desc) ← mediadescParseAttribute last content
  return (err, { sdp with mediaDescs := sdp.mediaDescs.dropLast ++ [desc] })

/-- A line `type=content`. -/
def rtcsdpParseLine (type : UInt8) (content : CStr) : Call (Nat × YangSdp) :=
  if type = 111 then rtcsdpParseOrigin sdp content            -- 'o'
  else if type = 118 then rtcsdpParseVersion sdp content      -- 'v'
  else if type = 115 then rtcsdpParseSessionName sdp content  -- 's'
  else if type = 116 then rtcsdpParseTiming sdp content       -- 't'
  else if type = 97 then                                      -- 'a'
    if sdp.inMediaSession then mediadescParseLine sdp content else rtcsdpParseAttribute sdp content
  else if type = 109 then rtcsdpParseMediaDescription sdp content  -- 'm'
  else .ret (0, sdp)

/-- Parse line after line up to the first error. -/
def rtcsdpParseLines (sdp : YangSdp) : List CStr → Call (Nat × YangSdp)
  | [] => .ret (0, sdp)
  | (type :: 61 :: content) :: lines => do
    let (err, sdp) ← rtcsdpParseLine sdp type content
    if err ≠ 0 then return (1, sdp)
    rtcsdpParseLines sdp lines
  | _ :: _ => .ret (errorRtcSdpDecode, sdp)

/-- The track names are optional for an ssrc and taken from the section where they are empty. -/
def YangMediaDesc.fillSsrcInfo (desc : YangMediaDesc) (info : YangSSRCInfo) : YangSSRCInfo :=
  let orElse (own shared : CStr) : CStr := if own = [] then shared else own
  { info with
    msid := orElse info.msid desc.msid
    msidTracker := orElse info.msidTracker desc.msidTracker
    mslabel := orElse info.mslabel desc.msid
    label := orElse info.label desc.msidTracker }

def YangMediaDesc.fillSsrcInfos (desc : YangMediaDesc) : YangMediaDesc :=
  { desc with ssrcInfos := desc.ssrcInfos.map desc.fillSsrcInfo }

def rtcsdpParse (sdpStr : CStr) : Call (Nat × YangSdp) := do
  let (err, sdp) ← rtcsdpParseLines sdp (cstrSplit sdpStr LF)
  if err ≠ 0 then return (err, sdp)
  return (0, { sdp with mediaDescs := sdp.mediaDescs.map YangMediaDesc.fillSsrcInfos })

end Parse

end MetaRtc
