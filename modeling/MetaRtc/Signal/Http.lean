import MetaRtc.Signal.Srs

/-! # Receiving an HTTP message

The client's loop and the server's take the bytes as `recv` hands them out. What they know of the
message is what they have found in the bytes so far. -/
namespace MetaRtc

open Exec Bytes Tokens Occurrences

def yangHttpBuffer : Nat := 1024 * 12
def yangHttpContent : CStr := lit "Content-Length:"

/-- The size of a pointer to the text, not of the text. -/
def contetSize : Nat := 8

/-- The size of `rets` in the server's thread. -/
def p2pRetsLen : Nat := 1024 * 16

/-- What `recv` returns. `again` stands for `EINTR`, `EWOULDBLOCK` and `EAGAIN`. -/
inductive Recv where
  | bytes (bs : CStr)
  | again
  | closed
  | error
  deriving DecidableEq

structure HttpState where
  recvtimes : Nat := 0
  contentLen : Int32 := 0
  headerLen : Nat := 0
  rets : CStr := []
  deriving DecidableEq

inductive HttpStep where
  | leave
  | goOn (s : HttpState)
  | success (s : HttpState)
  deriving DecidableEq

/-- `strstr` in an array of `size` bytes, of which those behind `bs` are zero. Without a NUL it ends
at the word only. -/
def strstrIn (size : Nat) (bs word : CStr) : Call (Option Nat) :=
  match find word (upTo 0 bs) with
  | some p => .ret (some p)
  | none => if bs.length < size ∨ 0 ∈ bs then .ret none else .crash

/-- One more than where the character is in the string that begins at `p`, zero without it. -/
def yangCstrUserfindindex (size : Nat) (bs : CStr) (p : Nat) (c : UInt8) : Call Nat := do
  let str ← readTo size (upTo 0 bs)
  match cut c (str.drop p) with
  | some (before, _) => return before.length + 1
  | none => return 0

def yangCstrIsnumber (p : CStr) : Option Nat := p.findIdx? isdigit

/-- The number in the line that begins at `p` and has its carriage return before `ind`. -/
def readContentLen (bs : CStr) (p ind : Nat) (contentLen : Int32) : Call Int32 := do
  let contentLenStr ← memcpyTo 20 (((bs.drop p).drop contetSize).take (ind - contetSize))
  match yangCstrIsnumber contentLenStr with
  | some numberIndex => return atoi (contentLenStr.drop numberIndex)
  | none => return contentLen

/-- The bytes go behind those received. The first ones have to name the protocol. -/
def receive (size : Nat) (s : HttpState) (bs : CStr) : Call (Except HttpStep HttpState) :=
  if size < s.rets.length + bs.length then .crash
  else do
    let s' := { s with rets := s.rets ++ bs, recvtimes := s.recvtimes + 1 }
    if s.recvtimes = 0 then
      match ← strstrIn yangHttpBuffer bs (lit "HTTP") with
      | some _ => return .ok s'
      | none => return .error .leave
    else return .ok s'

section Client

/-- The client looks for the length until it has one, and leaves without the word. -/
def postContentLen (size : Nat) (s : HttpState) : Call (Except HttpStep HttpState) :=
  if s.contentLen = 0 then do
    match ← strstrIn size s.rets yangHttpContent with
    | none => return .error .leave
    | some p =>
      let ind ← yangCstrUserfindindex size s.rets p CR
      if ind = 0 then return .error (.goOn s)
      else if contetSize < ind then
        let contentLen ← readContentLen s.rets p ind s.contentLen
        return .ok { s with contentLen }
      else return .ok s
  else return .ok s

def postHeaderLen (size : Nat) (s : HttpState) : Call (Except HttpStep HttpState) :=
  if s.headerLen = 0 then do
    match ← strstrIn size s.rets (kCRLF ++ kCRLF) with
    | none => return .error (.goOn s)
    | some contentPos =>
      return .ok (if 0 < contentPos then { s with headerLen := contentPos + 4 } else s)
  else return .ok s

def postReceived (size : Nat) (s : HttpState) : Call HttpStep := do
  match ← postContentLen size s with
  | .error step => return step
  | .ok s =>
    match ← postHeaderLen size s with
    | .error step => return step
    | .ok s =>
      if (s.headerLen : Int) + s.contentLen.toInt ≤ s.rets.length then return .success s
      else return .goOn s

/-- One turn of the loop in `yang_http_post`, for bytes that have come in. -/
def postStep (size : Nat) (s : HttpState) (bs : CStr) : Call HttpStep := do
  match ← receive size s bs with
  | .error step => return step
  | .ok s => postReceived size s

end Client

section Server

/-- The server looks for the length once, when it has the head. -/
def serverHeader (size : Nat) (s : HttpState) : Call (Except HttpStep HttpState) :=
  if s.headerLen = 0 then do
    match ← strstrIn size s.rets (kCRLF ++ kCRLF) with
    | none => return .error (.goOn s)
    | some contentPos =>
      let s := if 0 < contentPos then { s with headerLen := contentPos + 4 } else s
      match ← strstrIn size s.rets yangHttpContent with
      | none => return .ok s
      | some p =>
        if p < contentPos then
          let ind ← yangCstrUserfindindex size s.rets p CR
          if contetSize < ind then
            let contentLen ← readContentLen s.rets p ind s.contentLen
            return .ok { s with contentLen }
          else return .ok s
        else return .ok s
  else return .ok s

/-- Without a length the message ends with a brace among the bytes that have come in. -/
def serverReceived (size : Nat) (s : HttpState) (bs : CStr) : Call HttpStep := do
  match ← serverHeader size s with
  | .error step => return step
  | .ok s =>
    if 0 < s.contentLen ∧ (s.headerLen : Int) + s.contentLen.toInt ≤ s.rets.length then
      return .success s
    else if s.contentLen = 0 ∧ 0 < s.headerLen then
      match ← strstrIn yangHttpBuffer bs (lit "\x7d") with
      | some _ => return .success s
      | none => return .goOn s
    else return .goOn s

def serverStep (size : Nat) (s : HttpState) (bs : CStr) : Call HttpStep := do
  match ← receive size s bs with
  | .error step => return step
  | .ok s => serverReceived size s bs

end Server

inductive HttpEnd where
  | waiting (s : HttpState)
  | failed
  | success (s : HttpState)
  deriving DecidableEq

def httpLoop (step : HttpState → CStr → Call HttpStep) : List Recv → HttpState → Call HttpEnd
  | [], s => .ret (.waiting s)
  | .again :: recvs, s => httpLoop step recvs s
  | .closed :: _, _ => .ret .failed
  | .error :: _, _ => .ret .failed
  | .bytes bs :: recvs, s => do
    match ← step s bs with
    | .leave => return .failed
    | .goOn s => httpLoop step recvs s
    | .success s => return .success s

/-- On success the caller has the whole of `rets`. -/
def yangHttpPost (recvs : List Recv) : Call HttpEnd :=
  httpLoop (postStep yangSdpBufferlen) recvs {}

/-- On success the thread hands on what stands behind the head, with a line feed for every CR LF and
without closing braces. -/
def yangRunHttpThread (recvs : List Recv) : Call (HttpEnd × Option CStr) := do
  match ← httpLoop (serverStep p2pRetsLen) recvs {} with
  | .success s =>
    let body ← readTo (p2pRetsLen - s.headerLen) (upTo 0 (s.rets.drop s.headerLen))
    let tmp ← replaceTo p2pRetsLen body kCRLF [LF]
    let rets ← replaceTo p2pRetsLen tmp (lit "\x7d") []
    return (.success s, some rets)
  | .failed => return (.failed, none)
  | .waiting s => return (.waiting s, none)

end MetaRtc
