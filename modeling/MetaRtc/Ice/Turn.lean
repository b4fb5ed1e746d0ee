import MetaRtc.Buffer
import MetaRtc.Lib.Exec
import MetaRtc.Rtcp.Packet

/-! # The connection to a TURN server

One session asks the server for an allocation, and for a permission and a channel for each
peer. Requests go out from the session's own loop, answers come to the receiver. -/
namespace MetaRtc

open Bytes Exec

def errorRtcStun : Err := 5008

def kStunMagicCookie : Nat := 0x2112A442

def stunBindingRequest : Nat := 0x0001
def stunAllocate : Nat := 0x0003
def stunRefresh : Nat := 0x0004
def stunPermission : Nat := 0x0008
def stunChannelBindingRequest : Nat := 0x0009
def stunDataIndication : Nat := 0x0017
def stunBindingSuccessResponse : Nat := 0x0101
def stunAllocateSuccessResponse : Nat := 0x0103
def stunRefreshteSuccessResponse : Nat := 0x0104
def stunPermissionSuccessResponse : Nat := 0x0108
def stunChannelBindSuccessResponse : Nat := 0x0109
def stunBindingErrorResponse : Nat := 0x0111
def stunAllocateErrorResponse : Nat := 0x0113
def stunRefreshErrorResponse : Nat := 0x0114
def stunPermissionErrorResponse : Nat := 0x0118
def stunChannelBindErrorResponse : Nat := 0x0119

def stunUsername : Nat := 0x0006
def stunErrorCode : Nat := 0x0009
def stunChannelNumber : Nat := 0x000C
def stunLifetime : Nat := 0x000D
def stunXorPeerAddress : Nat := 0x0012
def stunRealm : Nat := 0x0014
def stunNonce : Nat := 0x0015
def stunXorRelayedAddress : Nat := 0x0016
def stunRequestTransport : Nat := 0x0019

def yangTurnErrorUnauthoorized : Nat := 401
def yangTurnErrorNonce : Nat := 438
def yangTurnTransportUdp : UInt8 := 0x11
def yangTurnChannelNumBase : Nat := 0x4000
def yangTurnDefaultLifetime : Int := 600
def yangTurnPermissionLifetime : Nat := 300

inductive TurnState where
  | new | credential | allocate | permission | bindChannel | ready | close
  deriving DecidableEq

namespace TurnState

/-- The value of the enumeration, by which the code compares two states. -/
def toNat : TurnState → Nat
  | new => 0
  | credential => 1
  | allocate => 2
  | permission => 3
  | bindChannel => 4
  | ready => 5
  | close => 6

end TurnState

inductive TurnErrorCode where
  | none | allocate | permission | bindChannel | refresh | kwnown
  deriving DecidableEq

structure IpAddress where
  mapAddress : Nat
  port : Nat
  deriving DecidableEq

structure TurnPeer where
  channelNumber : Nat
  uid : Int
  lifetimeOuttime : Nat := 0
  state : TurnState := .new
  receiveUser : Nat
  address : IpAddress
  deriving DecidableEq

/-- `nonce` are the first `nonceLen` bytes of the array. -/
structure TurnResponseData where
  errorCode : Nat := 0
  mappedPort : Nat := 0
  mappedAddress : Nat := 0
  lifetime : Int := 0
  nonce : List UInt8 := []
  deriving DecidableEq

structure IceServer where
  relayIp : Nat := 0
  relayPort : Nat := 0
  username : List UInt8 := []
  password : List UInt8 := []
  deriving DecidableEq

/-- `realm` and `nonce` are what has been copied to the arrays of 129 and 128 bytes, `turnLock`
says that the mutex is held, and `isStart` that the session's loop runs. -/
structure TurnSession where
  channelNum : Nat := yangTurnChannelNumBase
  relayPort : Nat := 0
  permissionCount : Nat := 0
  relayIp : Nat := 0
  isStart : Bool := false
  isLoop : Bool := false
  waitTime : Nat := 20
  lifetime : Int := yangTurnDefaultLifetime
  allocateOuttime : Nat := 0
  state : TurnState := .new
  errorCode : TurnErrorCode := .none
  turnLock : Bool := false
  response : TurnResponseData := {}
  server : IceServer := {}
  realm : List UInt8 := []
  nonce : List UInt8 := []
  peers : List TurnPeer := []
  deriving DecidableEq

/-- What a message to the server says. The transaction id and the digests at the end are left
out; `integrityKey` is what the key of the digest is made of. -/
structure TurnRequest where
  messageType : Nat
  attributes : List (Nat × List UInt8)
  integrityKey : Option (List UInt8) := none
  deriving DecidableEq

/-- A request that was sent, with the peer it is for, if it is for one. -/
structure TurnSent where
  request : TurnRequest
  peer : Option TurnPeer := none
  deriving DecidableEq

/-- The string in an array of `size` bytes. -/
def cString (size : Nat) (bs : List UInt8) : Call (List UInt8) :=
  let s := bs.takeWhile (· ≠ 0)
  if s.length < size then .ret s else .crash

section Requests

variable (session : TurnSession)

def turnKey (realm : List UInt8) : List UInt8 :=
  (session.server.username ++ [0x3A] ++ realm ++ [0x3A] ++ session.server.password).take 127

/-- A request with the credentials behind its own attributes. -/
def turnEncodeWith (messageType : Nat) (attributes : List (Nat × List UInt8)) :
    Call (TurnRequest × TurnSession) := do
  let realm ← cString 129 session.realm
  return ({
    messageType
    attributes := attributes ++ [(stunUsername, session.server.username), (stunRealm, realm),
      (stunNonce, session.nonce)]
    integrityKey := some (turnKey session realm) },
    { session with response := {} })

def encodePeerAddressIpv4 (address : IpAddress) : Nat × List UInt8 :=
  (stunXorPeerAddress, [0, 1] ++ beBytes 2 (address.port ^^^ (kStunMagicCookie / 2 ^ 16)) ++
    beBytes 4 (address.mapAddress ^^^ kStunMagicCookie))

def turnEncodeAllocate (protocol : UInt8) (beforCredential : Bool) :
    Call (TurnRequest × TurnSession) :=
  let transport := (stunRequestTransport, [protocol, 0, 0, 0])
  if beforCredential then
    .ret ({ messageType := stunAllocate, attributes := [transport] },
      { session with response := {} })
  else turnEncodeWith session stunAllocate [transport]

def turnEncodeRefresh (isClose : Bool) : Call (TurnRequest × TurnSession) :=
  turnEncodeWith session stunRefresh (if isClose then [(stunLifetime, beBytes 4 0)] else [])

def turnEncodePermission (peer : TurnPeer) : Call (TurnRequest × TurnSession) :=
  turnEncodeWith session stunPermission [encodePeerAddressIpv4 peer.address]

def turnEncodeBindChannel (peer : TurnPeer) : Call (TurnRequest × TurnSession) :=
  turnEncodeWith session stunChannelBindingRequest
    [(stunChannelNumber, beBytes 2 peer.channelNumber ++ [0, 0]),
      encodePeerAddressIpv4 peer.address]

def turnEncodeRequest : TurnRequest where
  messageType := stunBindingRequest
  attributes := [(stunUsername, [0x3A])]

end Requests

section Receiving

/-- Bytes of an attribute, which has been copied to memory of its own, a zero behind it. -/
def attributeBytes (val : List UInt8) (i n : Nat) : Call (List UInt8) :=
  if i + n ≤ val.length + 1 then .ret (((val ++ [0]).drop i).take n) else .crash

def turnAttribute (session : TurnSession) (type : Nat) (val : List UInt8) : Call TurnSession :=
  let response := session.response
  if type = stunErrorCode then do
    let stunClass ← attributeBytes val 2 1
    let stunCode ← attributeBytes val 3 1
    let errorCode := 100 * beNat stunClass + beNat stunCode
    return { session with response := { response with errorCode } }
  else if type = stunXorRelayedAddress then do
    let port ← attributeBytes val 2 2
    let address ← attributeBytes val 4 4
    let mappedPort := beNat port ^^^ (kStunMagicCookie / 2 ^ 16)
    let mappedAddress := beNat address ^^^ kStunMagicCookie
    return { session with response := { response with mappedPort, mappedAddress } }
  else if type = stunLifetime then do
    let v ← attributeBytes val 0 4
    let lifetime : Int := if beNat v < 2 ^ 31 then beNat v else beNat v - 2 ^ 32
    return { session with response := { response with lifetime } }
  else if type = stunRealm then do
    let realm ← cString 129 session.realm
    if realm ≠ [] then return session
    else if val.length ≤ 129 then return { session with realm := val }
    else Call.crash
  else if type = stunNonce then
    if session.nonce ≠ [] then .ret session
    else if val.length ≤ 128 then .ret { session with response := { response with nonce := val } }
    else .crash
  else .ret session

/-- The loop over the attributes. Every pass moves the cursor, so the bytes bound the passes. -/
def turnDecodeLoop : Nat → TurnSession → YangBuffer → Call (Err × TurnSession)
  | 0, session, _ => .ret (yangOk, session)
  | fuel + 1, session, stream =>
    if stream.left < 4 then .ret (yangOk, session)
    else
      let (type, stream) := stream.read2bytes
      let (len, stream) := stream.read2bytes
      if stream.left < len then .ret (errorRtcStun, session)
      else
        let (val, stream) := stream.readBytes len (len + 1)
        let stream := if len % 4 ≠ 0 then stream.skip (4 - len % 4) else stream
        do
          let session ← turnAttribute session type val
          turnDecodeLoop fuel session stream

def turnDecode (session : TurnSession) (buf : Mem) (nbBuf : Nat) : Call (Err × TurnSession) :=
  let stream := initBuffer buf nbBuf
  if stream.left < 20 then .ret (errorRtcStun, session)
  else
    let stream := stream.skip 2
    let (messageLen, stream) := stream.read2bytes
    let stream := stream.take 4
    let stream := stream.skip 12
    if nbBuf ≠ 20 + messageLen then .ret (errorRtcStun, session)
    else turnDecodeLoop nbBuf session stream

def turnconnUpdateNonce (session : TurnSession) : TurnSession :=
  if session.response.nonce.length > 0 then { session with nonce := session.response.nonce }
  else session

def turnconnHandleError (session : TurnSession) (stuntype : Nat) : TurnSession :=
  let session :=
    if stuntype = stunAllocateErrorResponse then
      if session.state.toNat < TurnState.allocate.toNat then { session with state := .allocate }
      else session
    else if stuntype = stunRefreshErrorResponse then { session with errorCode := .refresh }
    else if stuntype = stunPermissionErrorResponse then { session with errorCode := .permission }
    else if stuntype = stunChannelBindErrorResponse then
      { session with errorCode := .bindChannel }
    else { session with errorCode := .kwnown }
  if session.response.errorCode = yangTurnErrorUnauthoorized ∨
      session.response.errorCode = yangTurnErrorNonce then turnconnUpdateNonce session
  else session

/-- The host's own order of bytes is the other one. -/
def swap32 (v : Nat) : Nat := beNat (beBytes 4 v).reverse

/-- All peers that are in state `before` go on to `after`. -/
def turnPeersAnswered (before after : TurnState) (now : Nat) (peers : List TurnPeer) :
    List TurnPeer :=
  peers.map fun peer =>
    if peer.state = before then
      { peer with
        state := after
        lifetimeOuttime := (now + yangTurnPermissionLifetime) % 2 ^ 32 }
    else peer

def turnconnHandleRecv (session : TurnSession) (now stuntype : Nat) : TurnSession :=
  let outtime := ((now + session.lifetime) % 2 ^ 32).toNat
  if stuntype = stunDataIndication then session
  else if stuntype = stunBindingSuccessResponse then
    if session.state = .new then { session with state := .credential } else session
  else if stuntype = stunAllocateSuccessResponse then
    if session.state = .credential then { session with state := .allocate }
    else
      let relayIp := swap32 session.response.mappedAddress
      let relayPort := session.response.mappedPort
      let lifetime :=
        if session.response.lifetime > 0 then session.response.lifetime else session.lifetime
      { session with
        server := { session.server with relayIp, relayPort }
        relayIp := if session.relayIp = 0 then relayIp else session.relayIp
        relayPort := if session.relayPort = 0 then relayPort else session.relayPort
        lifetime
        allocateOuttime := ((now + lifetime) % 2 ^ 32).toNat
        state := .permission }
  else if stuntype = stunRefreshteSuccessResponse then { session with allocateOuttime := outtime }
  else if stuntype = stunPermissionSuccessResponse then
    { session with
      peers := turnPeersAnswered .permission .bindChannel now session.peers
      permissionCount := (session.permissionCount + 1) % 2 ^ 16
      state := if session.state.toNat < TurnState.bindChannel.toNat then .bindChannel
        else session.state }
  else if stuntype = stunChannelBindSuccessResponse then
    { session with
      peers := turnPeersAnswered .bindChannel .ready now session.peers
      state := if session.state.toNat < TurnState.ready.toNat then .ready else session.state
      waitTime := 1000 }
  else session

def isTurnError (stuntype : Nat) : Bool :=
  decide (stunBindingErrorResponse ≤ stuntype ∧ stuntype ≤ stunRefreshErrorResponse) ||
    stuntype == stunPermissionErrorResponse || stuntype == stunChannelBindErrorResponse

/-- A datagram from the server. The second result is what a peer is handed of it. -/
def turnconnReceive (session : TurnSession) (now : Nat) (data : Mem) (nb : Nat) :
    Call (TurnSession × Option (Nat × List UInt8)) :=
  if data.be 4 4 = kStunMagicCookie then do
    let (_, session) ← turnDecode { session with response := {} } data nb
    let stuntype := data.be 0 2
    if isTurnError stuntype then return (turnconnHandleError session stuntype, none)
    else return (turnconnHandleRecv session now stuntype, none)
  else
    let channelNum := data.be 0 2
    let len := data.be 2 2
    let peer := session.peers.find? fun peer =>
      peer.state == .ready && peer.channelNumber == channelNum
    .ret (session, peer.map fun peer => (peer.receiveUser, data.slice 4 len))

end Receiving

section Running

/-- The first peer whose channel will soon be given up has to ask for it again. -/
def turnPeersExpired (state : TurnState) (now : Nat) : List TurnPeer → Option (List TurnPeer)
  | [] => none
  | peer :: rest =>
    if now > (peer.lifetimeOuttime + 2 ^ 32 - 60) % 2 ^ 32 then some ({ peer with state } :: rest)
    else (turnPeersExpired state now rest).map (peer :: ·)

def turnconnRefreshAllocate (session : TurnSession) (now : Nat) :
    Call (List TurnSent × TurnSession) :=
  let state := if session.permissionCount ≥ 2 then .bindChannel else .permission
  match turnPeersExpired state now session.peers with
  | some peers => .ret ([], { session with peers, waitTime := 20 })
  | none =>
    if session.allocateOuttime ≠ 0 ∧ now ≥ (session.allocateOuttime + 2 ^ 32 - 60) % 2 ^ 32 then do
      let (request, session) ← turnEncodeRefresh session false
      return ([⟨request, none⟩], session)
    else .ret ([], session)

/-- What is sent to the server for these peers, each according to its state. -/
def turnEncodePeers (permissions channels : Bool) :
    List TurnPeer → TurnSession → Call (List TurnSent × TurnSession)
  | [], session => .ret ([], session)
  | peer :: rest, session =>
    if peer.state = .permission ∧ permissions = true then do
      let (request, session) ← turnEncodePermission session peer
      let (sent, session) ← turnEncodePeers permissions channels rest session
      return (⟨request, some peer⟩ :: sent, session)
    else if peer.state = .bindChannel ∧ channels = true then do
      let (request, session) ← turnEncodeBindChannel session peer
      let (sent, session) ← turnEncodePeers permissions channels rest session
      return (⟨request, some peer⟩ :: sent, session)
    else turnEncodePeers permissions channels rest session

def turnSendOne (request : Call (TurnRequest × TurnSession)) : Call (List TurnSent × TurnSession) := do
  let (request, session) ← request
  return ([⟨request, none⟩], session)

/-- One pass of the session's loop: what it sends, and the session behind it. -/
def runTurnconnApp (session : TurnSession) (now : Nat) : Call (List TurnSent × TurnSession) :=
  match session.state with
  | .new => .ret ([⟨turnEncodeRequest, none⟩], session)
  | .credential => turnSendOne (turnEncodeAllocate session yangTurnTransportUdp true)
  | .allocate => turnSendOne (turnEncodeAllocate session yangTurnTransportUdp false)
  | .permission => turnEncodePeers true false session.peers session
  | .bindChannel => turnEncodePeers false true session.peers session
  | .ready => do
    let (refresh, session) ← turnconnRefreshAllocate session now
    let (sent, session) ← turnEncodePeers true true session.peers session
    return (refresh ++ sent, session)
  | .close => turnSendOne (turnEncodeRefresh { session with lifetime := 0 } true)

def turnconnStart (session : TurnSession) : TurnSession :=
  if session.isStart then session else { session with isStart := true, isLoop := true }

/-- The loop is told to end, and the end waited for. -/
def turnconnStop (session : TurnSession) : Call (List TurnSent × TurnSession) := do
  let session := { session with isLoop := false, waitTime := 1, lifetime := 0 }
  let (request, session) ← turnEncodeRefresh session true
  return ([⟨request, none⟩], { session with state := .close, isStart := false })

end Running

section Peers

/-- The mutex is not a recursive one. -/
def turnLockAcquire (session : TurnSession) : Call TurnSession :=
  if session.turnLock then .blocked else .ret { session with turnLock := true }

def turnconnAddPeer (session : TurnSession) (uid : Int) (receiveUser : Nat) (address : IpAddress) :
    Call TurnSession := do
  let channelNum :=
    if session.channelNum > yangTurnChannelNumBase + 31 then yangTurnChannelNumBase
    else session.channelNum
  let peer : TurnPeer :=
    { channelNumber := channelNum, uid, state := .permission, receiveUser, address }
  let session := { session with channelNum := (channelNum + 1) % 2 ^ 16 }
  let session ← turnLockAcquire session
  return { session with peers := session.peers ++ [peer], turnLock := false, waitTime := 50 }

/-- The peer's number is the next one to be given out. Where there is such a peer, the mutex
stays locked. -/
def turnconnRemovePeer (session : TurnSession) (uid : Int) : Call TurnSession := do
  let session ← turnLockAcquire session
  match session.peers.find? (·.uid = uid) with
  | some peer =>
    return { session with
      channelNum := peer.channelNumber
      peers := session.peers.eraseP (·.uid = uid) }
  | none => return { session with turnLock := false }

theorem turnLockAcquire_eq_ret {session session' : TurnSession} :
    turnLockAcquire session = .ret session' ↔
      session.turnLock = false ∧ session' = { session with turnLock := true } := by
  unfold turnLockAcquire
  cases h : session.turnLock with
  | true => simp
  | false =>
    simp only [Bool.false_eq_true, if_false, true_and]
    exact ⟨fun heq => (Call.ret.inj heq).symm, fun heq => congrArg Call.ret heq.symm⟩

/-- What a call that adds a peer does if it returns. -/
theorem turnconnAddPeer_ret {session session' : TurnSession} {uid : Int} {receiveUser : Nat}
    {address : IpAddress} (h : turnconnAddPeer session uid receiveUser address = .ret session') :
    ∃ n, session' = { session with
      channelNum := (n + 1) % 2 ^ 16
      peers := session.peers ++
        [{ channelNumber := n, uid, state := .permission, receiveUser, address }]
      turnLock := false
      waitTime := 50 } := by
  obtain ⟨locked, hlock, h⟩ := Call.bind_eq_ret.mp h
  obtain ⟨-, rfl⟩ := turnLockAcquire_eq_ret.mp hlock
  exact ⟨_, (Call.ret.inj h).symm⟩

theorem turnconnRemovePeer_ret {session session' : TurnSession} {uid : Int}
    (h : turnconnRemovePeer session uid = .ret session') :
    (∃ peer, session.peers.find? (·.uid = uid) = some peer ∧ session' = { session with
      turnLock := true
      channelNum := peer.channelNumber
      peers := session.peers.eraseP (·.uid = uid) }) ∨
    session.peers.find? (·.uid = uid) = none ∧ session' = session := by
  obtain ⟨locked, hlock, h⟩ := Call.bind_eq_ret.mp h
  obtain ⟨hfree, rfl⟩ := turnLockAcquire_eq_ret.mp hlock
  dsimp only at h
  split at h
  · rename_i peer hfound
    exact .inl ⟨peer, hfound, (Call.ret.inj h).symm⟩
  · rename_i hnone
    refine .inr ⟨hnone, ?_⟩
    rw [← Call.ret.inj h, ← hfree]

end Peers

end MetaRtc
