import MetaRtc.Ice.TurnRun
import Mathlib.Data.Finset.Card
import Mathlib.Logic.Function.Basic

/-! # The TURN connection that all sessions share

One connection serves all ICE sessions. It is made for the first one that asks for it, and a
count of those that hold it says when it is to be destroyed. -/
namespace MetaRtc

open Exec Function

def errorRtcTurn : Err := 4100

inductive IceCandidateType where
  | host | stun | turn
  deriving DecidableEq

/-- `turnconn` is where the connection lies that the session holds. -/
structure IceSession where
  uid : Int
  isTurnAllocated : Bool := false
  isTurnReady : Bool := false
  candidateType : IceCandidateType
  turnconn : Option Nat := none
  server : IceServer := {}
  stun : Option IpAddress := none
  deriving DecidableEq

/-- The sessions by their numbers, of which `created` have been given, and what lies at each
address. No address is used twice. -/
structure IceWorld where
  sessions : Nat → Option IceSession := fun _ => none
  created : Nat := 0
  connections : Nat → Option TurnWorld := fun _ => none
  fresh : Nat := 0
  turnConnection : Option Nat := none
  turnCount : Nat := 0

/-- What comes of waiting for the servers: what goes on at the connection meanwhile, and
whether the last look at it sees an allocation, or a peer that is ready. -/
structure IceAnswers where
  allocating : List TurnEvent := []
  allocated : Bool
  readying : List TurnEvent := []
  ready : Bool
  stun : Option IpAddress

namespace IceWorld

def setSession (w : IceWorld) (i : Nat) (session : IceSession) : IceWorld :=
  { w with sessions := update w.sessions i (some session) }

def setConnection (w : IceWorld) (a : Nat) (conn : TurnWorld) : IceWorld :=
  { w with connections := update w.connections a (some conn) }

/-- The shared connection is gone. -/
def dropConnection (w : IceWorld) (a : Nat) : IceWorld :=
  { w with connections := update w.connections a none, turnConnection := none }

end IceWorld

section Functions

variable (w : IceWorld) (i : Nat)

def iceGetTurn (server : IceServer) : Option Nat × IceWorld :=
  let w : IceWorld := match w.turnConnection with
    | some _ => w
    | none => { w.setConnection w.fresh (.start server) with
        fresh := w.fresh + 1
        turnConnection := some w.fresh }
  (w.turnConnection, { w with turnCount := (w.turnCount + 1) % 2 ^ 32 })

/-- A session that holds no connection takes the shared one. -/
def iceHoldTurn (session : IceSession) : Option Nat × IceWorld :=
  match session.turnconn with
  | some a => (some a, w)
  | none => iceGetTurn w session.server

def turnconnStopAt (a : Nat) : Call IceWorld := do
  let conn ← Call.deref (w.connections a)
  let conn ← turnRun conn .stop
  return w.setConnection a conn

def iceInitTurn (answers : IceAnswers) : Call (Err × IceWorld) := do
  let session ← Call.deref (w.sessions i)
  if session.isTurnAllocated then return (yangOk, w)
  else
    let (turnconn, w) := iceHoldTurn w session
    let a ← Call.deref turnconn
    let conn ← Call.deref (w.connections a)
    let conn ← turnRun conn .start
    let conn ← turnDialogue conn answers.allocating
    let relayIp := conn.session.relayIp
    let relayPort := conn.session.relayPort
    let w := (w.setConnection a conn).setSession i { session with
      turnconn
      isTurnAllocated := answers.allocated
      server := { session.server with relayIp, relayPort } }
    if answers.allocated then return (yangOk, w)
    else
      let w ← turnconnStopAt w a
      return (errorRtcTurn, w)

/-- The peer is added to the connection that the session holds. -/
def iceAddPeer (answers : IceAnswers) (receiveUser : Nat) (address : IpAddress) :
    Call (Err × IceWorld) := do
  let session ← Call.deref (w.sessions i)
  let a ← Call.deref session.turnconn
  let conn ← Call.deref (w.connections a)
  let conn ← turnRun conn (.addPeer session.uid receiveUser address)
  let conn ← turnDialogue conn answers.readying
  let w := (w.setConnection a conn).setSession i { session with isTurnReady := answers.ready }
  return (if answers.ready then yangOk else errorRtcTurn, w)

def iceRequestTurnServer (answers : IceAnswers) (receiveUser : Nat) (address : IpAddress) :
    Call (Err × IceWorld) := do
  let session ← Call.deref (w.sessions i)
  if session.turnconn = none then
    let (_, w) ← iceInitTurn w i answers
    iceAddPeer w i answers receiveUser address
  else if session.isTurnAllocated = false then return (errorRtcTurn, w)
  else iceAddPeer w i answers receiveUser address

/-- Without an answer the session falls back to its own address. -/
def iceFallBack (session : IceSession) (stun : Option IpAddress) : IceSession :=
  match stun with
  | some address => { session with stun := some address }
  | none => { session with candidateType := .host }

def iceCloseTurn : Call IceWorld := do
  let a ← Call.deref w.turnConnection
  let w ← turnconnStopAt w a
  let w := w.dropConnection a
  let session ← Call.deref (w.sessions i)
  return { w.setSession i { session with turnconn := none } with turnCount := 0 }

def iceInitIce (answers : IceAnswers) : Call IceWorld := do
  let session ← Call.deref (w.sessions i)
  match session.candidateType with
  | .host => return w
  | .stun => return w.setSession i (iceFallBack session answers.stun)
  | .turn =>
    let (err, w) ← iceInitTurn w i answers
    if err = yangOk then return w
    else
      let session ← Call.deref (w.sessions i)
      let session := { session with candidateType := .stun }
      let w := w.setSession i (iceFallBack session answers.stun)
      if answers.stun = none then iceCloseTurn w i
      else return w

def iceHandle (isServer : Bool) (answers : IceAnswers) (receiveUser : Nat) (address : IpAddress) :
    Call IceWorld := do
  let session ← Call.deref (w.sessions i)
  match session.candidateType with
  | .host => return w
  | .stun =>
    if session.stun = none ∧ isServer = true then
      return w.setSession i (iceFallBack session answers.stun)
    else return w
  | .turn =>
    let (err, w) ← iceRequestTurnServer w i answers receiveUser address
    if err = yangOk then return w
    else
      let w ← iceCloseTurn w i
      let session ← Call.deref (w.sessions i)
      let session := { session with candidateType := .stun }
      return w.setSession i (iceFallBack session answers.stun)

def createIce (uid : Int) (candidateType : IceCandidateType) (server : IceServer) : IceWorld :=
  { w.setSession w.created { uid, candidateType, server } with created := w.created + 1 }

def destroyIce : Call IceWorld := do
  let session ← Call.deref (w.sessions i)
  match session.turnconn with
  | none => return { w with sessions := update w.sessions i none }
  | some a =>
    let conn ← Call.deref (w.connections a)
    let conn ← turnRun conn (.removePeer session.uid)
    let w := w.setConnection a conn
    let w := { w with turnCount := (w.turnCount + 2 ^ 32 - 1) % 2 ^ 32 }
    let w := { w with sessions := update w.sessions i none }
    if w.turnCount = 0 then
      let a ← Call.deref w.turnConnection
      let w ← turnconnStopAt w a
      return w.dropConnection a
    else return w

end Functions

/-- What goes on at the connection by itself is an event of it. -/
inductive IceEvent where
  | create (uid : Int) (candidateType : IceCandidateType) (server : IceServer)
  | initIce (i : Nat) (answers : IceAnswers)
  | handle (i : Nat) (isServer : Bool) (answers : IceAnswers) (receiveUser : Nat)
      (address : IpAddress)
  | closeTurn (i : Nat)
  | destroy (i : Nat)
  | turn (event : TurnEvent)

def iceTurnEvent (w : IceWorld) (event : TurnEvent) : Call IceWorld := do
  let a ← Call.deref w.turnConnection
  let conn ← Call.deref (w.connections a)
  let conn ← turnRun conn event
  return w.setConnection a conn

def iceRun (w : IceWorld) : IceEvent → Call IceWorld
  | .create uid candidateType server => .ret (createIce w uid candidateType server)
  | .initIce i answers => iceInitIce w i answers
  | .handle i isServer answers receiveUser address =>
    iceHandle w i isServer answers receiveUser address
  | .closeTurn i => iceCloseTurn w i
  | .destroy i => destroyIce w i
  | .turn event => iceTurnEvent w event

def IceStep (w : IceWorld) (e : IceEvent) (w' : IceWorld) : Prop := iceRun w e = .ret w'

/-- The connection that a session points to. -/
def IceWorld.pointer (w : IceWorld) (i : Nat) : Option Nat := (w.sessions i).bind (·.turnconn)

/-- The sessions that hold the shared connection. -/
def IceWorld.holders (w : IceWorld) : Finset Nat :=
  (Finset.range w.created).filter fun i =>
    (w.pointer i).isSome ∧ w.pointer i = w.turnConnection

structure IceWorld.Counted (w : IceWorld) : Prop where
  count : w.turnCount = w.holders.card
  exists_iff : (∃ a, w.turnConnection = some a ∧ (w.connections a).isSome) ↔ 0 < w.turnCount
  alive : ∀ i a, w.pointer i = some a → (w.connections a).isSome

end MetaRtc
