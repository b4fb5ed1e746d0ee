import MetaRtc.Lib.Bytes
import MetaRtc.Lib.Exec
import MetaRtc.Lib.Run
import MetaRtc.Rtcp.Packet

/-! # When a connection counts as connected

Every datagram goes down one ladder of branches. The success label stands at its foot, so
a datagram that no branch returns from arrives there as well. -/
namespace MetaRtc

open Bytes Exec

inductive DtlsState where
  | init | clientHello | serverHello | clientCertificate | serverDone | clientDone
  deriving DecidableEq

structure DtlsSession where
  state : DtlsState := .init
  handshakeDone : Bool := false
  deriving DecidableEq

/-- What the code around the connection answers while it takes one datagram: the clock, the
results of decoding and answering a STUN packet, and the result of the DTLS library, which
may take any step. -/
structure Answers where
  now : Int := 0
  stunDecode : Err := yangOk
  stunResponse : Err := yangOk
  processData : Err := yangOk
  dtls : DtlsSession := {}

/-- What a datagram is handed on to. -/
inductive Handed where
  | rtp | rtcp
  deriving DecidableEq

/-- `callback` tells whether the application takes notifications. The last two fields are
not looked at by the code: the handshake as it stood at each arrival at the success label,
and the number of `Yang_Req_Connected` notifications raised. -/
structure RtcConnection where
  isServer : Bool
  activeState : Bool := true
  play : Bool := true
  callback : Bool := true
  state : Bool := false
  isSendDtls : Bool := false
  startRecv : Bool := false
  timer1s : Bool := false
  lastStunTime : Int := 0
  dtls : Option DtlsSession := some {}
  handed : List Handed := []
  succeeded : List (Option DtlsSession) := []
  raised : Nat := 0
  deriving DecidableEq

def rtcconnStartTimers (c : RtcConnection) : RtcConnection := { c with timer1s := true }

/-- The code from the label `client_sucess` on. -/
def clientSucess (c : RtcConnection) : RtcConnection :=
  let c := { rtcconnStartTimers c with state := true, succeeded := c.succeeded ++ [c.dtls] }
  if c.callback then { c with raised := c.raised + 1 } else c

def receiveMedia (c : RtcConnection) (data : Mem) : RtcConnection :=
  let bt := (data 1).toNat
  if 192 ≤ bt ∧ bt ≤ 223 then { c with handed := c.handed ++ [.rtcp] }
  else
    let c := { c with startRecv := true }
    if c.play then { c with handed := c.handed ++ [.rtp] } else c

/-- A server is connected by the first STUN packet it answers; a client starts the handshake. -/
def receiveStun (c : RtcConnection) (lib : Answers) : Call RtcConnection := do
  if c.isServer then
    if lib.stunDecode ≠ yangOk then return c
    else if lib.stunResponse ≠ yangOk then return c
    else return { c with state := true }
  else if lib.stunDecode ≠ yangOk then return c
  else if !c.isSendDtls then
    let _ ← Call.deref c.dtls
    return { c with dtls := some lib.dtls, isSendDtls := true }
  else return c

def receiveDtls (c : RtcConnection) (lib : Answers) : RtcConnection :=
  if c.dtls.isNone then c
  else
    let c := { c with dtls := some lib.dtls }
    if lib.processData = yangOk ∧ c.state = false then
      if c.isServer then
        rtcconnStartTimers (if lib.dtls.handshakeDone then { c with state := true } else c)
      else if lib.dtls.state = .clientDone then clientSucess c
      else clientSucess c
    else clientSucess c

def IsMedia (data : Mem) (size : Nat) : Prop := 127 < data 0 ∧ data 0 < 192 ∧ 12 < size
def IsStun (data : Mem) (size : Nat) : Prop := 0 < size ∧ (data 0 = 0 ∨ data 0 = 1)
def IsDtls (data : Mem) : Prop := 19 < data 0 ∧ data 0 < 64

instance (data : Mem) (size : Nat) : Decidable (IsMedia data size) :=
  inferInstanceAs (Decidable (_ ∧ _))
instance (data : Mem) (size : Nat) : Decidable (IsStun data size) :=
  inferInstanceAs (Decidable (_ ∧ _))
instance (data : Mem) : Decidable (IsDtls data) := inferInstanceAs (Decidable (_ ∧ _))

/-- The first byte is looked at before the size is. -/
def rtcconnReceive (c : RtcConnection) (data : Mem) (size : Nat) (lib : Answers) :
    Call RtcConnection :=
  if !c.activeState then .ret c
  else
    let c := { c with lastStunTime := lib.now }
    if IsMedia data size then .ret (receiveMedia c data)
    else if IsStun data size then receiveStun c lib
    else if IsDtls data then .ret (receiveDtls c lib)
    else .ret (clientSucess c)

/-- What happens to a connection: a datagram comes, from the socket or through the TURN
server, or the thread that retransmits handshake flights has moved the handshake on. -/
inductive ConnEvent where
  | datagram (data : Mem) (size : Nat) (lib : Answers)
  | arq (dtls : DtlsSession)

def ConnStep (c : RtcConnection) (e : ConnEvent) (c' : RtcConnection) : Prop :=
  match e with
  | .datagram data size lib => rtcconnReceive c data size lib = .ret c'
  | .arq dtls => c' = { c with dtls := c.dtls.map fun _ => dtls }

/-- No branch of the ladder returns or jumps: the datagram is of no known kind, or it is a
DTLS record that the library refuses, that comes to a connection already connected, or that
leaves a client's handshake unfinished. -/
def FallsThrough (c : RtcConnection) (e : ConnEvent) : Prop :=
  match e with
  | .datagram data size lib =>
    c.activeState = true ∧ ¬ IsMedia data size ∧ ¬ IsStun data size ∧
      (IsDtls data → c.dtls.isSome ∧ (lib.processData = yangOk → c.state = false →
        c.isServer = false ∧ lib.dtls.state ≠ .clientDone))
  | .arq _ => False

/-- The label was reached once at most, by a client, with the handshake completed; and a client is
connected exactly through it. -/
structure Announced (c : RtcConnection) : Prop where
  completed : ∀ dtls ∈ c.succeeded, dtls.map DtlsSession.state = some .clientDone
  once : c.succeeded.length ≤ 1
  raised : c.raised ≤ c.succeeded.length
  server : c.isServer = true → c.succeeded = []
  client : c.isServer = false → (c.state = true ↔ c.succeeded ≠ [])

section Steps

variable {c c' : RtcConnection} {lib : Answers}

/-- A client not yet connected may pass the label with a completed handshake. -/
theorem announced_success (h : Announced c) (hs : c.isServer = false) (hn : c.state = false)
    (hd : c.dtls.map DtlsSession.state = some .clientDone) : Announced (clientSucess c) := by
  have hnone : c.succeeded = [] := by
    by_contra hne
    rw [(h.client hs).mpr hne] at hn
    cases hn
  have hraised : c.raised = 0 := by
    have hr := h.raised
    rw [hnone] at hr
    exact Nat.le_zero.mp hr
  have hboth : ∀ raised, raised ≤ 1 → Announced
      { rtcconnStartTimers c with state := true, succeeded := c.succeeded ++ [c.dtls], raised } := by
    intro raised hle
    constructor
    · intro dtls hm
      rw [hnone] at hm
      rw [List.mem_singleton.mp hm, hd]
    · simp [hnone]
    · simpa [hnone] using hle
    · intro hserver
      exact absurd (hserver.symm.trans hs) (by decide)
    · simp
  unfold clientSucess
  simp only
  split
  · exact hboth _ (by show c.raised + 1 ≤ 1; omega)
  · exact hboth _ (by show c.raised ≤ 1; omega)

/-- The fields `Announced` is about. -/
theorem announced_frame (h : Announced c) (hserver : c'.isServer = c.isServer)
    (hstate : c'.isServer = false → c'.state = c.state) (hsucc : c'.succeeded = c.succeeded)
    (hraised : c'.raised = c.raised) : Announced c' := by
  constructor
  · rw [hsucc]
    exact h.completed
  · rw [hsucc]
    exact h.once
  · rw [hsucc, hraised]
    exact h.raised
  · rw [hsucc, hserver]
    exact h.server
  · intro hs
    rw [hstate hs, hsucc]
    exact h.client (hserver ▸ hs)

theorem receiveMedia_announced (h : Announced c) (data : Mem) : Announced (receiveMedia c data) := by
  unfold receiveMedia
  simp only
  split
  · exact announced_frame h rfl (fun _ => rfl) rfl rfl
  split <;> exact announced_frame h rfl (fun _ => rfl) rfl rfl

theorem receiveStun_announced (h : Announced c) (hr : receiveStun c lib = .ret c') :
    Announced c' := by
  unfold receiveStun at hr
  split at hr
  · rename_i hserver
    split at hr
    · cases hr
      exact h
    split at hr
    · cases hr
      exact h
    · cases hr
      exact announced_frame h rfl (fun hs => absurd (hserver.symm.trans hs) (by decide)) rfl rfl
  · split at hr
    · cases hr
      exact h
    split at hr
    · obtain ⟨dtls, _, hret⟩ := Call.bind_eq_ret.mp hr
      cases hret
      exact announced_frame h rfl (fun _ => rfl) rfl rfl
    · cases hr
      exact h

/-- A DTLS record that does not fall through is swallowed without a DTLS session, or goes to a
server that is not connected, or completes a client's handshake. -/
theorem receiveDtls_announced (h : Announced c)
    (hf : c.dtls.isSome → lib.processData = yangOk ∧ c.state = false ∧
      (c.isServer = true ∨ lib.dtls.state = .clientDone)) : Announced (receiveDtls c lib) := by
  unfold receiveDtls
  split
  · exact h
  · rename_i hsome
    obtain ⟨hok, hn, hrole⟩ := hf (by simpa [Option.isSome_iff_ne_none] using hsome)
    have hdtls : Announced { c with dtls := some lib.dtls } :=
      announced_frame h rfl (fun _ => rfl) rfl rfl
    simp only
    rw [if_pos ⟨hok, hn⟩]
    split
    · rename_i hserver
      refine announced_frame h ?_ ?_ ?_ ?_
      · split <;> rfl
      · intro hs
        have hs' : c.isServer = false := by
          revert hs
          split <;> exact id
        exact absurd (hserver.symm.trans hs') (by decide)
      · split <;> rfl
      · split <;> rfl
    · rename_i hclient
      have hdone := hrole.resolve_left hclient
      rw [if_pos hdone]
      exact announced_success hdtls (by simpa using hclient) hn (by simp [hdone])

/-- The step lemma. -/
theorem step_announced {e : ConnEvent} (h : Announced c) (hf : ¬ FallsThrough c e)
    (hs : ConnStep c e c') : Announced c' := by
  cases e with
  | arq dtls =>
    obtain rfl : c' = _ := hs
    exact announced_frame h rfl (fun _ => rfl) rfl rfl
  | datagram data size lib =>
    simp only [ConnStep, rtcconnReceive] at hs
    split at hs
    · cases hs
      exact h
    · rename_i hactive
      have hnow : Announced { c with lastStunTime := lib.now } :=
        announced_frame h rfl (fun _ => rfl) rfl rfl
      split at hs
      · cases hs
        exact receiveMedia_announced hnow data
      rename_i hmedia
      split at hs
      · exact receiveStun_announced hnow hs
      rename_i hstun
      have hladder : IsDtls data ∧ (c.dtls.isSome → lib.processData = yangOk ∧ c.state = false ∧
          (c.isServer = true ∨ lib.dtls.state = .clientDone)) := by
        have hno := fun hd => hf ⟨by simpa using hactive, hmedia, hstun, hd⟩
        obtain ⟨hdtls, hrest⟩ := Classical.not_imp.mp hno
        refine ⟨hdtls, fun hsome => ?_⟩
        obtain ⟨hok, hn⟩ := Classical.not_imp.mp (not_and.mp hrest hsome)
        obtain ⟨hn, hrole⟩ := Classical.not_imp.mp hn
        refine ⟨hok, hn, ?_⟩
        by_cases hserver : c.isServer = true
        · exact .inl hserver
        · exact .inr (not_not.mp (not_and.mp hrole (by simpa using hserver)))
      rw [if_pos hladder.1] at hs
      cases hs
      exact receiveDtls_announced hnow hladder.2

end Steps

/-- A connection as its creation leaves it. -/
def startConnection (isServer play callback : Bool) : RtcConnection := { isServer, play, callback }

/-- In a run in which no datagram falls through, every state reached is rightly announced. -/
theorem announced_after_handshake (isServer play callback : Bool) (events : List ConnEvent)
    (c : RtcConnection)
    (hl : Run.Leads ConnStep events (startConnection isServer play callback) c)
    (h : Run.Throughout ConnStep (fun c e => ¬ FallsThrough c e) events
      (startConnection isServer play callback)) : Announced c := by
  refine Run.leads_invariant Announced (fun _ _ _ ha hf hs => step_announced ha hf hs) hl ?_ h
  constructor
  · intro dtls hm
    cases hm
  · exact Nat.zero_le 1
  · exact Nat.le_refl 0
  · exact fun _ => rfl
  · intro _
    simp [startConnection]

theorem connStep_unique {c a b : RtcConnection} {e : ConnEvent} (ha : ConnStep c e a)
    (hb : ConnStep c e b) : a = b := by
  cases e with
  | datagram data size lib => exact Call.ret.inj (ha.symm.trans hb)
  | arq dtls => exact ha.trans hb.symm

/-- A handshake of one round trip: the STUN answer starts it, one record completes it. -/
theorem announced_after_handshake_one :
    let start := startConnection false true true
    let done := clientSucess { start with dtls := some ⟨.clientDone, true⟩, isSendDtls := true }
    done.raised = 1 ∧ Announced done := by
  intro start done
  let stun : ConnEvent := .datagram (ofList [1, 1]) 20 {}
  let record : ConnEvent := .datagram (ofList [22]) 64 { dtls := ⟨.clientDone, true⟩ }
  let started : RtcConnection := { start with isSendDtls := true }
  have hstun : ConnStep start stun started := by
    show rtcconnReceive start (ofList [1, 1]) 20 {} = .ret started
    decide
  have hrecord : ConnStep started record done := by
    show rtcconnReceive started (ofList [22]) 64 { dtls := ⟨.clientDone, true⟩ } = .ret done
    decide
  refine ⟨rfl, announced_after_handshake false true true [stun, record] done
    (.cons hstun (.cons hrecord (.nil _))) ?_⟩
  apply Run.throughout_cons (fun _ hu => connStep_unique hu hstun)
  · exact fun hf => hf.2.2.1 (by decide)
  · apply Run.throughout_cons (fun _ hu => connStep_unique hu hrecord)
    · exact fun hf => ((hf.2.2.2 (by decide)).2 rfl rfl).2 rfl
    · trivial

/-- A client gets the answer to its STUN request, then two records of the server's first
flight. -/
theorem raised_before_handshake :
    let start := startConnection false true true
    let hello : DtlsSession := ⟨.clientHello, false⟩
    let once := clientSucess { start with dtls := some hello, isSendDtls := true }
    let twice := clientSucess once
    Run.Leads ConnStep
      [.datagram (ofList [1, 1]) 20 { dtls := hello },
        .datagram (ofList [22]) 64 { dtls := hello },
        .datagram (ofList [22]) 64 { dtls := hello }] start twice ∧
    once.state = true ∧ twice.raised = 2 ∧ twice.dtls = some hello ∧ ¬ Announced twice := by
  intro start hello once twice
  have hstun : rtcconnReceive start (ofList [1, 1]) 20 { dtls := hello } =
      .ret { start with dtls := some hello, isSendDtls := true } := by decide
  have honce : rtcconnReceive { start with dtls := some hello, isSendDtls := true }
      (ofList [22]) 64 { dtls := hello } = .ret once := by decide
  have htwice : rtcconnReceive once (ofList [22]) 64 { dtls := hello } = .ret twice := by decide
  refine ⟨.cons hstun (.cons honce (.cons htwice (.nil _))), rfl, rfl, rfl, ?_⟩
  intro h
  exact absurd h.once (by decide)

end MetaRtc
