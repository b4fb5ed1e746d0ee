import MetaRtc.Ice.Turn
import MetaRtc.Lib.Run

/-! # Runs of a TURN session

Calls of the application, passes of the session's loop and messages from the server come in
any order. What a message does to the session is said by its type. -/
namespace MetaRtc

open Bytes Exec

/-- `answers` is the number of the request that a message from the server is the answer to, if
it is one. -/
inductive TurnEvent where
  | addPeer (uid : Int) (receiveUser : Nat) (address : IpAddress)
  | removePeer (uid : Int)
  | start
  | pass (now : Nat)
  | receive (answers : Option Nat) (now : Nat) (data : Mem) (nb : Nat)
  | stop

/-- The session, the requests it has sent, and the answers to them that have come: each the
number of the request and its own type. -/
structure TurnWorld where
  session : TurnSession
  sent : List TurnSent := []
  answered : List (Nat × Nat) := []

def turnAnswered (answered : List (Nat × Nat)) (type : Nat) : Option Nat → List (Nat × Nat)
  | some i => answered ++ [(i, type)]
  | none => answered

def turnRun (w : TurnWorld) : TurnEvent → Call TurnWorld
  | .addPeer uid receiveUser address => do
    let session ← turnconnAddPeer w.session uid receiveUser address
    return { w with session }
  | .removePeer uid => do
    let session ← turnconnRemovePeer w.session uid
    return { w with session }
  | .start => .ret { w with session := turnconnStart w.session }
  | .pass now =>
    if w.session.isStart then do
      let (sent, session) ← runTurnconnApp w.session now
      return { w with session, sent := w.sent ++ sent }
    else .ret w
  | .receive answers now data nb => do
    let (session, _) ← turnconnReceive w.session now data nb
    return { w with session, answered := turnAnswered w.answered (data.be 0 2) answers }
  | .stop => do
    let (sent, session) ← turnconnStop w.session
    return { w with session, sent := w.sent ++ sent }

def TurnStep (w : TurnWorld) (e : TurnEvent) (w' : TurnWorld) : Prop := turnRun w e = .ret w'

def TurnWorld.start (server : IceServer) : TurnWorld := { session := { server } }

section Decoding

variable {session session' : TurnSession} {data : Mem} {nb now type fuel : Nat} {err : Err}
  {val : List UInt8} {stream : YangBuffer} {out : Option (Nat × List UInt8)}

/-- Attributes go to the response, but for the realm. -/
theorem turnAttribute_changes (h : turnAttribute session type val = .ret session') :
    session' = { session with response := session'.response, realm := session'.realm } := by
  simp only [turnAttribute] at h
  split at h
  · obtain ⟨a, -, h⟩ := Call.bind_eq_ret.mp h
    obtain ⟨b, -, h⟩ := Call.bind_eq_ret.mp h
    cases h
    rfl
  · split at h
    · obtain ⟨a, -, h⟩ := Call.bind_eq_ret.mp h
      obtain ⟨b, -, h⟩ := Call.bind_eq_ret.mp h
      cases h
      rfl
    · split at h
      · obtain ⟨a, -, h⟩ := Call.bind_eq_ret.mp h
        cases h
        rfl
      · split at h
        · obtain ⟨a, -, h⟩ := Call.bind_eq_ret.mp h
          split at h
          · cases h
            rfl
          · split at h
            · cases h
              rfl
            · cases h
        · split at h
          · split at h
            · cases h
              rfl
            · split at h
              · cases h
                rfl
              · cases h
          · cases h
            rfl

theorem turnDecodeLoop_changes (h : turnDecodeLoop fuel session stream = .ret (err, session')) :
    session' = { session with response := session'.response, realm := session'.realm } := by
  induction fuel generalizing session stream with
  | zero =>
    cases h
    rfl
  | succ fuel ih =>
    simp only [turnDecodeLoop] at h
    split at h
    · cases h
      rfl
    · split at h
      · cases h
        rfl
      · obtain ⟨mid, hone, hrest⟩ := Call.bind_eq_ret.mp h
        have hmid := turnAttribute_changes hone
        rw [ih hrest, hmid]

theorem turnDecode_changes (h : turnDecode session data nb = .ret (err, session')) :
    session' = { session with response := session'.response, realm := session'.realm } := by
  simp only [turnDecode] at h
  split at h
  · cases h
    rfl
  · split at h
    · cases h
      rfl
    · exact turnDecodeLoop_changes h

/-- All that a datagram from the server can do. -/
theorem turnconnReceive_cases (h : turnconnReceive session now data nb = .ret (session', out)) :
    data.be 4 4 ≠ kStunMagicCookie ∧ session' = session ∨
    data.be 4 4 = kStunMagicCookie ∧ ∃ err decoded,
      turnDecode { session with response := {} } data nb = .ret (err, decoded) ∧
      decoded = { session with response := decoded.response, realm := decoded.realm } ∧
      (isTurnError (data.be 0 2) = true ∧ session' = turnconnHandleError decoded (data.be 0 2) ∨
        isTurnError (data.be 0 2) = false ∧
          session' = turnconnHandleRecv decoded now (data.be 0 2)) := by
  unfold turnconnReceive at h
  split at h
  · rename_i hcookie
    obtain ⟨⟨err, decoded⟩, hdec, h⟩ := Call.bind_eq_ret.mp h
    have hchanges := turnDecode_changes hdec
    refine .inr ⟨hcookie, err, decoded, hdec, hchanges, ?_⟩
    dsimp only at h
    split at h
    · rename_i herr
      cases h
      exact .inl ⟨herr, rfl⟩
    · rename_i herr
      cases h
      exact .inr ⟨Bool.eq_false_iff.mpr herr, rfl⟩
  · rename_i hcookie
    cases h
    exact .inl ⟨hcookie, rfl⟩

theorem updateNonce_changes (session : TurnSession) :
    turnconnUpdateNonce session = { session with nonce := (turnconnUpdateNonce session).nonce } := by
  unfold turnconnUpdateNonce
  split <;> rfl

/-- An error changes the state in one case only, and never what the peers are. -/
theorem handleError_state (session : TurnSession) (type : Nat) :
    (turnconnHandleError session type).peers = session.peers ∧
    (turnconnHandleError session type).permissionCount = session.permissionCount ∧
    ((turnconnHandleError session type).state = session.state ∨
      session.state.toNat < TurnState.allocate.toNat ∧
        (turnconnHandleError session type).state = .allocate) := by
  have hnonce : ∀ s : TurnSession, (turnconnUpdateNonce s).peers = s.peers ∧
      (turnconnUpdateNonce s).permissionCount = s.permissionCount ∧
      (turnconnUpdateNonce s).state = s.state := by
    intro s
    rw [updateNonce_changes]
    exact ⟨rfl, rfl, rfl⟩
  unfold turnconnHandleError
  extract_lets mid
  have hmid : mid.peers = session.peers ∧ mid.permissionCount = session.permissionCount ∧
      (mid.state = session.state ∨
        session.state.toNat < TurnState.allocate.toNat ∧ mid.state = .allocate) := by
    simp only [mid]
    split
    · split
      · rename_i hlt
        exact ⟨rfl, rfl, .inr ⟨hlt, rfl⟩⟩
      · exact ⟨rfl, rfl, .inl rfl⟩
    · split
      · exact ⟨rfl, rfl, .inl rfl⟩
      · split
        · exact ⟨rfl, rfl, .inl rfl⟩
        · split
          · exact ⟨rfl, rfl, .inl rfl⟩
          · exact ⟨rfl, rfl, .inl rfl⟩
  split
  · obtain ⟨hpeers, hcount, hstate⟩ := hnonce mid
    rw [hpeers, hcount, hstate]
    exact hmid
  · exact hmid

end Decoding

section Phases

variable {w w' : TurnWorld} {e : TurnEvent}

/-- No message from the server takes the session back in the order of its states, of which
`Close` is the last. -/
def KeepsPhase (w : TurnWorld) (e : TurnEvent) : Prop :=
  ∀ answers now data nb, e = .receive answers now data nb →
    ∀ w', TurnStep w e w' → w.session.state.toNat ≤ w'.session.state.toNat

/-- The server answers that it has made an allocation, and the session is past that. -/
def TurnEvent.Reallocates (w : TurnWorld) : TurnEvent → Prop
  | .receive _ _ data nb => data.be 4 4 = kStunMagicCookie ∧
      data.be 0 2 = stunAllocateSuccessResponse ∧
      (∃ decoded, turnDecode { w.session with response := {} } data nb = .ret decoded) ∧
      TurnState.permission.toNat < w.session.state.toNat
  | _ => False

theorem handleRecv_state (session : TurnSession) (now type : Nat) :
    session.state.toNat ≤ (turnconnHandleRecv session now type).state.toNat ∨
      type = stunAllocateSuccessResponse ∧ session.state ≠ .credential ∧
        (turnconnHandleRecv session now type).state = .permission := by
  simp only [turnconnHandleRecv]
  split
  · exact .inl (Nat.le_refl _)
  · split
    · refine .inl ?_
      split
      · rename_i hnew
        rw [hnew]
        exact Nat.zero_le _
      · exact Nat.le_refl _
    · split
      · rename_i htype
        split
        · rename_i hcredential
          refine .inl ?_
          rw [hcredential]
          exact Nat.le_succ 1
        · rename_i hcredential
          exact .inr ⟨htype, hcredential, rfl⟩
      · refine .inl ?_
        split
        · exact Nat.le_refl _
        · split
          · dsimp only
            split
            · rename_i hlt
              exact Nat.le_of_lt hlt
            · exact Nat.le_refl _
          · split
            · dsimp only
              split
              · rename_i hlt
                exact Nat.le_of_lt hlt
              · exact Nat.le_refl _
            · exact Nat.le_refl _

theorem keepsPhase_iff (w : TurnWorld) (e : TurnEvent) : KeepsPhase w e ↔ ¬ e.Reallocates w := by
  constructor
  · intro h hre
    cases e with
    | receive answers now data nb =>
      obtain ⟨hcookie, htype, ⟨⟨err, decoded⟩, hd⟩, hlate⟩ := hre
      have hdecoded := turnDecode_changes hd
      have herr : isTurnError stunAllocateSuccessResponse = false := by decide
      have hstep : TurnStep w (.receive answers now data nb)
          { w with
            session := turnconnHandleRecv decoded now stunAllocateSuccessResponse
            answered := turnAnswered w.answered (data.be 0 2) answers } := by
        simp only [TurnStep, turnRun, turnconnReceive, hcookie, if_true, hd, Call.ret_bind, htype,
          herr, Bool.false_eq_true, if_false, Call.pure_eq]
      have hkept := h answers now data nb rfl _ hstep
      have hstate : decoded.state = w.session.state := by rw [hdecoded]
      have hpermission :
          (turnconnHandleRecv decoded now stunAllocateSuccessResponse).state = .permission := by
        have hne : decoded.state ≠ .credential := by
          intro hcredential
          rw [← hstate, hcredential] at hlate
          exact absurd hlate (by decide)
        simp only [turnconnHandleRecv]
        rw [if_neg (by decide), if_neg (by decide), if_true, if_neg hne]
      dsimp only at hkept
      rw [hpermission] at hkept
      omega
    | _ => exact hre.elim
  · intro hno answers now data nb he w' hstep
    subst he
    obtain ⟨⟨session, out⟩, hreceive, hret⟩ := Call.bind_eq_ret.mp hstep
    cases hret
    obtain ⟨-, hsame⟩ | ⟨hcookie, err, decoded, hdec, hdecoded, hhandled⟩ :=
      turnconnReceive_cases hreceive
    · exact Nat.le_of_eq (by rw [hsame])
    · have hstate : decoded.state = w.session.state := by rw [hdecoded]
      rw [← hstate]
      obtain ⟨-, rfl⟩ | ⟨-, rfl⟩ := hhandled
      · obtain ⟨-, -, hsame | ⟨hlt, hallocate⟩⟩ := handleError_state decoded (data.be 0 2)
        · exact Nat.le_of_eq (by rw [hsame])
        · dsimp only
          rw [hallocate]
          exact Nat.le_of_lt hlt
      · obtain hle | ⟨htype, -, hpermission⟩ := handleRecv_state decoded now (data.be 0 2)
        · exact hle
        · dsimp only
          rw [hpermission]
          refine Nat.le_of_not_lt fun hlate => hno ⟨hcookie, htype, ⟨_, hdec⟩, ?_⟩
          rw [← hstate]
          exact hlate

/-- **Progress.** In a run, whatever comes from the server, the session never goes back, exactly
when the success of an allocation never comes to a session that is past it. -/
theorem phases_kept (server : IceServer) (es : List TurnEvent) :
    Run.Throughout TurnStep KeepsPhase es (.start server) ↔
      Run.Throughout TurnStep (fun w e => ¬ e.Reallocates w) es (.start server) :=
  Run.throughout_congr keepsPhase_iff

end Phases

section Conversation

/-- A message from the server without attributes. -/
def stunBare (type : Nat) : List UInt8 :=
  beBytes 2 type ++ [0, 0] ++ beBytes 4 kStunMagicCookie ++ List.replicate 12 0

/-- The server's answer to the `i`-th request. -/
def turnAnswer (i type : Nat) : TurnEvent := .receive (some i) 0 (ofList (stunBare type)) 20

/-- How a session comes to its allocation, with the passes that send the requests. -/
def turnOpening : List TurnEvent :=
  [.start, .pass 0, turnAnswer 0 stunBindingSuccessResponse, .pass 0,
    turnAnswer 1 stunAllocateErrorResponse, .pass 0, turnAnswer 2 stunAllocateSuccessResponse]

def turnDialogue (w : TurnWorld) (es : List TurnEvent) : Call TurnWorld := es.foldlM turnRun w

theorem leads_of_dialogue {es : List TurnEvent} {w w' : TurnWorld}
    (h : turnDialogue w es = .ret w') : Run.Leads TurnStep es w w' := leads_of_foldlM h

theorem throughout_turn {P : TurnWorld → TurnEvent → Prop} {w w' : TurnWorld} {e : TurnEvent}
    {es : List TurnEvent} (he : P w e) (hstep : TurnStep w e w')
    (hes : Run.Throughout TurnStep P es w') : Run.Throughout TurnStep P (e :: es) w :=
  throughout_call he hstep hes

set_option maxRecDepth 4000 in
/-- The answer to the request for the allocation comes once more, when the session already
asks for channels. -/
theorem allocation_again : ¬ Run.Throughout TurnStep KeepsPhase
    (.addPeer 1 1 ⟨1, 1⟩ :: turnOpening ++ [.pass 0, turnAnswer 3 stunPermissionSuccessResponse,
      turnAnswer 2 stunAllocateSuccessResponse]) (.start {}) := by
  intro h
  rw [phases_kept] at h
  obtain ⟨w, hw, hstate, hdec⟩ : ∃ w, turnDialogue (.start {}) (.addPeer 1 1 ⟨1, 1⟩ :: turnOpening ++
        [.pass 0, turnAnswer 3 stunPermissionSuccessResponse]) = .ret w ∧
      w.session.state = .bindChannel ∧
      ∃ decoded, turnDecode { w.session with response := {} }
        (ofList (stunBare stunAllocateSuccessResponse)) 20 = .ret decoded :=
    ⟨_, rfl, rfl, _, rfl⟩
  have hlast : Run.Throughout TurnStep _ [turnAnswer 2 stunAllocateSuccessResponse] w :=
    Run.throughout_leads (leads_of_dialogue hw) (by simpa using h)
  refine hlast.1 ⟨by decide, by decide, hdec, ?_⟩
  rw [hstate]
  decide

end Conversation

end MetaRtc
