import MetaRtc.Ice.TurnRun

/-! # What makes a peer ready

An answer is not matched to the request it belongs to. It moves all peers that wait for an
answer of its kind. -/
namespace MetaRtc

open Bytes Exec

/-- A message that answers a request answers one that was sent, with success or an error. -/
def TurnEvent.Honest (w : TurnWorld) : TurnEvent → Prop
  | .receive answers _ data _ =>
    data.be 4 4 = kStunMagicCookie → data.be 0 2 / 2 ^ 8 % 2 = 1 →
      ∃ i sent, answers = some i ∧ w.sent[i]? = some sent ∧
        (data.be 0 2 = sent.request.messageType + 0x100 ∨
          data.be 0 2 = sent.request.messageType + 0x110)
  | _ => True

/-- The success of a request for a channel has come. -/
def SomeBound (w : TurnWorld) : Prop :=
  ∃ i sent, (i, stunChannelBindSuccessResponse) ∈ w.answered ∧ w.sent[i]? = some sent ∧
    sent.request.messageType = stunChannelBindingRequest

/-- Each peer that is ready has had the success of its own request for a channel. -/
def OwnBound (w : TurnWorld) : Prop :=
  ∀ peer ∈ w.session.peers, peer.state = .ready →
    ∃ i sent asked, (i, stunChannelBindSuccessResponse) ∈ w.answered ∧ w.sent[i]? = some sent ∧
      sent.request.messageType = stunChannelBindingRequest ∧ sent.peer = some asked ∧
      asked.uid = peer.uid ∧ asked.channelNumber = peer.channelNumber

/-- The event is the success of a request for a channel. -/
def TurnEvent.Binds : TurnEvent → Prop
  | .receive _ _ data _ =>
    data.be 4 4 = kStunMagicCookie ∧ data.be 0 2 = stunChannelBindSuccessResponse
  | _ => False

/-- A peer becomes ready by the success of a request for a channel only, which comes while the
peer waits for its own. -/
def ReadyByBind (w : TurnWorld) (e : TurnEvent) : Prop :=
  ∀ w', TurnStep w e w' → ∀ peer ∈ w'.session.peers, peer.state = .ready →
    peer ∈ w.session.peers ∨ e.Binds ∧ ∃ waiting ∈ w.session.peers,
      waiting.state = .bindChannel ∧ waiting.uid = peer.uid ∧
        waiting.channelNumber = peer.channelNumber

section Passes

variable {session session' : TurnSession} {request : TurnRequest} {sent : List TurnSent}
  {peers : List TurnPeer} {now : Nat}

theorem turnEncodeWith_changes {messageType : Nat} {attributes : List (Nat × List UInt8)}
    (h : turnEncodeWith session messageType attributes = .ret (request, session')) :
    session' = { session with response := {} } := by
  obtain ⟨realm, -, h⟩ := Call.bind_eq_ret.mp h
  cases h
  rfl

theorem turnSendOne_peers {messageType : Nat} {attributes : List (Nat × List UInt8)}
    (h : turnSendOne (turnEncodeWith session messageType attributes) = .ret (sent, session')) :
    session'.peers = session.peers := by
  obtain ⟨⟨request, mid⟩, hone, h⟩ := Call.bind_eq_ret.mp h
  cases h
  rw [turnEncodeWith_changes hone]

theorem turnEncodePeers_peers {permissions channels : Bool}
    (h : turnEncodePeers permissions channels peers session = .ret (sent, session')) :
    session'.peers = session.peers := by
  induction peers generalizing session sent with
  | nil =>
    cases h
    rfl
  | cons peer rest ih =>
    unfold turnEncodePeers at h
    split at h
    · obtain ⟨⟨request, mid⟩, hone, h⟩ := Call.bind_eq_ret.mp h
      obtain ⟨⟨sent', last⟩, hrest, h⟩ := Call.bind_eq_ret.mp h
      cases h
      rw [ih hrest, turnEncodeWith_changes hone]
    · split at h
      · obtain ⟨⟨request, mid⟩, hone, h⟩ := Call.bind_eq_ret.mp h
        obtain ⟨⟨sent', last⟩, hrest, h⟩ := Call.bind_eq_ret.mp h
        cases h
        rw [ih hrest, turnEncodeWith_changes hone]
      · exact ih h

/-- A peer that has to ask again is not ready. -/
theorem turnPeersExpired_ready {state : TurnState} {peers' : List TurnPeer} {peer : TurnPeer}
    (h : turnPeersExpired state now peers = some peers') (hstate : state ≠ .ready)
    (hpeer : peer ∈ peers') (hready : peer.state = .ready) : peer ∈ peers := by
  induction peers generalizing peers' with
  | nil => cases h
  | cons first rest ih =>
    unfold turnPeersExpired at h
    split at h
    · cases h
      rcases List.mem_cons.mp hpeer with rfl | hrest
      · exact absurd hready hstate
      · exact List.mem_cons_of_mem _ hrest
    · obtain ⟨rest', hrest, rfl⟩ := Option.map_eq_some_iff.mp h
      rcases List.mem_cons.mp hpeer with rfl | hmem
      · exact List.mem_cons_self
      · exact List.mem_cons_of_mem _ (ih hrest hmem)

theorem refreshAllocate_ready {peer : TurnPeer}
    (h : turnconnRefreshAllocate session now = .ret (sent, session'))
    (hpeer : peer ∈ session'.peers) (hready : peer.state = .ready) : peer ∈ session.peers := by
  unfold turnconnRefreshAllocate at h
  extract_lets state at h
  have hstate : state ≠ .ready := by
    simp only [state]
    split <;> decide
  split at h
  · rename_i peers' hexpired
    cases h
    exact turnPeersExpired_ready hexpired hstate hpeer hready
  · split at h
    · rw [turnSendOne_peers h] at hpeer
      exact hpeer
    · cases h
      exact hpeer

/-- A pass of the loop makes no peer ready. -/
theorem pass_ready {peer : TurnPeer} (h : runTurnconnApp session now = .ret (sent, session'))
    (hpeer : peer ∈ session'.peers) (hready : peer.state = .ready) : peer ∈ session.peers := by
  unfold runTurnconnApp at h
  split at h
  · cases h
    exact hpeer
  · cases h
    exact hpeer
  · rw [turnSendOne_peers h] at hpeer
    exact hpeer
  · rw [turnEncodePeers_peers h] at hpeer
    exact hpeer
  · rw [turnEncodePeers_peers h] at hpeer
    exact hpeer
  · obtain ⟨⟨refresh, mid⟩, hrefresh, h⟩ := Call.bind_eq_ret.mp h
    obtain ⟨⟨sent', last⟩, hsent, h⟩ := Call.bind_eq_ret.mp h
    cases h
    rw [turnEncodePeers_peers hsent] at hpeer
    exact refreshAllocate_ready hrefresh hpeer hready
  · rw [turnSendOne_peers h] at hpeer
    exact hpeer

end Passes

section Answers

variable {session session' : TurnSession} {now type nb : Nat} {data : Mem} {peer : TurnPeer}
  {out : Option (Nat × List UInt8)}

theorem peersAnswered_ready {before after : TurnState} {peers : List TurnPeer}
    (hpeer : peer ∈ turnPeersAnswered before after now peers) (hready : peer.state = .ready) :
    peer ∈ peers ∨ after = .ready ∧ ∃ waiting ∈ peers, waiting.state = before ∧
      waiting.uid = peer.uid ∧ waiting.channelNumber = peer.channelNumber := by
  obtain ⟨old, hold, heq⟩ := List.mem_map.mp hpeer
  split at heq
  · rename_i hbefore
    subst heq
    exact .inr ⟨hready, old, hold, hbefore, rfl, rfl⟩
  · subst heq
    exact .inl hold

theorem handleRecv_ready (hpeer : peer ∈ (turnconnHandleRecv session now type).peers)
    (hready : peer.state = .ready) :
    peer ∈ session.peers ∨ type = stunChannelBindSuccessResponse ∧ ∃ waiting ∈ session.peers,
      waiting.state = .bindChannel ∧ waiting.uid = peer.uid ∧
        waiting.channelNumber = peer.channelNumber := by
  simp only [turnconnHandleRecv] at hpeer
  split at hpeer
  · exact .inl hpeer
  · split at hpeer
    · refine .inl ?_
      split at hpeer <;> exact hpeer
    · split at hpeer
      · refine .inl ?_
        split at hpeer <;> exact hpeer
      · split at hpeer
        · exact .inl hpeer
        · split at hpeer
          · obtain hold | ⟨hno, -⟩ := peersAnswered_ready hpeer hready
            · exact .inl hold
            · cases hno
          · split at hpeer
            · rename_i htype
              obtain hold | ⟨-, hwaiting⟩ := peersAnswered_ready hpeer hready
              · exact .inl hold
              · exact .inr ⟨htype, hwaiting⟩
            · exact .inl hpeer

theorem receive_ready (h : turnconnReceive session now data nb = .ret (session', out))
    (hpeer : peer ∈ session'.peers) (hready : peer.state = .ready) :
    peer ∈ session.peers ∨ (data.be 4 4 = kStunMagicCookie ∧
      data.be 0 2 = stunChannelBindSuccessResponse) ∧ ∃ waiting ∈ session.peers,
      waiting.state = .bindChannel ∧ waiting.uid = peer.uid ∧
        waiting.channelNumber = peer.channelNumber := by
  obtain ⟨-, hsame⟩ | ⟨hcookie, err, decoded, -, hdecoded, hhandled⟩ := turnconnReceive_cases h
  · rw [hsame] at hpeer
    exact .inl hpeer
  · have hpeers : decoded.peers = session.peers := by rw [hdecoded]
    rw [← hpeers]
    obtain ⟨-, rfl⟩ | ⟨-, rfl⟩ := hhandled
    · rw [(handleError_state decoded _).1] at hpeer
      exact .inl hpeer
    · obtain hold | ⟨htype, hwaiting⟩ := handleRecv_ready hpeer hready
      · exact .inl hold
      · exact .inr ⟨⟨hcookie, htype⟩, hwaiting⟩

end Answers

section Runs

variable {w w' : TurnWorld} {e : TurnEvent} {es : List TurnEvent}

theorem readyByBind (w : TurnWorld) (e : TurnEvent) : ReadyByBind w e := by
  intro w' hstep peer hpeer hready
  cases e with
  | addPeer uid receiveUser address =>
    obtain ⟨session, hadd, hret⟩ := Call.bind_eq_ret.mp hstep
    obtain ⟨n, rfl⟩ := turnconnAddPeer_ret hadd
    cases hret
    rcases List.mem_append.mp hpeer with hold | hnew
    · exact .inl hold
    · rw [List.mem_singleton.mp hnew] at hready
      cases hready
  | removePeer uid =>
    obtain ⟨session, hremove, hret⟩ := Call.bind_eq_ret.mp hstep
    cases hret
    obtain ⟨gone, -, rfl⟩ | ⟨-, rfl⟩ := turnconnRemovePeer_ret hremove
    · exact .inl (List.mem_of_mem_eraseP hpeer)
    · exact .inl hpeer
  | start =>
    cases hstep
    refine .inl ?_
    simp only [turnconnStart] at hpeer
    split at hpeer <;> exact hpeer
  | pass now =>
    unfold TurnStep turnRun at hstep
    dsimp only at hstep
    split at hstep
    · obtain ⟨⟨sent, session⟩, hpass, hret⟩ := Call.bind_eq_ret.mp hstep
      cases hret
      exact .inl (pass_ready hpass hpeer hready)
    · cases hstep
      exact .inl hpeer
  | receive answers now data nb =>
    obtain ⟨⟨session, out⟩, hreceive, hret⟩ := Call.bind_eq_ret.mp hstep
    cases hret
    exact receive_ready hreceive hpeer hready
  | stop =>
    obtain ⟨⟨sent, session⟩, hstop, hret⟩ := Call.bind_eq_ret.mp hstep
    obtain ⟨⟨request, mid⟩, hone, hstop⟩ := Call.bind_eq_ret.mp hstop
    cases hstop
    cases hret
    have hmid := turnEncodeWith_changes hone
    dsimp only at hpeer
    rw [hmid] at hpeer
    exact .inl hpeer

/-- Nothing is forgotten of what was sent and answered. -/
theorem turnStep_history (h : TurnStep w e w') :
    (∃ sent, w'.sent = w.sent ++ sent) ∧ ∃ answered, w'.answered = w.answered ++ answered := by
  cases e with
  | start =>
    cases h
    exact ⟨⟨[], (List.append_nil _).symm⟩, [], (List.append_nil _).symm⟩
  | pass now =>
    unfold TurnStep turnRun at h
    dsimp only at h
    split at h
    · obtain ⟨⟨sent, session⟩, -, hret⟩ := Call.bind_eq_ret.mp h
      cases hret
      exact ⟨⟨sent, rfl⟩, [], (List.append_nil _).symm⟩
    · cases h
      exact ⟨⟨[], (List.append_nil _).symm⟩, [], (List.append_nil _).symm⟩
  | stop =>
    obtain ⟨⟨sent, session⟩, -, hret⟩ := Call.bind_eq_ret.mp h
    cases hret
    exact ⟨⟨sent, rfl⟩, [], (List.append_nil _).symm⟩
  | receive answers now data nb =>
    obtain ⟨⟨session, out⟩, -, hret⟩ := Call.bind_eq_ret.mp h
    cases hret
    refine ⟨⟨[], (List.append_nil _).symm⟩, ?_⟩
    cases answers with
    | some i => exact ⟨[(i, data.be 0 2)], rfl⟩
    | none => exact ⟨[], (List.append_nil _).symm⟩
  | _ =>
    obtain ⟨session, -, hret⟩ := Call.bind_eq_ret.mp h
    cases hret
    exact ⟨⟨[], (List.append_nil _).symm⟩, [], (List.append_nil _).symm⟩

theorem someBound_step (hb : SomeBound w) (h : TurnStep w e w') : SomeBound w' := by
  obtain ⟨i, sent, hanswer, hsent, htype⟩ := hb
  obtain ⟨⟨sent', hsent'⟩, answered', hanswered'⟩ := turnStep_history h
  have hlt := (List.getElem?_eq_some_iff.mp hsent).1
  refine ⟨i, sent, ?_, ?_, htype⟩
  · rw [hanswered']
    exact List.mem_append_left _ hanswer
  · rw [hsent', List.getElem?_append_left hlt, hsent]

/-- The success of a request for a channel, from a server that answers what was asked. -/
theorem binds_someBound (he : e.Honest w) (hb : e.Binds) (h : TurnStep w e w') : SomeBound w' := by
  cases e with
  | receive answers now data nb =>
    obtain ⟨hcookie, htype⟩ := hb
    obtain ⟨i, sent, rfl, hsent, hanswer⟩ := he hcookie (by rw [htype]; decide)
    obtain ⟨⟨session, out⟩, -, hret⟩ := Call.bind_eq_ret.mp h
    cases hret
    rw [htype] at hanswer
    simp only [stunChannelBindSuccessResponse] at hanswer
    refine ⟨i, sent, ?_, hsent, ?_⟩
    · rw [← htype]
      exact List.mem_append_right _ List.mem_cons_self
    · simp only [stunChannelBindingRequest]
      omega
  | _ => exact hb.elim

/-- What is known of a peer that is ready. -/
def ReadyBound (w : TurnWorld) : Prop :=
  (∃ peer ∈ w.session.peers, peer.state = .ready) → SomeBound w

/-- **Ready peers.** Whatever the order of requests and answers, a peer becomes ready only by the
success of a request for a channel that the session has sent, and only while it waits for a
channel itself. -/
theorem ready_bound (server : IceServer)
    (h : Run.Throughout TurnStep (fun w e => e.Honest w) es (.start server)) :
    Run.Throughout TurnStep ReadyByBind es (.start server) ∧
      ∀ w, Run.Leads TurnStep es (.start server) w → ReadyBound w := by
  refine ⟨Run.throughout_of_forall readyByBind, fun w hl => ?_⟩
  refine Run.leads_invariant ReadyBound ?_ hl (fun ⟨_, hpeer, _⟩ => nomatch hpeer) h
  rintro w e w' hw he hstep ⟨peer, hpeer, hready⟩
  obtain hold | ⟨hbinds, -⟩ := readyByBind w e w' hstep peer hpeer hready
  · exact someBound_step (hw ⟨peer, hold, hready⟩) hstep
  · exact binds_someBound he hbinds hstep

end Runs

section Conversation

/-- Two peers come to ask for a channel each, and one answer comes. -/
def turnTwoPeers : List TurnEvent :=
  [.addPeer 1 1 ⟨1, 1⟩, .addPeer 2 2 ⟨2, 2⟩] ++ turnOpening ++
    [.pass 0, turnAnswer 3 stunPermissionSuccessResponse, .pass 0,
      turnAnswer 5 stunChannelBindSuccessResponse]

set_option maxRecDepth 8000 in
theorem twoPeers_honest :
    Run.Throughout TurnStep (fun w e => e.Honest w) turnTwoPeers (.start {}) := by
  refine throughout_turn trivial rfl (throughout_turn trivial rfl ?_)
  refine throughout_turn trivial rfl (throughout_turn trivial rfl ?_)
  refine throughout_turn (fun _ _ => ⟨_, _, rfl, rfl, .inl rfl⟩) rfl ?_
  refine throughout_turn trivial rfl ?_
  refine throughout_turn (fun _ _ => ⟨_, _, rfl, rfl, .inr rfl⟩) rfl ?_
  refine throughout_turn trivial rfl ?_
  refine throughout_turn (fun _ _ => ⟨_, _, rfl, rfl, .inl rfl⟩) rfl ?_
  refine throughout_turn trivial rfl ?_
  refine throughout_turn (fun _ _ => ⟨_, _, rfl, rfl, .inl rfl⟩) rfl ?_
  refine throughout_turn trivial rfl ?_
  exact ⟨fun _ _ => ⟨_, _, rfl, rfl, .inl rfl⟩, fun _ _ => trivial⟩

theorem ready_bound_two : Run.Throughout TurnStep ReadyByBind turnTwoPeers (.start {}) ∧
    ∀ w, Run.Leads TurnStep turnTwoPeers (.start {}) w → ReadyBound w :=
  ready_bound {} twoPeers_honest

set_option maxRecDepth 8000 in
/-- The answer to the first peer's request makes the second one ready as well. -/
theorem bound_by_other :
    Run.Throughout TurnStep (fun w e => e.Honest w) turnTwoPeers (.start {}) ∧
    ∃ w, Run.Leads TurnStep turnTwoPeers (.start {}) w ∧ ¬ OwnBound w := by
  refine ⟨twoPeers_honest, ?_⟩
  obtain ⟨w, hw, ⟨peer, hpeer, hready, huid⟩, hanswered, hsent⟩ :
      ∃ w, turnDialogue (.start {}) turnTwoPeers = .ret w ∧
      (∃ peer ∈ w.session.peers, peer.state = .ready ∧ peer.uid = 2) ∧
      (∀ i, (i, stunChannelBindSuccessResponse) ∈ w.answered → i = 5) ∧
      ∀ sent, w.sent[5]? = some sent → ∀ asked, sent.peer = some asked → asked.uid = 1 := by
    refine ⟨_, rfl, ⟨_, .tail _ (.head _), rfl, rfl⟩, ?_, ?_⟩
    · intro i hi
      change (i, 0x109) ∈ [(0, 0x101), (1, 0x113), (2, 0x103), (3, 0x108), (5, 0x109)] at hi
      simpa using hi
    · rintro sent ⟨⟩ asked ⟨⟩
      rfl
  refine ⟨w, leads_of_dialogue hw, fun hall => ?_⟩
  obtain ⟨i, sent, asked, hi, hsome, -, hasked, hsame, -⟩ := hall peer hpeer hready
  obtain rfl := hanswered i hi
  rw [hsent sent hsome asked hasked, huid] at hsame
  cases hsame

end Conversation

end MetaRtc
