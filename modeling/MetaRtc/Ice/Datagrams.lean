import MetaRtc.Ice.Walk

/-! # Datagrams from a TURN server

What the receiver of a TURN session reads of a datagram, and what it does with it. The sender
says how long a message and channel data are. -/
namespace MetaRtc

open Bytes Exec

/-- Bytes of the datagram are read, the message is acted on with what its decoder has said, or
bytes are handed to a peer. -/
inductive TurnAct where
  | read (p n : Nat)
  | handle (decoded : Err)
  | hand (p n : Nat)
  deriving DecidableEq

def TurnAct.Sound (nb : Nat) : TurnAct → Prop
  | .read p n => p + n ≤ nb
  | .handle decoded => decoded = yangOk
  | .hand p n => p + n ≤ nb

instance (nb : Nat) : DecidablePred (TurnAct.Sound nb)
  | .read _ _ => inferInstanceAs (Decidable (_ ≤ _))
  | .handle _ => inferInstanceAs (Decidable (_ = _))
  | .hand _ _ => inferInstanceAs (Decidable (_ ≤ _))

/-- What the loop over the attributes reads from a place on. -/
def attributeReads (data : Mem) (size : Nat) : Nat → Nat → List TurnAct
  | 0, _ => []
  | fuel + 1, p =>
    if size < p + 4 then []
    else
      let len := data.be (p + 2) 2
      .read p 2 :: .read (p + 2) 2 ::
        if size < p + 4 + len then []
        else .read (p + 4) len ::
          attributeReads data size fuel (p + 4 + len + (4 - len % 4) % 4)

def turnDecodeReads (data : Mem) (nb : Nat) : List TurnAct :=
  if nb < 20 then []
  else .read 2 2 :: .read 4 4 ::
    if nb ≠ 20 + data.be 2 2 then [] else attributeReads data nb nb 20

/-- The receiver with all it does to the datagram, in order. -/
def turnconnReceiveActs (session : TurnSession) (now : Nat) (data : Mem) (nb : Nat) :
    Call (List TurnAct × TurnSession × Option (Nat × List UInt8)) :=
  if data.be 4 4 = kStunMagicCookie then do
    let (err, session) ← turnDecode { session with response := {} } data nb
    let stuntype := data.be 0 2
    let acts := .read 4 4 :: turnDecodeReads data nb ++ [.read 0 2, .handle err, .read 0 2]
    if isTurnError stuntype then return (acts, turnconnHandleError session stuntype, none)
    else return (acts, turnconnHandleRecv session now stuntype, none)
  else
    let channelNum := data.be 0 2
    let len := data.be 2 2
    let peer := session.peers.find? fun peer =>
      peer.state == .ready && peer.channelNumber == channelNum
    let acts := .read 4 4 :: .read 0 2 :: .read 2 2 :: (peer.map fun _ => TurnAct.hand 4 len).toList
    .ret (acts, session, peer.map fun peer => (peer.receiveUser, data.slice 4 len))

/-- The receiver comes back, and with the datagram it has only done what it may. -/
def ReceivesSafely (session : TurnSession) (now : Nat) (data : Mem) (nb : Nat) : Prop :=
  ∃ acts received, turnconnReceiveActs session now data nb = .ret (acts, received) ∧
    ∀ act ∈ acts, act.Sound nb

/-- The datagram is what it says: a message that can be decoded, or channel data as long as
told where a peer takes it. -/
structure DatagramTrue (session : TurnSession) (data : Mem) (nb : Nat) : Prop where
  cookie : 8 ≤ nb
  message : data.be 4 4 = kStunMagicCookie →
    (stunWalk data nb).2 = true ∧ TurnFits 1 session (stunWalk data nb).1
  channel : data.be 4 4 ≠ kStunMagicCookie → ∀ peer ∈ session.peers, peer.state = .ready →
    peer.channelNumber = data.be 0 2 → 4 + data.be 2 2 ≤ nb

section Receiver

variable {session : TurnSession} {now : Nat} {data : Mem} {nb : Nat}

/-- What is noted down of the receiver is all that is added to it. -/
theorem receiveActs_receive :
    (turnconnReceiveActs session now data nb >>= fun r => .ret r.2) =
      turnconnReceive session now data nb := by
  unfold turnconnReceiveActs turnconnReceive
  by_cases hcookie : data.be 4 4 = kStunMagicCookie
  · rw [if_pos hcookie, if_pos hcookie, Call.bind_assoc]
    refine congrArg _ (funext fun r => ?_)
    obtain ⟨err, decoded⟩ := r
    dsimp only
    split
    · rfl
    · rfl
  · rw [if_neg hcookie, if_neg hcookie]
    rfl

/-- What is handed to a peer are the bytes from the fourth on. -/
theorem receiveActs_hand {acts : List TurnAct} {session' : TurnSession} {user : Nat}
    {bytes : List UInt8}
    (h : turnconnReceiveActs session now data nb = .ret (acts, session', some (user, bytes))) :
    ∃ n, .hand 4 n ∈ acts ∧ bytes = data.slice 4 n := by
  unfold turnconnReceiveActs at h
  split at h
  · obtain ⟨⟨err, decoded⟩, -, h⟩ := Call.bind_eq_ret.mp h
    dsimp only at h
    split at h
    · cases h
    · cases h
  · dsimp only at h
    cases hpeer : session.peers.find? fun peer =>
        peer.state == .ready && peer.channelNumber == data.be 0 2 with
    | none =>
      rw [hpeer] at h
      cases h
    | some peer =>
      rw [hpeer] at h
      cases h
      exact ⟨data.be 2 2, by simp, rfl⟩

theorem attributeReads_sound (fuel p : Nat) :
    ∀ act ∈ attributeReads data nb fuel p, act.Sound nb := by
  induction fuel generalizing p with
  | zero =>
    intro act hact
    cases hact
  | succ fuel ih =>
    rw [attributeReads]
    by_cases hend : nb < p + 4
    · rw [if_pos hend]
      intro act hact
      cases hact
    · rw [if_neg hend]
      have htype : (TurnAct.read p 2).Sound nb := by
        unfold TurnAct.Sound
        omega
      have hlen : (TurnAct.read (p + 2) 2).Sound nb := by
        unfold TurnAct.Sound
        omega
      apply List.forall_mem_cons.mpr ⟨htype, List.forall_mem_cons.mpr ⟨hlen, ?_⟩⟩
      by_cases hlong : nb < p + 4 + data.be (p + 2) 2
      · rw [if_pos hlong]
        intro act hact
        cases hact
      · rw [if_neg hlong]
        exact List.forall_mem_cons.mpr ⟨Nat.not_lt.mp hlong, ih _⟩

/-- The decoder itself stays inside of any datagram. -/
theorem turnDecodeReads_sound : ∀ act ∈ turnDecodeReads data nb, act.Sound nb := by
  unfold turnDecodeReads
  by_cases hshort : nb < 20
  · rw [if_pos hshort]
    intro act hact
    cases hact
  · rw [if_neg hshort]
    have hlen : (TurnAct.read 2 2).Sound nb := by
      unfold TurnAct.Sound
      omega
    have hcookie : (TurnAct.read 4 4).Sound nb := by
      unfold TurnAct.Sound
      omega
    apply List.forall_mem_cons.mpr ⟨hlen, List.forall_mem_cons.mpr ⟨hcookie, ?_⟩⟩
    split
    · intro act hact
      cases hact
    · exact attributeReads_sound _ _

/-- What is done to a message is sound if it is long enough for its cookie, and accepted. -/
theorem messageActs_sound {err : Err} :
    (∀ act ∈ .read 4 4 :: turnDecodeReads data nb ++ [.read 0 2, .handle err, .read 0 2],
      act.Sound nb) ↔ 8 ≤ nb ∧ err = yangOk := by
  constructor
  · intro h
    have hcookie : (TurnAct.read 4 4).Sound nb := h _ (by simp)
    have hhandle : (TurnAct.handle err).Sound nb := h _ (by simp)
    exact ⟨hcookie, hhandle⟩
  · rintro ⟨hnb, herr⟩ act hact
    have htype : (TurnAct.read 0 2).Sound nb := by
      unfold TurnAct.Sound
      omega
    simp only [List.cons_append, List.mem_cons, List.mem_append, List.not_mem_nil, or_false] at hact
    rcases hact with rfl | hread | rfl | rfl | rfl
    · exact hnb
    · exact turnDecodeReads_sound act hread
    · exact htype
    · exact herr
    · exact htype

/-- A message is received safely if it is long enough for its cookie, and accepted. -/
theorem message_receives (hcookie : data.be 4 4 = kStunMagicCookie) :
    ReceivesSafely session now data nb ↔
      8 ≤ nb ∧ (stunWalk data nb).2 = true ∧ TurnFits 1 session (stunWalk data nb).1 := by
  have hacts : ∀ err decoded,
      turnDecode { session with response := {} } data nb = .ret (err, decoded) →
      ∃ received, turnconnReceiveActs session now data nb =
        .ret (.read 4 4 :: turnDecodeReads data nb ++ [.read 0 2, .handle err, .read 0 2],
          received) := by
    intro err decoded hdecode
    unfold turnconnReceiveActs
    rw [if_pos hcookie, hdecode, Call.ret_bind]
    dsimp only
    split
    · exact ⟨_, rfl⟩
    · exact ⟨_, rfl⟩
  have hfits : TurnFits 1 { session with response := {} } (stunWalk data nb).1 ↔
      TurnFits 1 session (stunWalk data nb).1 :=
    ⟨fun h => ⟨h.fixed, h.nonces, h.realms⟩, fun h => ⟨h.fixed, h.nonces, h.realms⟩⟩
  have hok : ∀ err decoded,
      turnDecode { session with response := {} } data nb = .ret (err, decoded) →
      (err = yangOk ↔ (stunWalk data nb).2 = true) := by
    intro err decoded hdecode
    rw [turnDecode_walk] at hdecode
    obtain ⟨t, -, hret⟩ := Call.bind_eq_ret.mp hdecode
    obtain ⟨rfl, -⟩ := Prod.mk.inj (Call.ret.inj hret)
    cases (stunWalk data nb).2 with
    | true => exact iff_of_true rfl rfl
    | false => exact iff_of_false (by decide) (by decide)
  constructor
  · rintro ⟨acts, received, hret, hsound⟩
    have hreturns : ∃ r, turnDecode { session with response := {} } data nb = .ret r := by
      unfold turnconnReceiveActs at hret
      rw [if_pos hcookie] at hret
      obtain ⟨r, hr, -⟩ := Call.bind_eq_ret.mp hret
      exact ⟨r, hr⟩
    obtain ⟨⟨err, decoded⟩, hdecode⟩ := hreturns
    obtain ⟨received', hacts'⟩ := hacts err decoded hdecode
    rw [hret] at hacts'
    rw [(Prod.mk.inj (Call.ret.inj hacts')).1] at hsound
    obtain ⟨hnb, herr⟩ := messageActs_sound.mp hsound
    exact ⟨hnb, (hok err decoded hdecode).mp herr, hfits.mp (turnDecode_returns.mp ⟨_, hdecode⟩)⟩
  · rintro ⟨hnb, haccepted, hfit⟩
    obtain ⟨⟨err, decoded⟩, hdecode⟩ := turnDecode_returns.mpr (hfits.mpr hfit)
    obtain ⟨received, hret⟩ := hacts err decoded hdecode
    refine ⟨_, received, hret, messageActs_sound.mpr ⟨hnb, ?_⟩⟩
    exact (hok err decoded hdecode).mpr haccepted

/-- Channel data is received safely if it is long enough for a cookie, and as long as told
where a peer takes it. -/
theorem channel_receives (hcookie : data.be 4 4 ≠ kStunMagicCookie) :
    ReceivesSafely session now data nb ↔ 8 ≤ nb ∧ ∀ peer ∈ session.peers, peer.state = .ready →
      peer.channelNumber = data.be 0 2 → 4 + data.be 2 2 ≤ nb := by
  have hret : ∀ peer, (session.peers.find? fun peer =>
      peer.state == .ready && peer.channelNumber == data.be 0 2) = peer →
      turnconnReceiveActs session now data nb =
        .ret (.read 4 4 :: .read 0 2 :: .read 2 2 ::
          (peer.map fun _ => TurnAct.hand 4 (data.be 2 2)).toList, session,
          peer.map fun peer => (peer.receiveUser, data.slice 4 (data.be 2 2))) := by
    rintro peer rfl
    unfold turnconnReceiveActs
    rw [if_neg hcookie]
  have hsound : ∀ acts received, turnconnReceiveActs session now data nb = .ret (acts, received) →
      ((∀ act ∈ acts, act.Sound nb) ↔ ReceivesSafely session now data nb) := by
    intro acts received hacts
    constructor
    · exact fun h => ⟨acts, received, hacts, h⟩
    · rintro ⟨acts', received', hacts', h⟩
      rw [hacts] at hacts'
      rw [(Prod.mk.inj (Call.ret.inj hacts')).1]
      exact h
  cases hpeer : session.peers.find? fun peer =>
      peer.state == .ready && peer.channelNumber == data.be 0 2 with
  | none =>
    rw [← hsound _ _ (hret _ hpeer)]
    have hnone : ∀ peer ∈ session.peers, peer.state = .ready →
        ¬ peer.channelNumber = data.be 0 2 := by
      intro peer hmem hready hnumber
      refine List.find?_eq_none.mp hpeer peer hmem ?_
      rw [hready, hnumber]
      simp
    constructor
    · intro h
      have hread : (TurnAct.read 4 4).Sound nb := h _ List.mem_cons_self
      exact ⟨hread, fun peer hmem hready hnumber => absurd hnumber (hnone peer hmem hready)⟩
    · rintro ⟨hnb, -⟩ act hact
      simp only [Option.map_none, Option.toList_none, List.mem_cons, List.not_mem_nil,
        or_false] at hact
      rcases hact with rfl | rfl | rfl
      · exact hnb
      · exact (by omega : 0 + 2 ≤ nb)
      · exact (by omega : 2 + 2 ≤ nb)
  | some peer =>
    rw [← hsound _ _ (hret _ hpeer)]
    have hfound := List.find?_some hpeer
    simp only [Bool.and_eq_true, beq_iff_eq] at hfound
    constructor
    · intro h
      have hread : (TurnAct.read 4 4).Sound nb := h _ List.mem_cons_self
      have hhand : (TurnAct.hand 4 (data.be 2 2)).Sound nb := h _ (by simp)
      exact ⟨hread, fun _ _ _ _ => hhand⟩
    · rintro ⟨hnb, hpeers⟩ act hact
      simp only [Option.map_some, Option.toList_some, List.mem_cons, List.not_mem_nil,
        or_false] at hact
      rcases hact with rfl | rfl | rfl | rfl
      · exact hnb
      · exact (by omega : 0 + 2 ≤ nb)
      · exact (by omega : 2 + 2 ≤ nb)
      · exact hpeers peer (List.mem_of_find?_eq_some hpeer) hfound.1 hfound.2

/-- In every state of the session, a datagram is received safely exactly if it is what it
says. -/
theorem receives_iff (session : TurnSession) (now : Nat) (data : Mem) (nb : Nat) :
    ReceivesSafely session now data nb ↔ DatagramTrue session data nb := by
  by_cases hcookie : data.be 4 4 = kStunMagicCookie
  · rw [message_receives hcookie]
    constructor
    · rintro ⟨hnb, hmessage⟩
      exact ⟨hnb, fun _ => hmessage, fun hnot => absurd hcookie hnot⟩
    · intro h
      exact ⟨h.cookie, h.message hcookie⟩
  · rw [channel_receives hcookie]
    constructor
    · rintro ⟨hnb, hchannel⟩
      exact ⟨hnb, fun his => absurd his hcookie, fun _ => hchannel⟩
    · intro h
      exact ⟨h.cookie, h.channel hcookie⟩

set_option maxRecDepth 4000 in
/-- A session with a peer whose channel is bound: the datagram that is one byte long, the
message that is shorter than it says, and the channel data that is longer than it is. -/
theorem datagram_believed :
    ∃ w, Run.Leads TurnStep (.addPeer 1 1 ⟨1, 1⟩ :: turnOpening ++
        [.pass 0, turnAnswer 3 stunPermissionSuccessResponse,
          .pass 0, turnAnswer 4 stunChannelBindSuccessResponse]) (.start {}) w ∧
      ¬ ReceivesSafely w.session 0 (ofList [0]) 1 ∧
      ¬ ReceivesSafely w.session 0
        (ofList ([1, 1, 0, 8] ++ beBytes 4 kStunMagicCookie ++ List.replicate 12 0)) 20 ∧
      ¬ ReceivesSafely w.session 0 (ofList [0x40, 0, 0x05, 0xDC, 0, 0, 0, 0]) 8 := by
  refine ⟨_, leads_of_dialogue rfl, ?_, ?_, ?_⟩
  · intro h
    exact absurd ((channel_receives (by decide)).mp h).1 (by decide)
  · intro h
    exact absurd ((message_receives (by decide)).mp h).2.1 (by decide)
  · intro h
    have hlong := ((channel_receives (by decide)).mp h).2 _ List.mem_cons_self rfl rfl
    exact absurd hlong (by decide)

end Receiver

end MetaRtc
