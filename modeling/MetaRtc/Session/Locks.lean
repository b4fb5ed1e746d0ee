import MetaRtc.Ice.Turn
import MetaRtc.Publish.Resend

/-! # The mutexes of encryption and of the peers

A call that leaves before its unlock keeps the mutex, and the next that takes it waits for
ever. -/
namespace MetaRtc

open Bytes Exec

inductive SrtpLock where
  | rtp | rtcp
  deriving DecidableEq

/-- The context of the sending direction, and which of its mutexes are held. -/
structure SrtpSession where
  sendCtx : Bool
  locked : SrtpLock → Bool := fun _ => false

def SrtpSession.setLock (srtp : SrtpSession) (k : SrtpLock) (held : Bool) : SrtpSession :=
  { srtp with locked := Function.update srtp.locked k held }

def srtpLockAcquire (srtp : SrtpSession) (k : SrtpLock) : Call SrtpSession :=
  if srtp.locked k then .blocked else .ret (srtp.setLock k true)

/-- `protect` gives a status and what it leaves in the packet's place. -/
def srtpEnc (k : SrtpLock) (protect : List UInt8 → Int × List UInt8) (srtp : SrtpSession)
    (packet : List UInt8) : Call (Err × List UInt8 × SrtpSession) :=
  if srtp.sendCtx = false then .ret (errorRtcSrtpProtect, packet, srtp)
  else do
    let srtp ← srtpLockAcquire srtp k
    let (r0, packet) := protect packet
    if r0 ≠ 0 then return (errorRtcSrtpProtect, packet, srtp)
    else return (yangOk, packet, srtp.setLock k false)

def srtpEncRtp := srtpEnc .rtp

def srtpEncRtcp := srtpEnc .rtcp

structure LockWorld where
  srtp : SrtpSession
  turn : TurnSession

/-- The result of an encryption comes with the call. -/
inductive LockCall where
  | encRtp (protect : List UInt8 → Int × List UInt8) (packet : List UInt8)
  | encRtcp (protect : List UInt8 → Int × List UInt8) (packet : List UInt8)
  | addPeer (uid : Int) (receiveUser : Nat) (address : IpAddress)
  | removePeer (uid : Int)

def LockWorld.call (w : LockWorld) : LockCall → Call LockWorld
  | .encRtp protect packet => do
    let (_, _, srtp) ← srtpEncRtp protect w.srtp packet
    return { w with srtp }
  | .encRtcp protect packet => do
    let (_, _, srtp) ← srtpEncRtcp protect w.srtp packet
    return { w with srtp }
  | .addPeer uid receiveUser address => do
    let turn ← turnconnAddPeer w.turn uid receiveUser address
    return { w with turn }
  | .removePeer uid => do
    let turn ← turnconnRemovePeer w.turn uid
    return { w with turn }

def LockWorld.Free (w : LockWorld) : Prop :=
  (∀ k, w.srtp.locked k = false) ∧ w.turn.turnLock = false

def LockStep (w : LockWorld) (c : LockCall) (w' : LockWorld) : Prop := w.call c = .ret w'

/-- The call returns, with every mutex released. -/
def Releases (w : LockWorld) (c : LockCall) : Prop := ∃ w', LockStep w c w' ∧ w'.Free

/-- No encryption fails under its mutex, and no peer that is removed is there. -/
def LockMeets (w : LockWorld) : LockCall → Prop
  | .encRtp protect packet | .encRtcp protect packet =>
    w.srtp.sendCtx = false ∨ (protect packet).1 = 0
  | .addPeer _ _ _ => True
  | .removePeer uid => ∀ peer ∈ w.turn.peers, peer.uid ≠ uid

section Calls

variable {w : LockWorld} {srtp : SrtpSession} {k : SrtpLock} {packet : List UInt8}
variable {protect : List UInt8 → Int × List UInt8}

@[simp] theorem setLock_same (srtp : SrtpSession) (k : SrtpLock) (held : Bool) :
    (srtp.setLock k held).locked k = held := Function.update_self _ _ _

/-- A mutex that was free, taken and given back. -/
theorem setLock_back (h : srtp.locked k = false) :
    (srtp.setLock k true).setLock k false = srtp := by
  simp only [SrtpSession.setLock, Function.update_idem]
  rw [← h, Function.update_eq_self]

theorem srtpEnc_ready (hctx : srtp.sendCtx = true) (h : srtp.locked k = false) :
    srtpEnc k protect srtp packet =
      if (protect packet).1 ≠ 0 then
        .ret (errorRtcSrtpProtect, (protect packet).2, srtp.setLock k true)
      else .ret (yangOk, (protect packet).2, srtp) := by
  have hacquire : srtpLockAcquire srtp k = .ret (srtp.setLock k true) := by
    rw [srtpLockAcquire, h]
    rfl
  have hready : ¬ srtp.sendCtx = false := by
    rw [hctx]
    decide
  rw [srtpEnc, hacquire, if_neg hready, Call.ret_bind, setLock_back h]
  rfl

/-- With its mutex free, an encryption returns. It keeps the mutex exactly when it fails
under it. -/
theorem srtpEnc_free (h : srtp.locked k = false) : ∃ err out srtp',
    srtpEnc k protect srtp packet = .ret (err, out, srtp') ∧
      (srtp' = srtp ∧ (srtp.sendCtx = false ∨ (protect packet).1 = 0) ∨
        srtp' = srtp.setLock k true ∧ ¬ (srtp.sendCtx = false ∨ (protect packet).1 = 0)) := by
  cases hctx : srtp.sendCtx with
  | false =>
    refine ⟨errorRtcSrtpProtect, packet, srtp, ?_, .inl ⟨rfl, .inl rfl⟩⟩
    rw [srtpEnc, if_pos hctx]
  | true =>
    rw [srtpEnc_ready hctx h]
    by_cases hfails : (protect packet).1 ≠ 0
    · refine ⟨errorRtcSrtpProtect, (protect packet).2, srtp.setLock k true, if_pos hfails,
        .inr ⟨rfl, ?_⟩⟩
      rintro (hfalse | hok)
      · cases hfalse
      · exact hfails hok
    · exact ⟨yangOk, (protect packet).2, srtp, if_neg hfails, .inl ⟨rfl, .inr (not_not.mp hfails)⟩⟩

/-- Under either mutex, the world is left free by an encryption that does not fail. -/
theorem releases_enc (hfree : w.Free) {c : LockCall}
    (hcall : w.call c = (do
      let (_, _, srtp) ← srtpEnc k protect w.srtp packet
      return { w with srtp })) :
    Releases w c ↔ w.srtp.sendCtx = false ∨ (protect packet).1 = 0 := by
  obtain ⟨err, out, srtp', henc, hkept⟩ :=
    @srtpEnc_free w.srtp k packet protect (hfree.1 k)
  have hstep : w.call c = .ret { w with srtp := srtp' } := by
    rw [hcall, henc]
    rfl
  constructor
  · rintro ⟨w', hw', hreleased⟩
    rcases hkept with ⟨-, hok⟩ | ⟨rfl, -⟩
    · exact hok
    · cases hstep.symm.trans hw'
      have hheld := hreleased.1 k
      rw [setLock_same] at hheld
      cases hheld
  · intro hok
    rcases hkept with ⟨rfl, -⟩ | ⟨-, hfails⟩
    · exact ⟨w, hstep, hfree⟩
    · exact absurd hok hfails

theorem turnLockAcquire_free {turn : TurnSession} (h : turn.turnLock = false) :
    turnLockAcquire turn = .ret { turn with turnLock := true } :=
  turnLockAcquire_eq_ret.mpr ⟨h, rfl⟩

theorem addPeer_free {turn : TurnSession} (h : turn.turnLock = false) (uid : Int)
    (receiveUser : Nat) (address : IpAddress) :
    ∃ turn', turnconnAddPeer turn uid receiveUser address = .ret turn' ∧
      turn'.turnLock = false := by
  have hacquire : ∀ n, turnLockAcquire { turn with channelNum := n } =
      .ret { turn with channelNum := n, turnLock := true } := fun _ => turnLockAcquire_free h
  unfold turnconnAddPeer
  dsimp only
  rw [hacquire]
  exact ⟨_, rfl, rfl⟩

theorem releases_addPeer (hfree : w.Free) (uid : Int) (receiveUser : Nat) (address : IpAddress) :
    Releases w (.addPeer uid receiveUser address) := by
  obtain ⟨turn, hturn, hreleased⟩ := addPeer_free hfree.2 uid receiveUser address
  refine ⟨{ w with turn }, ?_, hfree.1, hreleased⟩
  rw [LockStep, LockWorld.call, hturn]
  rfl

theorem releases_removePeer (hfree : w.Free) (uid : Int) :
    Releases w (.removePeer uid) ↔ ∀ peer ∈ w.turn.peers, peer.uid ≠ uid := by
  have hstep : w.call (.removePeer uid) = (w.turn.peers.find? (·.uid = uid)).elim
      (.ret { w with turn := { w.turn with turnLock := false } })
      fun peer => .ret { w with turn := { w.turn with
        turnLock := true
        channelNum := peer.channelNumber
        peers := w.turn.peers.eraseP (·.uid = uid) } } := by
    rw [LockWorld.call, turnconnRemovePeer, turnLockAcquire_free hfree.2, Call.ret_bind]
    dsimp only
    cases w.turn.peers.find? (·.uid = uid) <;> rfl
  have hnone : (∀ peer ∈ w.turn.peers, peer.uid ≠ uid) ↔
      w.turn.peers.find? (·.uid = uid) = none := by
    simp only [List.find?_eq_none, decide_eq_true_eq, ne_eq]
  rw [hnone]
  cases hfound : w.turn.peers.find? (·.uid = uid) with
  | none =>
    rw [hfound] at hstep
    exact iff_of_true ⟨_, hstep, hfree.1, rfl⟩ rfl
  | some peer =>
    rw [hfound] at hstep
    refine iff_of_false ?_ (Option.some_ne_none peer)
    rintro ⟨w', hw', hreleased⟩
    cases hstep.symm.trans hw'
    cases hreleased.2

/-- From a state with nothing held, a call releases what it took if and only if it takes none
of the early returns. -/
theorem releases_iff (hfree : w.Free) (c : LockCall) : Releases w c ↔ LockMeets w c := by
  cases c with
  | encRtp protect packet => exact releases_enc hfree rfl
  | encRtcp protect packet => exact releases_enc hfree rfl
  | addPeer uid receiveUser address =>
    exact iff_of_true (releases_addPeer hfree uid receiveUser address) trivial
  | removePeer uid => exact releases_removePeer hfree uid

/-- The publisher's encryption of a packet is the same call on the bytes at its place. -/
theorem encRtp_same (env : Env) (pub : Publisher) (m : Media) (data : Option Nat) (nb : Nat)
    (hctx : srtp.sendCtx = pub.srtp.sendCtx) (hlock : srtp.locked .rtp = pub.srtp.rtpLock) :
    (encRtp env pub m data nb = .blocked ∧
        srtpEncRtp env.protect srtp (pub.packetAt m data nb) = .blocked) ∨
      ∃ err out out' pub' srtp', encRtp env pub m data nb = .ret (err, out, pub') ∧
        srtpEncRtp env.protect srtp (pub.packetAt m data nb) = .ret (err, out', srtp') ∧
        srtp'.sendCtx = pub'.srtp.sendCtx ∧ srtp'.locked .rtp = pub'.srtp.rtpLock := by
  cases hkeys : pub.srtp.sendCtx with
  | false =>
    right
    refine ⟨errorRtcSrtpProtect, [], pub.packetAt m data nb, pub, srtp, ?_, ?_, hctx, hlock⟩
    · rw [encRtp, if_pos hkeys]
    · rw [srtpEncRtp, srtpEnc, if_pos (hctx.trans hkeys)]
  | true =>
    have hready : ¬ pub.srtp.sendCtx = false := by simp [hkeys]
    cases hheld : pub.srtp.rtpLock with
    | true =>
      left
      have hready' : ¬ srtp.sendCtx = false := hctx ▸ hready
      constructor
      · rw [encRtp, if_neg hready, if_pos hheld]
      · rw [srtpEncRtp, srtpEnc, if_neg hready', srtpLockAcquire, hlock, hheld]
        rfl
    | false =>
      right
      have hfree : ¬ pub.srtp.rtpLock = true := by simp [hheld]
      rw [srtpEncRtp, srtpEnc_ready (hctx.trans hkeys) (hlock.trans hheld), encRtp,
        if_neg hready, if_neg hfree]
      dsimp only
      by_cases hfails : (env.protect (pub.packetAt m data nb)).1 ≠ 0
      · rw [if_pos hfails, if_pos hfails]
        refine ⟨_, _, _, _, _, rfl, rfl, ?_, setLock_same _ _ _⟩
        exact hctx.trans (congrArg SRtp.sendCtx (writeAt_srtp m data _)).symm
      · rw [if_neg hfails, if_neg hfails]
        refine ⟨_, _, _, _, _, rfl, rfl, ?_, ?_⟩
        · exact hctx.trans (congrArg SRtp.sendCtx (writeAt_srtp m data _)).symm
        · exact hlock.trans (congrArg SRtp.rtpLock (writeAt_srtp m data _)).symm

end Calls

/-- Every call of a run returns and releases its mutex exactly when none takes an early
return between lock and unlock. -/
theorem locks_released (w : LockWorld) (hfree : w.Free) (calls : List LockCall) :
    Run.Throughout LockStep Releases calls w ↔ Run.Throughout LockStep LockMeets calls w := by
  constructor
  · refine Run.throughout_imp LockWorld.Free (fun w c hw => (releases_iff hw c).mp) ?_ hfree
    rintro w c w' hw ⟨u, hu, hreleased⟩ hw'
    cases hu.symm.trans hw'
    exact hreleased
  · refine Run.throughout_imp LockWorld.Free (fun w c hw => (releases_iff hw c).mpr) ?_ hfree
    intro w c w' hw hmeets hw'
    obtain ⟨u, hu, hreleased⟩ := (releases_iff hw c).mpr hmeets
    cases hu.symm.trans hw'
    exact hreleased

/-- The keys are there, and nothing is held. -/
def lockStart : LockWorld := ⟨⟨true, fun _ => false⟩, {}⟩

theorem locks_released_enc : Run.Throughout LockStep Releases
    [.encRtp (fun packet => (0, packet)) [1], .addPeer 5 0 ⟨1, 2⟩] lockStart :=
  (locks_released lockStart ⟨fun _ => rfl, rfl⟩ _).mpr
    ⟨.inr rfl, fun _ _ => ⟨trivial, fun _ _ => trivial⟩⟩

/-- Behind a packet that is not encrypted, or a peer that was removed, the next call waits for
ever. -/
theorem lock_kept :
    (do
      let w ← lockStart.call (.encRtp (fun packet => (1, packet)) [1])
      w.call (.encRtp (fun packet => (0, packet)) [1])) = .blocked ∧
    (do
      let w ← lockStart.call (.addPeer 5 0 ⟨1, 2⟩)
      let w ← w.call (.removePeer 5)
      w.call (.addPeer 6 0 ⟨1, 2⟩)) = .blocked ∧
    ¬ Run.Throughout LockStep Releases [.encRtp (fun packet => (1, packet)) [1]] lockStart ∧
    ¬ Run.Throughout LockStep Releases [.addPeer 5 0 ⟨1, 2⟩, .removePeer 5] lockStart := by
  refine ⟨rfl, rfl, ?_, ?_⟩
  · rintro ⟨⟨w, hw, hreleased⟩, -⟩
    cases hw
    cases hreleased.1 .rtp
  · rintro ⟨-, h⟩
    obtain ⟨⟨w, hw, hreleased⟩, -⟩ := h _ rfl
    cases hw
    cases hreleased.2

end MetaRtc
