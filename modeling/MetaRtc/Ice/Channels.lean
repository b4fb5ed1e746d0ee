import MetaRtc.Ice.Turn
import Mathlib.Data.List.Nodup
import Mathlib.Data.List.Range

/-! # The channel numbers of a TURN connection

Numbers come from one cursor, which goes back to the number of a peer that is removed. The
mutex that a removal takes is not given back. -/
namespace MetaRtc

open Exec

inductive PeerCall where
  | addPeer (uid : Int) (receiveUser : Nat) (address : IpAddress)
  | removePeer (uid : Int)
  deriving DecidableEq

def PeerCall.apply (session : TurnSession) : PeerCall → Call TurnSession
  | .addPeer uid receiveUser address => turnconnAddPeer session uid receiveUser address
  | .removePeer uid => turnconnRemovePeer session uid

/-- The peers that are active behind a call, by their ids. -/
def PeerCall.active (uids : List Int) : PeerCall → List Int
  | .addPeer uid _ _ => uids ++ [uid]
  | .removePeer uid => uids.erase uid

def activeUids (calls : List PeerCall) : List Int := calls.foldl PeerCall.active []

structure ChannelsDistinct (session : TurnSession) : Prop where
  distinct : (session.peers.map (·.channelNumber)).Nodup
  range : ∀ peer ∈ session.peers, yangTurnChannelNumBase ≤ peer.channelNumber ∧
    peer.channelNumber < yangTurnChannelNumBase + 32

/-- Each of the calls returns, and behind each the active peers have numbers of their own. -/
def Allocates : List PeerCall → TurnSession → Prop
  | [], session => ChannelsDistinct session
  | call :: calls, session => ChannelsDistinct session ∧
      ∃ session', call.apply session = .ret session' ∧ Allocates calls session'

/-- Only the last call removes a peer that is active. -/
def RemovesLast (uids : List Int) (calls : List PeerCall) : Prop :=
  ∀ front uid rest, calls = front ++ .removePeer uid :: rest → rest ≠ [] →
    uid ∉ front.foldl PeerCall.active uids

/-- The mutex is free, and the peers have the first numbers of the range. -/
structure Filling (session : TurnSession) : Prop where
  free : session.turnLock = false
  numbers : session.peers.map (·.channelNumber) =
    (List.range session.peers.length).map (yangTurnChannelNumBase + ·)
  cursor : session.channelNum = yangTurnChannelNumBase + session.peers.length
  length : session.peers.length ≤ 32

section Calls

variable {session session' : TurnSession} {uid : Int} {receiveUser : Nat} {address : IpAddress}
  {uids : List Int} {call : PeerCall} {calls : List PeerCall}

theorem removesLast_nil (uids : List Int) : RemovesLast uids [] := by
  intro front uid rest heq
  simp at heq

theorem removesLast_cons : RemovesLast uids (call :: calls) ↔
    (∀ uid, call = .removePeer uid → calls ≠ [] → uid ∉ uids) ∧
      RemovesLast (call.active uids) calls := by
  constructor
  · intro h
    refine ⟨fun uid hcall => ?_, fun front uid rest hcalls => ?_⟩
    · exact h [] uid calls (by rw [hcall]; rfl)
    · exact h (call :: front) uid rest (by rw [hcalls]; rfl)
  · rintro ⟨hfirst, hrest⟩ front uid rest heq hne
    cases front with
    | nil =>
      obtain ⟨rfl, rfl⟩ := List.cons.inj heq
      exact hfirst uid rfl hne
    | cons c front =>
      obtain ⟨rfl, rfl⟩ := List.cons.inj heq
      exact hrest front uid rest rfl hne

theorem filling_distinct (h : Filling session) : ChannelsDistinct session where
  distinct := by
    rw [h.numbers]
    exact (List.nodup_range).map fun _ _ heq => Nat.add_left_cancel heq
  range := by
    intro peer hpeer
    have hmem := List.mem_map_of_mem (f := (·.channelNumber)) hpeer
    rw [h.numbers] at hmem
    obtain ⟨k, hk, heq⟩ := List.mem_map.mp hmem
    have hlt := List.mem_range.mp hk
    have hlen := h.length
    omega

/-- A peer added while there is room takes the next number. -/
theorem filling_add (h : Filling session) (hlen : session.peers.length < 32) :
    ∃ session', turnconnAddPeer session uid receiveUser address = .ret session' ∧
      Filling session' ∧
      session'.peers.map (·.uid) = session.peers.map (·.uid) ++ [uid] := by
  have hcursor := h.cursor
  have hroom : ¬ session.channelNum > yangTurnChannelNumBase + 31 := by omega
  have hadd : turnconnAddPeer session uid receiveUser address = .ret
      { session with
        channelNum := (session.channelNum + 1) % 2 ^ 16
        peers := session.peers ++ [
          { channelNumber := session.channelNum, uid, state := .permission, receiveUser, address }]
        turnLock := false
        waitTime := 50 } := by
    simp only [turnconnAddPeer, hroom, if_false, turnLockAcquire, h.free, Bool.false_eq_true,
      Call.ret_bind, Call.pure_eq]
  refine ⟨_, hadd, ⟨rfl, ?_, ?_, ?_⟩, List.map_append⟩
  · simp only [List.map_append, h.numbers, List.length_append, List.length_singleton,
      List.range_succ, List.map_cons, List.map_nil, hcursor]
  · simp only [List.length_append, List.length_singleton, hcursor, yangTurnChannelNumBase]
    omega
  · simp only [List.length_append, List.length_singleton]
    omega

theorem remove_unknown (h : session.turnLock = false) (huid : uid ∉ session.peers.map (·.uid)) :
    turnconnRemovePeer session uid = .ret session := by
  have hnone : session.peers.find? (·.uid = uid) = none := by
    rw [List.find?_eq_none]
    intro peer hpeer heq
    exact huid (List.mem_map.mpr ⟨peer, hpeer, of_decide_eq_true heq⟩)
  simp only [turnconnRemovePeer, turnLockAcquire, h, Bool.false_eq_true, if_false, Call.ret_bind,
    hnone, Call.pure_eq]
  rw [← h]

/-- The removal of an active peer leaves the others theirs, and the mutex locked. -/
theorem remove_active (h : session.turnLock = false) (huid : uid ∈ session.peers.map (·.uid)) :
    ∃ session', turnconnRemovePeer session uid = .ret session' ∧ session'.turnLock = true ∧
      session'.peers = session.peers.eraseP (·.uid = uid) := by
  obtain ⟨peer, hpeer, heq⟩ := List.mem_map.mp huid
  have hsome : (session.peers.find? (·.uid = uid)).isSome = true :=
    List.find?_isSome.mpr ⟨peer, hpeer, decide_eq_true heq⟩
  obtain ⟨found, hfound⟩ := Option.isSome_iff_exists.mp hsome
  have hremove : turnconnRemovePeer session uid = .ret
      { session with
        turnLock := true
        channelNum := found.channelNumber
        peers := session.peers.eraseP (·.uid = uid) } := by
    simp only [turnconnRemovePeer, turnLockAcquire, h, Bool.false_eq_true, if_false,
      Call.ret_bind, hfound, Call.pure_eq]
  exact ⟨_, hremove, rfl, rfl⟩

/-- Behind it no call comes back. -/
theorem locked_blocks (h : session.turnLock = true) (call : PeerCall) :
    call.apply session = .blocked := by
  cases call <;>
    simp [PeerCall.apply, turnconnAddPeer, turnconnRemovePeer, turnLockAcquire, h]

theorem distinct_sublist {peers : List TurnPeer} (h : ChannelsDistinct session)
    (hsub : peers.Sublist session.peers) (heq : session'.peers = peers) :
    ChannelsDistinct session' where
  distinct := by
    rw [heq]
    exact h.distinct.sublist (hsub.map _)
  range := by
    rw [heq]
    exact fun peer hpeer => h.range peer (hsub.subset hpeer)

theorem allocates_iff (h : Filling session) (huids : uids = session.peers.map (·.uid))
    (hactive : ∀ front, front <+: calls → (front.foldl PeerCall.active uids).length ≤ 32) :
    Allocates calls session ↔ RemovesLast uids calls := by
  induction calls generalizing session uids with
  | nil => exact ⟨fun _ => removesLast_nil uids, fun _ => filling_distinct h⟩
  | cons call calls ih =>
    have hdistinct := filling_distinct h
    have hrest : ∀ front, front <+: calls →
        (front.foldl PeerCall.active (call.active uids)).length ≤ 32 := fun front hfront =>
      hactive (call :: front) (List.prefix_cons_inj call |>.mpr hfront)
    rw [removesLast_cons]
    cases call with
    | addPeer uid receiveUser address =>
      have hlen : session.peers.length < 32 := by
        have hone := hrest [] List.nil_prefix
        simp only [List.foldl_nil, PeerCall.active, huids, List.length_append, List.length_map,
          List.length_singleton] at hone
        omega
      obtain ⟨session', hadd, hfill, hids⟩ := filling_add h hlen
      have hnext := ih hfill (by rw [PeerCall.active, huids, hids]) hrest
      rw [← hnext]
      constructor
      · rintro ⟨-, s, hs, hall⟩
        cases hadd.symm.trans hs
        exact ⟨fun _ hno => (nomatch hno), hall⟩
      · rintro ⟨-, hall⟩
        exact ⟨hdistinct, session', hadd, hall⟩
    | removePeer uid =>
      by_cases huid : uid ∈ uids
      · obtain ⟨session', hremove, hlock, hpeers⟩ := remove_active h.free (huids ▸ huid)
        have hdistinct' := distinct_sublist hdistinct List.eraseP_sublist hpeers
        cases calls with
        | nil =>
          exact ⟨fun _ => ⟨fun _ _ hno => absurd rfl hno, removesLast_nil _⟩,
            fun _ => ⟨hdistinct, session', hremove, hdistinct'⟩⟩
        | cons next calls =>
          constructor
          · rintro ⟨-, s, hs, -, s', hs', -⟩
            cases hremove.symm.trans hs
            rw [locked_blocks hlock] at hs'
            cases hs'
          · rintro ⟨hno, -⟩
            exact absurd huid (hno uid rfl (List.cons_ne_nil _ _))
      · have hremove := remove_unknown h.free (huids ▸ huid)
        have hids : (PeerCall.removePeer uid).active uids = uids := List.erase_of_not_mem huid
        rw [hids] at hrest ⊢
        rw [← ih h huids hrest]
        constructor
        · rintro ⟨-, s, hs, hall⟩
          cases hremove.symm.trans hs
          refine ⟨fun uid' heq _ => ?_, hall⟩
          obtain rfl := PeerCall.removePeer.inj heq
          exact huid
        · rintro ⟨-, hall⟩
          exact ⟨hdistinct, session, hremove, hall⟩

end Calls

/-- **Channel numbers.** As long as at most 32 peers are active, the calls all return and give
out numbers that are pairwise distinct and in the range exactly when none but the last of them
removes a peer that is active. -/
theorem channels_allocated (server : IceServer) (calls : List PeerCall)
    (h : ∀ front, front <+: calls → (activeUids front).length ≤ 32) :
    Allocates calls { server } ↔ RemovesLast [] calls :=
  allocates_iff ⟨rfl, rfl, rfl, Nat.zero_le _⟩ rfl h

/-- Two peers, of which one is removed. -/
theorem channels_allocated_three :
    Allocates [.addPeer 1 1 ⟨1, 1⟩, .addPeer 2 2 ⟨2, 2⟩, .removePeer 1] { server := {} } := by
  let calls : List PeerCall := [.addPeer 1 1 ⟨1, 1⟩, .addPeer 2 2 ⟨2, 2⟩, .removePeer 1]
  refine (channels_allocated {} calls fun front hfront => ?_).mpr ?_
  · obtain ⟨k, rfl⟩ : ∃ k, front = calls.take k := ⟨_, (List.prefix_iff_eq_take.mp hfront)⟩
    have hk : ∀ k < 4, (activeUids (calls.take k)).length ≤ 32 := by decide
    rcases Nat.lt_or_ge k 4 with hlt | hge
    · exact hk k hlt
    · rw [List.take_of_length_le (by simp [calls]; omega)]
      decide
  · exact removesLast_cons.mpr ⟨fun _ hno => (nomatch hno), removesLast_cons.mpr
      ⟨fun _ hno => (nomatch hno), removesLast_cons.mpr
        ⟨fun _ _ hno => absurd rfl hno, removesLast_nil _⟩⟩⟩

/-- The call behind a removal waits for the mutex. And if that were given back, the cursor
would come from the number of the removed peer to that of one that is still there. -/
theorem removal_blocks :
    ¬ Allocates [.addPeer 1 1 ⟨1, 1⟩, .addPeer 2 2 ⟨2, 2⟩, .removePeer 1, .addPeer 3 3 ⟨3, 3⟩]
      { server := {} } ∧
    ∃ session, (do
      let session ← turnconnAddPeer { server := {} } 1 1 ⟨1, 1⟩
      let session ← turnconnAddPeer session 2 2 ⟨2, 2⟩
      let session ← turnconnRemovePeer session 1
      let session ← turnconnAddPeer { session with turnLock := false } 3 3 ⟨3, 3⟩
      turnconnAddPeer session 4 4 ⟨4, 4⟩) = .ret session ∧
    session.peers.map (·.channelNumber) = [0x4001, 0x4000, 0x4001] := by
  refine ⟨?_, _, rfl, rfl⟩
  rintro ⟨-, s₁, h₁, -, s₂, h₂, -, s₃, h₃, -, s₄, h₄, -⟩
  cases h₁
  cases h₂
  cases h₃
  cases h₄

end MetaRtc
