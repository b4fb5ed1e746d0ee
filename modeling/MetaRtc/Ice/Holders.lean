import MetaRtc.Ice.Shared

/-! # Who holds the shared TURN connection

Sharing is looked at apart from what goes over the connection. Sessions join, leave and
close; the calls do just this. -/
namespace MetaRtc

open Exec Function

section View

/-- What sharing is about: the sessions there are and where they point to, which addresses
have a connection, and the count. -/
structure IceView where
  session : Nat → Option (Option Nat)
  created : Nat
  live : Nat → Bool
  fresh : Nat
  turnConnection : Option Nat
  turnCount : Nat

def IceWorld.view (w : IceWorld) : IceView where
  session i := (w.sessions i).map (·.turnconn)
  created := w.created
  live a := (w.connections a).isSome
  fresh := w.fresh
  turnConnection := w.turnConnection
  turnCount := w.turnCount

def pointing (n : Nat) (session : Nat → Option (Option Nat)) : Finset Nat :=
  (Finset.range n).filter fun i => (session i).join.isSome

namespace IceView

variable {v : IceView} {i a : Nat}

def create (v : IceView) : IceView :=
  { v with session := update v.session v.created (some none), created := v.created + 1 }

/-- A session that holds no connection takes the shared one, which is made for the first. -/
def join (v : IceView) (i : Nat) : IceView :=
  match v.turnConnection with
  | some a =>
    { v with
      session := update v.session i (some (some a))
      turnCount := (v.turnCount + 1) % 2 ^ 32 }
  | none =>
    { v with
      session := update v.session i (some (some v.fresh))
      live := update v.live v.fresh true
      fresh := v.fresh + 1
      turnConnection := some v.fresh
      turnCount := (v.turnCount + 1) % 2 ^ 32 }

def drop (v : IceView) (a : Nat) : IceView :=
  { v with live := update v.live a false, turnConnection := none }

def close (v : IceView) (i a : Nat) : IceView :=
  { v.drop a with session := update v.session i (some none), turnCount := 0 }

def leave (v : IceView) (i a : Nat) : IceView :=
  let v := { v with
    session := update v.session i none
    turnCount := (v.turnCount + 2 ^ 32 - 1) % 2 ^ 32 }
  if v.turnCount = 0 then v.drop a else v

def remove (v : IceView) (i : Nat) : IceView := { v with session := update v.session i none }

structure Sound (v : IceView) : Prop where
  count : v.turnCount = (pointing v.created v.session).card
  shared : ∀ i a, v.session i = some (some a) → v.turnConnection = some a
  positive : v.turnConnection.isSome → 0 < v.turnCount
  live : ∀ a, v.live a = true ↔ v.turnConnection = some a
  used : ∀ a, v.turnConnection = some a → a < v.fresh
  known : ∀ i, (v.session i).isSome → i < v.created
  room : v.turnCount < 2 ^ 32

end IceView

section Pointing

variable {n i a : Nat} {session : Nat → Option (Option Nat)} {p : Option (Option Nat)}

theorem mem_pointing : i ∈ pointing n session ↔ i < n ∧ (session i).join.isSome := by
  rw [pointing, Finset.mem_filter, Finset.mem_range]

theorem pointing_update_some (hi : i < n) :
    pointing n (update session i (some (some a))) = insert i (pointing n session) := by
  ext j
  rw [Finset.mem_insert, mem_pointing, mem_pointing]
  by_cases hj : j = i
  · subst hj
    simp [hi]
  · simp [hj]

theorem pointing_update_none (hp : p.join = none) :
    pointing n (update session i p) = (pointing n session).erase i := by
  ext j
  rw [Finset.mem_erase, mem_pointing, mem_pointing]
  by_cases hj : j = i
  · subst hj
    simp [hp]
  · simp [hj]

theorem pointing_succ (hn : session n = none) :
    pointing (n + 1) (update session n (some none)) = pointing n session := by
  ext j
  rw [mem_pointing, mem_pointing]
  by_cases hj : j = n
  · subst hj
    simp
  · simp only [update_of_ne hj]
    exact and_congr_left' (by omega)

end Pointing

namespace IceView

variable {v : IceView} {i a : Nat}

namespace Sound

theorem create (h : v.Sound) : v.create.Sound where
  count := by
    have hnew : v.session v.created = none := by
      by_contra hne
      exact absurd (h.known _ (Option.isSome_iff_ne_none.mpr hne)) (Nat.lt_irrefl _)
    simp only [IceView.create, pointing_succ hnew]
    exact h.count
  shared j b hj := by
    by_cases hjn : j = v.created
    · subst hjn
      simp [IceView.create] at hj
    · exact h.shared j b (by simpa [IceView.create, hjn] using hj)
  positive := h.positive
  live := h.live
  used := h.used
  known j hj := by
    by_cases hjn : j = v.created
    · subst hjn
      exact Nat.lt_succ_self _
    · exact Nat.lt_succ_of_lt (h.known j (by simpa [IceView.create, hjn] using hj))
  room := h.room

theorem no_holder (h : v.Sound) (hnone : v.turnConnection = none) (j b : Nat) :
    v.session j ≠ some (some b) := by
  intro hj
  rw [h.shared j b hj] at hnone
  cases hnone

/-- A session that holds nothing is counted once it has joined. -/
theorem card_join (h : v.Sound) (hi : v.session i = some none)
    (hlt : (pointing v.created v.session).card + 1 < 2 ^ 32) :
    (v.turnCount + 1) % 2 ^ 32 =
      (pointing v.created (update v.session i (some (some a)))).card := by
  have hin : i ∉ pointing v.created v.session := by
    rw [mem_pointing, hi]
    simp
  rw [pointing_update_some (h.known i (by rw [hi]; rfl)), Finset.card_insert_of_notMem hin,
    h.count, Nat.mod_eq_of_lt hlt]

theorem join (h : v.Sound) (hi : v.session i = some none)
    (hlt : (pointing v.created v.session).card + 1 < 2 ^ 32) : (v.join i).Sound := by
  have hpos : 0 < (v.turnCount + 1) % 2 ^ 32 := by
    rw [h.count, Nat.mod_eq_of_lt hlt]
    exact Nat.succ_pos _
  have hknown : ∀ (p : Option (Option Nat)) j, (update v.session i p j).isSome → j < v.created := by
    intro p j hj
    by_cases hji : j = i
    · subst hji
      exact h.known j (by rw [hi]; rfl)
    · exact h.known j (by simpa [hji] using hj)
  have hroom : (v.turnCount + 1) % 2 ^ 32 < 2 ^ 32 := Nat.mod_lt _ (by decide)
  unfold IceView.join
  split
  · rename_i a ha
    refine ⟨h.card_join hi hlt, ?_, fun _ => hpos, h.live, h.used, hknown _, hroom⟩
    intro j b hj
    by_cases hji : j = i
    · subst hji
      rw [show b = a by simpa using hj.symm]
      exact ha
    · exact h.shared j b (by simpa [hji] using hj)
  · rename_i hnone
    refine ⟨h.card_join hi hlt, ?_, fun _ => hpos, ?_, ?_, hknown _, hroom⟩
    · intro j b hj
      by_cases hji : j = i
      · subst hji
        simpa using hj
      · exact absurd (by simpa [hji] using hj) (h.no_holder hnone j b)
    · intro b
      by_cases hb : b = v.fresh
      · subst hb
        simp
      · have hdead : v.live b ≠ true := by
          rw [Ne, h.live, hnone]
          simp
        simpa [hb, Ne.symm hb] using hdead
    · intro b hb
      obtain rfl := Option.some.inj hb
      exact Nat.lt_succ_self _

/-- Once no session points to a connection, it may go. -/
theorem drop (h : v.Sound) (ha : v.turnConnection = some a) {session : Nat → Option (Option Nat)}
    (hnone : ∀ j b, session j ≠ some (some b)) (hknown : ∀ j, (session j).isSome → j < v.created) :
    ({ v.drop a with session, turnCount := 0 } : IceView).Sound where
  count := by
    rw [eq_comm, Finset.card_eq_zero, Finset.eq_empty_iff_forall_notMem]
    intro j hj
    obtain ⟨b, hb⟩ := Option.isSome_iff_exists.mp (mem_pointing.mp hj).2
    exact hnone j b (Option.join_eq_some_iff.mp hb)
  shared j b hj := absurd hj (hnone j b)
  positive hsome := by cases hsome
  live b := by
    by_cases hb : b = a
    · subst hb
      simp [IceView.drop]
    · have hdead : v.live b ≠ true := by
        rw [Ne, h.live, ha]
        simpa using Ne.symm hb
      simpa [IceView.drop, hb] using hdead
  used b hb := by cases hb
  known := hknown
  room := Nat.two_pow_pos 32

theorem close (h : v.Sound) (ha : v.turnConnection = some a) (hi : (v.session i).isSome)
    (hone : ∀ j b, v.session j = some (some b) → j = i) : (v.close i a).Sound := by
  refine h.drop ha ?_ ?_
  · intro j b hj
    by_cases hji : j = i
    · subst hji
      simp at hj
    · exact hji (hone j b (by simpa [hji] using hj))
  · intro j hj
    by_cases hji : j = i
    · subst hji
      exact h.known j hi
    · exact h.known j (by simpa [hji] using hj)

/-- The last one to leave turns off the light. -/
theorem leave (h : v.Sound) (hi : v.session i = some (some a)) : (v.leave i a).Sound := by
  have ha := h.shared i a hi
  have hlt := h.count ▸ h.room
  have hin : i ∈ pointing v.created v.session :=
    mem_pointing.mpr ⟨h.known i (by rw [hi]; rfl), by rw [hi]; rfl⟩
  have hcard : (pointing v.created (update v.session i none)).card =
      (pointing v.created v.session).card - 1 := by
    rw [pointing_update_none rfl, Finset.card_erase_of_mem hin]
  have hpos : 0 < (pointing v.created v.session).card := Finset.card_pos.mpr ⟨i, hin⟩
  have hcount : (v.turnCount + 2 ^ 32 - 1) % 2 ^ 32 =
      (pointing v.created (update v.session i none)).card := by
    rw [hcard, h.count]
    omega
  have hsession : ∀ j p, update v.session i none j = some p → j ≠ i ∧ v.session j = some p := by
    intro j p hj
    by_cases hji : j = i
    · subst hji
      simp at hj
    · exact ⟨hji, by simpa [hji] using hj⟩
  have hknown : ∀ j, (update v.session i none j).isSome → j < v.created := by
    intro j hj
    obtain ⟨p, hp⟩ := Option.isSome_iff_exists.mp hj
    exact h.known j (by rw [(hsession j p hp).2]; rfl)
  simp only [IceView.leave]
  split
  · rename_i hzero
    rw [hzero]
    refine h.drop ha ?_ hknown
    intro j b hj
    have hj' : update v.session i none j = some (some b) := hj
    have hmem : j ∈ pointing v.created (update v.session i none) :=
      mem_pointing.mpr ⟨hknown j (by rw [hj']; rfl), by rw [hj']; rfl⟩
    rw [Finset.card_eq_zero.mp (hcount.symm.trans hzero)] at hmem
    cases hmem
  · rename_i hnonzero
    exact ⟨hcount, fun j b hj => h.shared j b (hsession j _ hj).2,
      fun _ => Nat.pos_of_ne_zero hnonzero, h.live, h.used, hknown, Nat.mod_lt _ (by decide)⟩

theorem remove (h : v.Sound) (hi : v.session i = some none) : (v.remove i).Sound where
  count := by
    have hin : i ∉ pointing v.created v.session := by
      rw [mem_pointing, hi]
      simp
    rw [IceView.remove, pointing_update_none rfl, Finset.erase_eq_of_notMem hin]
    exact h.count
  shared j b hj := by
    by_cases hji : j = i
    · subst hji
      simp [IceView.remove] at hj
    · exact h.shared j b (by simpa [IceView.remove, hji] using hj)
  positive := h.positive
  live := h.live
  used := h.used
  known j hj := by
    by_cases hji : j = i
    · subst hji
      simp [IceView.remove] at hj
    · exact h.known j (by simpa [IceView.remove, hji] using hj)
  room := h.room

end Sound

end IceView

end View

section Refinement

variable {w w' : IceWorld} {i a : Nat} {session session' : IceSession} {conn : TurnWorld} {err : Err}
  {answers : IceAnswers} {receiveUser : Nat} {address : IpAddress}

theorem view_setConnection (ha : w.connections a = some conn) (new : TurnWorld) :
    (w.setConnection a new).view = w.view := by
  have hlive : (fun b => (update w.connections a (some new) b).isSome) =
      fun b => (w.connections b).isSome := by
    funext b
    by_cases hb : b = a
    · subst hb
      simp [ha]
    · simp [hb]
  simp only [IceWorld.view, IceWorld.setConnection, hlive]

/-- A session may change in all but its connection. -/
theorem view_setSession (hi : w.sessions i = some session)
    (hsame : session'.turnconn = session.turnconn) : (w.setSession i session').view = w.view := by
  have hsession : (fun j => (update w.sessions i (some session') j).map (·.turnconn)) =
      fun j => (w.sessions j).map (·.turnconn) := by
    funext j
    by_cases hj : j = i
    · subst hj
      simp [hi, hsame]
    · simp [hj]
  simp only [IceWorld.view, IceWorld.setSession, hsession]

theorem view_session (hi : w.sessions i = some session) :
    w.view.session i = some session.turnconn := by
  simp [IceWorld.view, hi]

theorem turnconnStopAt_view (h : turnconnStopAt w a = .ret w') :
    w'.view = w.view ∧ w'.sessions = w.sessions ∧ w'.turnConnection = w.turnConnection := by
  obtain ⟨conn, hconn, h⟩ := Call.bind_eq_ret.mp h
  obtain ⟨new, -, h⟩ := Call.bind_eq_ret.mp h
  cases h
  exact ⟨view_setConnection (Call.deref_eq_ret.mp hconn) new, rfl, rfl⟩

theorem iceFallBack_turnconn (session : IceSession) (stun : Option IpAddress) :
    (iceFallBack session stun).turnconn = session.turnconn := by
  cases stun <;> rfl

/-- What taking the connection does to the sharing, whatever then happens at the connection. -/
theorem iceGetTurn_view {server : IceServer} {turnconn : Option Nat}
    (hlive : ∀ a, w.turnConnection = some a → (w.connections a).isSome)
    (h : iceGetTurn w server = (turnconn, w')) (hnew : session'.turnconn = turnconn)
    (ha : turnconn = some a) (new : TurnWorld) :
    ((w'.setConnection a new).setSession i session').view = w.view.join i := by
  subst hnew
  have hsession : ∀ p, session'.turnconn = p →
      (fun j => (update w.sessions i (some session') j).map (·.turnconn)) =
        update (fun j => (w.sessions j).map (·.turnconn)) i (some p) := by
    intro p hp
    funext j
    by_cases hj : j = i
    · subst hj
      simp [hp]
    · simp [hj]
  have hupdate : ∀ (connections : Nat → Option TurnWorld) (a : Nat) (new : TurnWorld),
      (fun b => (update connections a (some new) b).isSome) =
        update (fun b => (connections b).isSome) a true := by
    intro connections a new
    funext b
    by_cases hb : b = a
    · subst hb
      simp
    · simp [hb]
  unfold iceGetTurn at h
  split at h
  · rename_i b hb
    rw [Prod.mk.injEq] at h
    obtain ⟨hp, rfl⟩ := h
    obtain rfl : b = a := Option.some.inj (hb.symm.trans (hp.trans ha))
    simp only [IceWorld.view, IceWorld.setConnection, IceWorld.setSession, IceView.join, hb,
      hsession _ ha, hupdate]
    rw [show update (fun c => (w.connections c).isSome) b true = fun c => (w.connections c).isSome
      from update_eq_self_iff.mpr (hlive b hb).symm]
  · rename_i hnone
    rw [Prod.mk.injEq] at h
    obtain ⟨hp, rfl⟩ := h
    obtain rfl : w.fresh = a := Option.some.inj (hp.trans ha)
    simp only [IceWorld.view, IceWorld.setConnection, IceWorld.setSession, IceView.join, hnone,
      hsession _ ha, hupdate, update_idem]

theorem iceHoldTurn_view {turnconn : Option Nat} (hi : w.sessions i = some session)
    (hlive : ∀ a, w.turnConnection = some a → (w.connections a).isSome)
    (h : iceHoldTurn w session = (turnconn, w')) (hnew : session'.turnconn = turnconn)
    (ha : turnconn = some a) (hconn : w'.connections a = some conn) (new : TurnWorld) :
    ((w'.setConnection a new).setSession i session').view =
      if session.turnconn = none then w.view.join i else w.view := by
  unfold iceHoldTurn at h
  split at h
  · rename_i b hb
    cases h
    have hi' : (w.setConnection a new).sessions i = some session := hi
    rw [if_neg (by simp [hb]), view_setSession hi' (hnew.trans hb.symm),
      view_setConnection hconn]
  · rename_i hnone
    rw [if_pos hnone, iceGetTurn_view hlive h hnew ha]

theorem iceInitTurn_view (hi : w.sessions i = some session)
    (hlive : ∀ a, w.turnConnection = some a → (w.connections a).isSome)
    (h : iceInitTurn w i answers = .ret (err, w')) :
    session.isTurnAllocated = true ∧ w' = w ∧ err = yangOk ∨
      session.isTurnAllocated = false ∧ (err ≠ yangOk → answers.allocated = false) ∧
        w'.view = if session.turnconn = none then w.view.join i else w.view := by
  unfold iceInitTurn at h
  rw [hi, Call.deref_some, Call.ret_bind] at h
  split at h
  · rename_i hallocated
    cases h
    exact .inl ⟨hallocated, rfl, rfl⟩
  · rename_i hallocated
    refine .inr ⟨Bool.eq_false_iff.mpr hallocated, ?_⟩
    cases hhold : iceHoldTurn w session with
    | mk turnconn mid =>
    rw [hhold] at h
    obtain ⟨a, ha, h⟩ := Call.bind_eq_ret.mp h
    obtain ⟨conn, hconn, h⟩ := Call.bind_eq_ret.mp h
    obtain ⟨started, -, h⟩ := Call.bind_eq_ret.mp h
    obtain ⟨waited, -, h⟩ := Call.bind_eq_ret.mp h
    have hdone : ∀ session' : IceSession, session'.turnconn = turnconn →
        ((mid.setConnection a waited).setSession i session').view =
          if session.turnconn = none then w.view.join i else w.view :=
      fun session' hnew => iceHoldTurn_view hi hlive hhold hnew (Call.deref_eq_ret.mp ha)
        (Call.deref_eq_ret.mp hconn) waited
    dsimp only at h
    split at h
    · cases h
      exact ⟨fun hne => absurd rfl hne, hdone _ rfl⟩
    · rename_i hans
      obtain ⟨stopped, hstop, h⟩ := Call.bind_eq_ret.mp h
      cases h
      exact ⟨fun _ => Bool.eq_false_iff.mpr hans, (turnconnStopAt_view hstop).1.trans (hdone _ rfl)⟩

theorem iceAddPeer_view (h : iceAddPeer w i answers receiveUser address = .ret (err, w')) :
    (err ≠ yangOk → answers.ready = false) ∧ w'.view = w.view := by
  obtain ⟨session, hi, h⟩ := Call.bind_eq_ret.mp h
  obtain ⟨a, ha, h⟩ := Call.bind_eq_ret.mp h
  obtain ⟨conn, hconn, h⟩ := Call.bind_eq_ret.mp h
  obtain ⟨added, -, h⟩ := Call.bind_eq_ret.mp h
  obtain ⟨waited, -, h⟩ := Call.bind_eq_ret.mp h
  rw [Call.pure_eq, Call.ret.injEq, Prod.mk.injEq] at h
  obtain ⟨rfl, rfl⟩ := h
  refine ⟨fun hne => ?_, ?_⟩
  · by_contra hready
    rw [if_pos (Bool.not_eq_false _ ▸ hready)] at hne
    exact hne rfl
  · have hi' : (w.setConnection a waited).sessions i = some session := Call.deref_eq_ret.mp hi
    refine (view_setSession hi' ?_).trans (view_setConnection (Call.deref_eq_ret.mp hconn) _)
    rfl

theorem iceRequestTurnServer_view (hi : w.sessions i = some session)
    (hlive : ∀ a, w.turnConnection = some a → (w.connections a).isSome)
    (h : iceRequestTurnServer w i answers receiveUser address = .ret (err, w')) :
    (err ≠ yangOk → answers.ready = false ∨
      session.turnconn ≠ none ∧ session.isTurnAllocated = false) ∧
    w'.view = if session.turnconn = none ∧ session.isTurnAllocated = false then w.view.join i
      else w.view := by
  unfold iceRequestTurnServer at h
  rw [hi, Call.deref_some, Call.ret_bind] at h
  split at h
  · rename_i hnone
    obtain ⟨⟨err', mid⟩, hinit, h⟩ := Call.bind_eq_ret.mp h
    obtain ⟨herr, hview⟩ := iceAddPeer_view h
    refine ⟨fun hne => .inl (herr hne), ?_⟩
    rw [hview]
    obtain ⟨hallocated, rfl, -⟩ | ⟨hallocated, -, hmid⟩ := iceInitTurn_view hi hlive hinit
    · rw [if_neg (by simp [hallocated])]
    · rw [hmid, if_pos hnone, if_pos ⟨hnone, hallocated⟩]
  · rename_i hsome
    rw [if_neg (fun hc => hsome hc.1)]
    split at h
    · rename_i hallocated
      cases h
      exact ⟨fun _ => .inr ⟨hsome, hallocated⟩, rfl⟩
    · obtain ⟨herr, hview⟩ := iceAddPeer_view h
      exact ⟨fun hne => .inl (herr hne), hview⟩

theorem view_dropConnection : (w.dropConnection a).view = w.view.drop a := by
  have hlive : (fun b => (update w.connections a none b).isSome) =
      update (fun b => (w.connections b).isSome) a false := by
    funext b
    by_cases hb : b = a
    · subst hb
      simp
    · simp [hb]
  simp only [IceWorld.view, IceWorld.dropConnection, IceView.drop, hlive]

theorem iceCloseTurn_view (h : iceCloseTurn w i = .ret w') :
    ∃ a, w.turnConnection = some a ∧ (w.sessions i).isSome ∧ w'.view = w.view.close i a := by
  obtain ⟨a, ha, h⟩ := Call.bind_eq_ret.mp h
  obtain ⟨stopped, hstop, h⟩ := Call.bind_eq_ret.mp h
  obtain ⟨session, hi, h⟩ := Call.bind_eq_ret.mp h
  cases h
  obtain ⟨hview, hsessions, -⟩ := turnconnStopAt_view hstop
  have hi' : w.sessions i = some session := hsessions ▸ Call.deref_eq_ret.mp hi
  refine ⟨a, Call.deref_eq_ret.mp ha, by rw [hi']; rfl, ?_⟩
  have hsession : (fun j => (update stopped.sessions i (some { session with turnconn := none }) j).map
      (·.turnconn)) = update (fun j => (stopped.sessions j).map (·.turnconn)) i (some none) := by
    funext j
    by_cases hj : j = i
    · subst hj
      simp
    · simp [hj]
  rw [IceView.close, ← hview, ← view_dropConnection]
  simp only [IceWorld.view, IceWorld.setSession, IceWorld.dropConnection, hsession]

theorem destroyIce_view (hi : w.sessions i = some session)
    (hshared : ∀ a, session.turnconn = some a → w.turnConnection = some a)
    (h : destroyIce w i = .ret w') :
    (session.turnconn = none → w'.view = w.view.remove i) ∧
      ∀ a, session.turnconn = some a → w'.view = w.view.leave i a := by
  have hsession : (fun j => (update w.sessions i none j).map (·.turnconn)) =
      update (fun j => (w.sessions j).map (·.turnconn)) i none := by
    funext j
    by_cases hj : j = i
    · subst hj
      simp
    · simp [hj]
  unfold destroyIce at h
  rw [hi, Call.deref_some, Call.ret_bind] at h
  split at h
  · rename_i hnone
    cases h
    refine ⟨fun _ => ?_, fun a ha => absurd (hnone.symm.trans ha) (by simp)⟩
    simp only [IceWorld.view, IceView.remove, hsession]
  · rename_i a ha
    obtain ⟨conn, hconn, h⟩ := Call.bind_eq_ret.mp h
    obtain ⟨removed, -, h⟩ := Call.bind_eq_ret.mp h
    have hkept := view_setConnection (Call.deref_eq_ret.mp hconn) removed
    refine ⟨fun hnone => absurd (ha.symm.trans hnone) (by simp), fun b hb => ?_⟩
    obtain rfl : a = b := Option.some.inj (ha.symm.trans hb)
    rw [IceView.leave, ← hkept]
    dsimp only at h
    split at h
    · rename_i hzero
      obtain ⟨a', ha', h⟩ := Call.bind_eq_ret.mp h
      obtain ⟨stopped, hstop, h⟩ := Call.bind_eq_ret.mp h
      obtain rfl : a = a' :=
        Option.some.inj ((hshared a ha).symm.trans (Call.deref_eq_ret.mp ha'))
      cases h
      refine Eq.trans ?_ (if_pos hzero).symm
      rw [view_dropConnection, (turnconnStopAt_view hstop).1]
      simp only [IceWorld.view, IceWorld.setConnection, hsession]
    · rename_i hnonzero
      cases h
      refine Eq.trans ?_ (if_neg hnonzero).symm
      simp only [IceWorld.view, IceWorld.setConnection, hsession]

end Refinement

namespace IceView.Sound

variable {w : IceWorld} {i a : Nat} {session : IceSession}

theorem turnConnection_live (h : w.view.Sound) (ha : w.turnConnection = some a) :
    (w.connections a).isSome := (h.live a).mpr ha

theorem holders_eq (h : w.view.Sound) : w.holders = pointing w.created w.view.session := by
  ext i
  rw [IceWorld.holders, Finset.mem_filter, Finset.mem_range, mem_pointing]
  refine and_congr_right fun _ => ?_
  have hjoin : (w.view.session i).join = w.pointer i := by
    cases hi : w.sessions i <;> simp [IceWorld.view, IceWorld.pointer, hi]
  rw [hjoin]
  refine ⟨And.left, fun hsome => ⟨hsome, ?_⟩⟩
  obtain ⟨a, ha⟩ := Option.isSome_iff_exists.mp hsome
  rw [ha, eq_comm]
  exact h.shared i a (Option.join_eq_some_iff.mp (hjoin.trans ha))

theorem counted (h : w.view.Sound) : w.Counted where
  count := by
    rw [h.holders_eq]
    exact h.count
  exists_iff := by
    constructor
    · rintro ⟨a, ha, -⟩
      exact h.positive (show w.turnConnection.isSome by rw [ha]; rfl)
    · intro hpos
      rw [show w.turnCount = _ from h.count, Finset.card_pos] at hpos
      obtain ⟨i, hi⟩ := hpos
      obtain ⟨a, ha⟩ := Option.isSome_iff_exists.mp (mem_pointing.mp hi).2
      have hshared := h.shared i a (Option.join_eq_some_iff.mp ha)
      exact ⟨a, hshared, h.turnConnection_live hshared⟩
  alive i a hi := by
    obtain ⟨session, hsession, hturn⟩ := Option.bind_eq_some_iff.mp hi
    refine h.turnConnection_live (h.shared i a ?_)
    rw [view_session hsession, hturn]

end IceView.Sound

section Events

/-- The session that an event makes take the shared connection. -/
def IceEvent.Joins (w : IceWorld) (i : Nat) : IceEvent → Prop
  | .initIce j _ | .handle j _ _ _ _ => j = i ∧ ∃ session, w.sessions i = some session ∧
      session.candidateType = .turn ∧ session.turnconn = none ∧ session.isTurnAllocated = false
  | _ => False

/-- The session that an event makes close the shared connection: when asked to, and when its
server does not answer. -/
def IceEvent.Closes (w : IceWorld) (i : Nat) : IceEvent → Prop
  | .closeTurn j => j = i
  | .initIce j answers => j = i ∧ ∃ session, w.sessions i = some session ∧
      session.candidateType = .turn ∧ session.isTurnAllocated = false ∧
      answers.allocated = false ∧ answers.stun = none
  | .handle j _ answers _ _ => j = i ∧ ∃ session, w.sessions i = some session ∧
      session.candidateType = .turn ∧ (answers.ready = false ∨
        session.turnconn ≠ none ∧ session.isTurnAllocated = false)
  | _ => False

/-- No other session holds the connection that is closed, and the count has room. -/
def ClosesAlone (w : IceWorld) (e : IceEvent) : Prop :=
  (∀ i, e.Closes w i → w.holders ⊆ {i}) ∧ ∀ i, e.Joins w i → w.holders.card + 1 < 2 ^ 32

variable {w w' w₀ : IceWorld} {i a : Nat} {session : IceSession} {answers : IceAnswers} {e : IceEvent}

theorem IceView.Sound.joined (h : w.view.Sound) (hi : w.sessions i = some session)
    (hnone : session.turnconn = none) (hroom : w.holders.card + 1 < 2 ^ 32) :
    (w.view.join i).Sound := by
  refine h.join ?_ (h.holders_eq ▸ hroom)
  rw [view_session hi, hnone]

theorem joined_session {v : IceView} {p : Option Nat} {j : Nat}
    (h : (v.join i).session j = some p) (hj : j ≠ i) : v.session j = some p := by
  unfold IceView.join at h
  split at h <;> simpa [hj] using h

/-- A close by the only holder, after it may just have joined. -/
theorem IceView.Sound.closed (h : w.view.Sound) (hv : w₀.view.Sound)
    (hsub : ∀ j p, w₀.view.session j = some (some p) → j ≠ i → w.view.session j = some (some p))
    (hone : w.holders ⊆ {i}) (hclose : iceCloseTurn w₀ i = .ret w') : w'.view.Sound := by
  obtain ⟨a, ha, hi, hview⟩ := iceCloseTurn_view hclose
  rw [hview]
  refine hv.close ha (by simpa [IceWorld.view] using hi) fun j p hj => ?_
  by_contra hne
  have hmem : j ∈ w.holders := by
    rw [h.holders_eq, mem_pointing]
    have hold := hsub j p hj hne
    exact ⟨h.known j (by rw [hold]; rfl), by rw [hold]; rfl⟩
  exact hne (Finset.mem_singleton.mp (hone hmem))

theorem view_createIce (uid : Int) (candidateType : IceCandidateType) (server : IceServer) :
    (createIce w uid candidateType server).view = w.view.create := by
  have hsession : (fun j => (update w.sessions w.created (some { uid, candidateType, server }) j).map
      (·.turnconn)) = update (fun j => (w.sessions j).map (·.turnconn)) w.created (some none) := by
    funext j
    by_cases hj : j = w.created
    · subst hj
      simp
    · simp [hj]
  simp only [createIce, IceWorld.view, IceWorld.setSession, IceView.create, hsession]

/-- A session whose server has not answered turns to the next kind of candidate. -/
theorem view_fallBack (hi : w.sessions i = some session) (candidateType : IceCandidateType)
    (stun : Option IpAddress) :
    (w.setSession i (iceFallBack { session with candidateType } stun)).view = w.view := by
  refine view_setSession hi ?_
  rw [iceFallBack_turnconn]

theorem iceInitIce_sound (h : w.view.Sound) (hc : ClosesAlone w (.initIce i answers))
    (hstep : iceInitIce w i answers = .ret w') : w'.view.Sound := by
  obtain ⟨session, hi, hstep⟩ := Call.bind_eq_ret.mp hstep
  replace hi := Call.deref_eq_ret.mp hi
  split at hstep
  · cases hstep
    exact h
  · cases hstep
    rw [view_setSession hi (iceFallBack_turnconn session _)]
    exact h
  · rename_i hturn
    obtain ⟨⟨err, mid⟩, hinit, hstep⟩ := Call.bind_eq_ret.mp hstep
    obtain ⟨-, rfl, rfl⟩ | ⟨hallocated, herr, hmid⟩ :=
      iceInitTurn_view hi (fun a => h.turnConnection_live) hinit
    · cases hstep
      exact h
    · -- The session has taken the connection, if it had none.
      obtain ⟨hsound, hsub⟩ : mid.view.Sound ∧ ∀ j p, mid.view.session j = some (some p) → j ≠ i →
          w.view.session j = some (some p) := by
        rw [hmid]
        split
        · rename_i hnone
          exact ⟨h.joined hi hnone (hc.2 i ⟨rfl, session, hi, hturn, hnone, hallocated⟩),
            fun j p => joined_session⟩
        · exact ⟨h, fun j p hj _ => hj⟩
      dsimp only at hstep
      split at hstep
      · cases hstep
        exact hsound
      · rename_i hne
        obtain ⟨middle, hmiddle, hstep⟩ := Call.bind_eq_ret.mp hstep
        have hback := view_fallBack (Call.deref_eq_ret.mp hmiddle) .stun answers.stun
        split at hstep
        · rename_i hstun
          refine h.closed (hback ▸ hsound) (hback ▸ hsub) ?_ hstep
          exact hc.1 i ⟨rfl, session, hi, hturn, hallocated, herr hne, hstun⟩
        · cases hstep
          rw [hback]
          exact hsound

theorem iceHandle_sound {isServer : Bool} {receiveUser : Nat} {address : IpAddress}
    (h : w.view.Sound) (hc : ClosesAlone w (.handle i isServer answers receiveUser address))
    (hstep : iceHandle w i isServer answers receiveUser address = .ret w') : w'.view.Sound := by
  obtain ⟨session, hi, hstep⟩ := Call.bind_eq_ret.mp hstep
  replace hi := Call.deref_eq_ret.mp hi
  split at hstep
  · cases hstep
    exact h
  · split at hstep
    · cases hstep
      rw [view_setSession hi (iceFallBack_turnconn session _)]
      exact h
    · cases hstep
      exact h
  · rename_i hturn
    obtain ⟨⟨err, mid⟩, hrequest, hstep⟩ := Call.bind_eq_ret.mp hstep
    obtain ⟨herr, hmid⟩ := iceRequestTurnServer_view hi (fun a => h.turnConnection_live) hrequest
    obtain ⟨hsound, hsub⟩ : mid.view.Sound ∧ ∀ j p, mid.view.session j = some (some p) → j ≠ i →
        w.view.session j = some (some p) := by
      rw [hmid]
      split
      · rename_i hjoin
        exact ⟨h.joined hi hjoin.1 (hc.2 i ⟨rfl, session, hi, hturn, hjoin⟩),
          fun j p => joined_session⟩
      · exact ⟨h, fun j p hj _ => hj⟩
    dsimp only at hstep
    split at hstep
    · cases hstep
      exact hsound
    · rename_i hne
      obtain ⟨closed, hclose, hstep⟩ := Call.bind_eq_ret.mp hstep
      obtain ⟨middle, hmiddle, hstep⟩ := Call.bind_eq_ret.mp hstep
      cases hstep
      rw [view_fallBack (Call.deref_eq_ret.mp hmiddle)]
      exact h.closed hsound hsub (hc.1 i ⟨rfl, session, hi, hturn, herr hne⟩) hclose

theorem destroyIce_sound (h : w.view.Sound) (hstep : destroyIce w i = .ret w') : w'.view.Sound := by
  obtain ⟨session, hi, -⟩ := Call.bind_eq_ret.mp hstep
  replace hi := Call.deref_eq_ret.mp hi
  have hview := view_session hi
  obtain ⟨hremove, hleave⟩ := destroyIce_view hi (fun a ha => h.shared i a (by rw [hview, ha])) hstep
  cases hturn : session.turnconn with
  | none =>
    rw [hremove hturn]
    exact h.remove (by rw [hview, hturn])
  | some a =>
    rw [hleave a hturn]
    exact h.leave (by rw [hview, hturn])

theorem iceStep_sound (h : w.view.Sound) (hc : ClosesAlone w e) (hstep : IceStep w e w') :
    w'.view.Sound := by
  cases e with
  | create uid candidateType server =>
    cases hstep
    rw [view_createIce]
    exact h.create
  | initIce i answers => exact iceInitIce_sound h hc hstep
  | handle i isServer answers receiveUser address => exact iceHandle_sound h hc hstep
  | closeTurn i => exact h.closed h (fun j p hj _ => hj) (hc.1 i rfl) hstep
  | destroy i => exact destroyIce_sound h hstep
  | turn event =>
    obtain ⟨a, -, hstep⟩ := Call.bind_eq_ret.mp hstep
    obtain ⟨conn, hconn, hstep⟩ := Call.bind_eq_ret.mp hstep
    obtain ⟨new, -, hstep⟩ := Call.bind_eq_ret.mp hstep
    cases hstep
    rw [view_setConnection (Call.deref_eq_ret.mp hconn)]
    exact h

theorem sound_start : ({} : IceWorld).view.Sound where
  count := rfl
  shared _ _ h := nomatch h
  positive h := nomatch h
  live _ := ⟨(nomatch ·), (nomatch ·)⟩
  used _ h := nomatch h
  known _ h := nomatch h
  room := by decide

/-- While nobody else holds a connection that is closed, the count is that of the sessions
that hold the connection. -/
theorem sharing_counted {es : List IceEvent} (hrun : Run.Leads IceStep es {} w)
    (hall : Run.Throughout IceStep ClosesAlone es {}) : w.Counted :=
  (Run.leads_invariant (fun s : IceWorld => s.view.Sound) (fun _ _ _ => iceStep_sound) hrun sound_start hall).counted

theorem holders_card_le : w.holders.card ≤ w.created :=
  (Finset.card_filter_le _ _).trans_eq (Finset.card_range _)

/-- The server gives an allocation at once. -/
def allocatedAnswers : IceAnswers where
  allocating := turnOpening.tail
  allocated := true
  ready := true
  stun := none

def twoSessions : List IceEvent :=
  [.create 1 .turn {}, .create 2 .turn {}, .initIce 0 allocatedAnswers,
    .initIce 1 { allocatedAnswers with allocating := [] }]

theorem joins_closesAlone (ha : answers.allocated = true) (hw : w.created = 2) :
    ClosesAlone w (.initIce i answers) := by
  refine ⟨?_, fun j _ => ?_⟩
  · rintro j ⟨-, session, -, -, -, hans, -⟩
    rw [ha] at hans
    cases hans
  · have hle := holders_card_le (w := w)
    omega

set_option maxRecDepth 8000 in
/-- The first of two sessions goes, and the other still has its connection. -/
theorem sharing_counted_two : ∃ w, Run.Leads IceStep (twoSessions ++ [.destroy 0]) {} w ∧
    w.turnCount = 1 ∧ w.Counted := by
  obtain ⟨w, hw, hcount⟩ : ∃ w, (twoSessions ++ [IceEvent.destroy 0]).foldlM iceRun {} = .ret w ∧
      w.turnCount = 1 := ⟨_, rfl, rfl⟩
  have hrun : Run.Leads IceStep (twoSessions ++ [.destroy 0]) {} w := leads_of_foldlM hw
  refine ⟨w, hrun, hcount, sharing_counted hrun ?_⟩
  have hquiet : ∀ {w : IceWorld} {e : IceEvent}, (∀ i, ¬ e.Closes w i) → (∀ i, ¬ e.Joins w i) →
      ClosesAlone w e :=
    fun hclose hjoin => ⟨fun i hi => absurd hi (hclose i), fun i hi => absurd hi (hjoin i)⟩
  have hall : Run.Throughout IceStep ClosesAlone (twoSessions ++ [.destroy 0]) {} :=
    throughout_call (hquiet (fun _ => id) fun _ => id) rfl <|
      throughout_call (hquiet (fun _ => id) fun _ => id) rfl <|
      throughout_call (joins_closesAlone rfl rfl) rfl <|
      ⟨joins_closesAlone rfl rfl, fun _ _ => ⟨hquiet (fun _ => id) fun _ => id, fun _ _ => trivial⟩⟩
  exact hall

set_option maxRecDepth 8000 in
/-- One session closes the connection, and the other points to what is gone. -/
theorem closed_for_both :
    ¬ ∀ w, Run.Leads IceStep (twoSessions ++ [.closeTurn 0]) {} w → w.Counted := by
  intro h
  obtain ⟨w, hw, hpointer, hdead⟩ : ∃ w,
      (twoSessions ++ [IceEvent.closeTurn 0]).foldlM iceRun {} = .ret w ∧ w.pointer 1 = some 0 ∧
        w.connections 0 = none := ⟨_, rfl, rfl, rfl⟩
  have halive := (h w (leads_of_foldlM hw)).alive 1 0 hpointer
  rw [hdead] at halive
  cases halive

end Events

end MetaRtc
