import MetaRtc.Ice.TurnRun

/-! # The walk over the attributes of a message

Every decoder of a STUN message goes through its attributes in the same way, and differs
from the others in what it does with one. -/
namespace MetaRtc

open Bytes Exec

section Loop

variable {σ : Type}

/-- The loop over the attributes. Every pass moves the cursor, so the bytes bound the passes. -/
def attributeLoop (onAttr : σ → Nat → List UInt8 → Call σ) :
    Nat → σ → YangBuffer → Call (Err × σ)
  | 0, s, _ => .ret (yangOk, s)
  | fuel + 1, s, stream =>
    if stream.left < 4 then .ret (yangOk, s)
    else
      let (type, stream) := stream.read2bytes
      let (len, stream) := stream.read2bytes
      if stream.left < len then .ret (errorRtcStun, s)
      else
        let (val, stream) := stream.readBytes len (len + 1)
        let stream := if len % 4 ≠ 0 then stream.skip (4 - len % 4) else stream
        do
          let s ← onAttr s type val
          attributeLoop onAttr fuel s stream

/-- The attributes from a place on, up to one that is longer than what is left, and whether
there is none such. The bytes an attribute is filled up with may be missing at the end. -/
def attributeWalk (data : Mem) (size : Nat) : Nat → Nat → List (Nat × List UInt8) × Bool
  | 0, _ => ([], true)
  | fuel + 1, p =>
    if size < p + 4 then ([], true)
    else
      let len := data.be (p + 2) 2
      if size < p + 4 + len then ([], false)
      else
        let rest := attributeWalk data size fuel (p + 4 + len + (4 - len % 4) % 4)
        ((data.be p 2, data.slice (p + 4) len) :: rest.1, rest.2)

/-- The message of so many bytes is as long as it says. -/
def StunSized (data : Mem) (nb : Nat) : Prop := 20 ≤ nb ∧ nb = 20 + data.be 2 2

instance (data : Mem) (nb : Nat) : Decidable (StunSized data nb) :=
  inferInstanceAs (Decidable (_ ∧ _))

/-- What is walked over of a message, and whether it is accepted. -/
def stunWalk (data : Mem) (nb : Nat) : List (Nat × List UInt8) × Bool :=
  if StunSized data nb then attributeWalk data nb nb 20 else ([], false)

/-- The decoder's state goes through the attributes one by one. -/
def attributeFold (onAttr : σ → Nat → List UInt8 → Call σ) (s : σ)
    (attrs : List (Nat × List UInt8)) : Call σ :=
  attrs.foldlM (fun s attr => onAttr s attr.1 attr.2) s

variable {onAttr : σ → Nat → List UInt8 → Call σ} {s : σ} {stream : YangBuffer} {fuel : Nat}

/-- The buffer behind an attribute of so many bytes and what it is filled up with. -/
def attributeBehind (stream : YangBuffer) (len : Nat) : YangBuffer :=
  let read := (((stream.take 2).take 2).readBytes len (len + 1)).2
  if len % 4 ≠ 0 then read.skip (4 - len % 4) else read

theorem attributeLoop_succ (fuel : Nat) (s : σ) (stream : YangBuffer) :
    attributeLoop onAttr (fuel + 1) s stream =
      if stream.left < 4 then .ret (yangOk, s)
      else if ((stream.take 2).take 2).left < stream.data.be (stream.head + 2) 2 then
        .ret (errorRtcStun, s)
      else
        onAttr s (stream.data.be stream.head 2)
          (((stream.take 2).take 2).readBytes (stream.data.be (stream.head + 2) 2)
            (stream.data.be (stream.head + 2) 2 + 1)).1 >>= fun s =>
          attributeLoop onAttr fuel s
            (attributeBehind stream (stream.data.be (stream.head + 2) 2)) := rfl

theorem readBytes_attribute (stream : YangBuffer) (len : Nat) :
    ((stream.take 2).take 2).readBytes len (len + 1) =
      (stream.data.slice (stream.head + 4) len, ((stream.take 2).take 2).take len) := by
  have hroom : (0 : Int) ≤ len ∧ (len : Int) ≤ (len + 1 : Nat) := by omega
  rw [YangBuffer.readBytes, if_pos hroom]
  rfl

theorem behind_place (stream : YangBuffer) (len : Nat) :
    (attributeBehind stream len).data = stream.data ∧
      (attributeBehind stream len).size = stream.size ∧
      (attributeBehind stream len).head = stream.head + 4 + len + (4 - len % 4) % 4 := by
  rw [attributeBehind, readBytes_attribute]
  by_cases hfull : len % 4 = 0
  · rw [if_neg (not_not.mpr hfull)]
    refine ⟨rfl, rfl, ?_⟩
    simp only [YangBuffer.take_head]
    omega
  · rw [if_pos hfull]
    refine ⟨rfl, rfl, ?_⟩
    simp only [YangBuffer.skip_head, YangBuffer.take_head]
    omega

/-- The loop is the fold over what is walked over, and fails where the walk does. -/
theorem attributeLoop_walk (fuel : Nat) (s : σ) (stream : YangBuffer) :
    attributeLoop onAttr fuel s stream =
      (attributeFold onAttr s (attributeWalk stream.data stream.size fuel stream.head).1 >>=
        fun s => .ret (if (attributeWalk stream.data stream.size fuel stream.head).2 then yangOk
          else errorRtcStun, s)) := by
  induction fuel generalizing s stream with
  | zero => rfl
  | succ fuel ih =>
    rw [attributeLoop_succ, attributeWalk]
    by_cases hend : stream.size < stream.head + 4
    · have hleft : stream.left < 4 := by
        unfold YangBuffer.left
        omega
      rw [if_pos hleft, if_pos hend]
      rfl
    · have hleft : ¬ stream.left < 4 := by
        unfold YangBuffer.left
        omega
      have hfits : ((stream.take 2).take 2).left < stream.data.be (stream.head + 2) 2 ↔
          stream.size < stream.head + 4 + stream.data.be (stream.head + 2) 2 := by
        simp only [YangBuffer.left, YangBuffer.take_size, YangBuffer.take_head]
        omega
      rw [if_neg hleft, if_neg hend]
      by_cases hlong : stream.size < stream.head + 4 + stream.data.be (stream.head + 2) 2
      · rw [if_pos (hfits.mpr hlong), if_pos hlong]
        rfl
      · obtain ⟨hdata, hsize, hhead⟩ := behind_place stream (stream.data.be (stream.head + 2) 2)
        rw [if_neg (mt hfits.mp hlong), if_neg hlong, readBytes_attribute]
        dsimp only
        rw [attributeFold, List.foldlM_cons, Call.bind_assoc]
        refine congrArg _ (funext fun s => ?_)
        rw [ih, hdata, hsize, hhead]
        rfl

end Loop

section Turn

variable {session : TurnSession} {type : Nat} {val : List UInt8} {data : Mem} {nb : Nat}

theorem turnDecodeLoop_loop (fuel : Nat) (session : TurnSession) (stream : YangBuffer) :
    turnDecodeLoop fuel session stream = attributeLoop turnAttribute fuel session stream := by
  induction fuel generalizing session stream with
  | zero => rfl
  | succ fuel ih =>
    rw [turnDecodeLoop, attributeLoop]
    simp only [ih]

/-- The TURN decoder takes the attributes that are walked over, and fails where the walk
does. -/
theorem turnDecode_walk (session : TurnSession) (data : Mem) (nb : Nat) :
    turnDecode session data nb =
      (attributeFold turnAttribute session (stunWalk data nb).1 >>= fun s =>
        .ret (if (stunWalk data nb).2 then yangOk else errorRtcStun, s)) := by
  have hleft : (initBuffer data nb).left < 20 ↔ nb < 20 := by
    simp only [YangBuffer.left, initBuffer]
    omega
  have hdecode : turnDecode session data nb =
      if (initBuffer data nb).left < 20 then .ret (errorRtcStun, session)
      else if nb ≠ 20 + data.be 2 2 then .ret (errorRtcStun, session)
      else turnDecodeLoop nb session
        (((((initBuffer data nb).skip 2).take 2).take 4).skip 12) := rfl
  rw [hdecode, stunWalk]
  by_cases hshort : nb < 20
  · have hsized : ¬ StunSized data nb := fun h => absurd h.1 (Nat.not_le.mpr hshort)
    rw [if_pos (hleft.mpr hshort), if_neg hsized]
    rfl
  · rw [if_neg (mt hleft.mp hshort)]
    by_cases hlen : nb = 20 + data.be 2 2
    · have hsized : StunSized data nb := ⟨Nat.not_lt.mp hshort, hlen⟩
      rw [if_neg (not_not.mpr hlen), if_pos hsized, turnDecodeLoop_loop, attributeLoop_walk]
      rfl
    · have hsized : ¬ StunSized data nb := fun h => hlen h.2
      rw [if_pos hlen, if_neg hsized]
      rfl

/-- The bytes that are read of an attribute of a fixed form. -/
def turnFixed (type : Nat) : Nat :=
  if type = stunErrorCode then 4
  else if type = stunXorRelayedAddress then 8
  else if type = stunLifetime then 4
  else 0

/-- What an attribute has to keep to, with so many bytes to be read behind it. -/
structure TurnBound (slack : Nat) (session : TurnSession) (type : Nat) (val : List UInt8) :
    Prop where
  fixed : turnFixed type ≤ val.length + slack
  realm : type = stunRealm → (session.realm.takeWhile (· ≠ 0)).length < 129 ∧
    (session.realm.takeWhile (· ≠ 0) = [] → val.length ≤ 129)
  nonce : type = stunNonce → session.nonce = [] → val.length ≤ 128

/-- The realms of a message fit in the array, which keeps the first that has a text. -/
def RealmsFit (realm : List UInt8) : List (List UInt8) → Prop
  | [] => True
  | val :: vals =>
    if realm.takeWhile (· ≠ 0) = [] then val.length ≤ 129 ∧ RealmsFit val vals
    else (realm.takeWhile (· ≠ 0)).length < 129 ∧ RealmsFit realm vals

/-- The attributes of a message fit where they go to. -/
structure TurnFits (slack : Nat) (session : TurnSession) (attrs : List (Nat × List UInt8)) :
    Prop where
  fixed : ∀ attr ∈ attrs, turnFixed attr.1 ≤ attr.2.length + slack
  nonces : session.nonce = [] → ∀ attr ∈ attrs, attr.1 = stunNonce → attr.2.length ≤ 128
  realms : RealmsFit session.realm ((attrs.filter (·.1 = stunRealm)).map (·.2))

/-- Bytes that are read one after the other are there if the last are. -/
theorem attributeBytes_returns {α : Type} {i n : Nat} {f : List UInt8 → Call α} {P : Prop}
    (h : ∀ bs, (∃ a, f bs = .ret a) ↔ P) :
    (∃ a, (attributeBytes val i n >>= f) = .ret a) ↔ i + n ≤ val.length + 1 ∧ P := by
  rw [bind_returns, attributeBytes]
  by_cases hin : i + n ≤ val.length + 1
  · rw [if_pos hin, and_iff_right hin]
    constructor
    · rintro ⟨bs, -, hrest⟩
      exact (h bs).mp hrest
    · intro hp
      exact ⟨_, rfl, (h _).mpr hp⟩
  · rw [if_neg hin]
    refine iff_of_false ?_ (fun hboth => hin hboth.1)
    rintro ⟨bs, hbs, -⟩
    cases hbs

theorem cString_returns {size : Nat} {bs : List UInt8} {α : Type} {f : List UInt8 → Call α} :
    (∃ a, (cString size bs >>= f) = .ret a) ↔
      (bs.takeWhile (· ≠ 0)).length < size ∧ ∃ a, f (bs.takeWhile (· ≠ 0)) = .ret a := by
  rw [bind_returns]
  unfold cString
  dsimp only
  by_cases hfits : (bs.takeWhile (· ≠ 0)).length < size
  · rw [if_pos hfits, and_iff_right hfits]
    constructor
    · rintro ⟨s, hs, hrest⟩
      cases hs
      exact hrest
    · intro hrest
      exact ⟨_, rfl, hrest⟩
  · rw [if_neg hfits]
    refine iff_of_false ?_ (fun hboth => hfits hboth.1)
    rintro ⟨s, hs, -⟩
    cases hs

/-- What is kept within bounds is kept in any case but one. -/
theorem kept_returns {α : Type} {P Q : Prop} [Decidable P] [Decidable Q] {a b : α} :
    (∃ t, (if P then Call.ret a else if Q then .ret b else .crash) = .ret t) ↔ (¬ P → Q) := by
  by_cases hp : P
  · rw [if_pos hp]
    exact iff_of_true ⟨a, rfl⟩ fun hnot => absurd hp hnot
  · rw [if_neg hp, forall_prop_of_true hp]
    by_cases hq : Q
    · rw [if_pos hq]
      exact iff_of_true ⟨b, rfl⟩ hq
    · rw [if_neg hq]
      refine iff_of_false ?_ hq
      rintro ⟨t, ht⟩
      cases ht

/-- An attribute is copied with one byte behind it. -/
theorem turnAttribute_returns :
    (∃ t, turnAttribute session type val = .ret t) ↔ TurnBound 1 session type val := by
  unfold turnAttribute
  dsimp only
  by_cases herror : type = stunErrorCode
  · subst herror
    rw [if_pos rfl]
    refine (attributeBytes_returns fun _ => attributeBytes_returns fun _ => ret_returns).trans ?_
    constructor
    · rintro ⟨-, hin, -⟩
      exact ⟨hin, fun h => absurd h (by decide), fun h => absurd h (by decide)⟩
    · intro h
      have hin : 4 ≤ val.length + 1 := h.fixed
      exact ⟨by omega, hin, trivial⟩
  rw [if_neg herror]
  by_cases hrelayed : type = stunXorRelayedAddress
  · subst hrelayed
    rw [if_pos rfl]
    refine (attributeBytes_returns fun _ => attributeBytes_returns fun _ => ret_returns).trans ?_
    constructor
    · rintro ⟨-, hin, -⟩
      exact ⟨hin, fun h => absurd h (by decide), fun h => absurd h (by decide)⟩
    · intro h
      have hin : 8 ≤ val.length + 1 := h.fixed
      exact ⟨by omega, hin, trivial⟩
  rw [if_neg hrelayed]
  by_cases hlifetime : type = stunLifetime
  · subst hlifetime
    rw [if_pos rfl]
    refine (attributeBytes_returns fun _ => ret_returns).trans ?_
    constructor
    · rintro ⟨hin, -⟩
      exact ⟨hin, fun h => absurd h (by decide), fun h => absurd h (by decide)⟩
    · intro h
      have hin : 4 ≤ val.length + 1 := h.fixed
      exact ⟨hin, trivial⟩
  rw [if_neg hlifetime]
  have hfixed : turnFixed type = 0 := by
    rw [turnFixed, if_neg herror, if_neg hrelayed, if_neg hlifetime]
  have hread : turnFixed type ≤ val.length + 1 := by
    rw [hfixed]
    exact Nat.zero_le _
  by_cases hrealm : type = stunRealm
  · subst hrealm
    rw [if_pos rfl, cString_returns]
    refine (and_congr_right fun _ => kept_returns).trans ?_
    rw [not_not]
    constructor
    · intro hin
      exact ⟨hread, fun _ => hin, fun h => absurd h (by decide)⟩
    · intro h
      exact h.realm rfl
  rw [if_neg hrealm]
  by_cases hnonce : type = stunNonce
  · subst hnonce
    rw [if_pos rfl]
    refine kept_returns.trans ?_
    rw [not_not]
    constructor
    · intro hin
      exact ⟨hread, fun h => absurd h (by decide), fun _ => hin⟩
    · intro h
      exact h.nonce rfl
  rw [if_neg hnonce]
  exact iff_of_true ⟨_, rfl⟩ ⟨hread, fun h => absurd h hrealm, fun h => absurd h hnonce⟩

/-- Of what an attribute is measured against, only the realm can be another behind one. -/
theorem turnAttribute_realm {session' : TurnSession}
    (h : turnAttribute session type val = .ret session') :
    session'.nonce = session.nonce ∧
      session'.realm = if type = stunRealm ∧ session.realm.takeWhile (· ≠ 0) = [] then val
        else session.realm := by
  refine ⟨by rw [turnAttribute_changes h], ?_⟩
  unfold turnAttribute at h
  dsimp only at h
  by_cases hrealm : type = stunRealm
  · subst hrealm
    rw [if_neg (by decide), if_neg (by decide), if_neg (by decide), if_pos rfl] at h
    obtain ⟨text, htext, h⟩ := Call.bind_eq_ret.mp h
    have htext' : session.realm.takeWhile (· ≠ 0) = text := by
      unfold cString at htext
      dsimp only at htext
      split at htext
      · exact Call.ret.inj htext
      · cases htext
    rw [htext']
    by_cases hempty : text = []
    · rw [if_neg (not_not.mpr hempty)] at h
      rw [if_pos ⟨rfl, hempty⟩]
      split at h
      · rw [← Call.ret.inj h]
      · cases h
    · rw [if_pos hempty] at h
      rw [if_neg fun hboth => hempty hboth.2, ← Call.ret.inj h]
  · rw [if_neg fun hboth => hrealm hboth.1]
    rw [if_neg hrealm] at h
    split at h
    · obtain ⟨a, -, h⟩ := Call.bind_eq_ret.mp h
      obtain ⟨b, -, h⟩ := Call.bind_eq_ret.mp h
      rw [← Call.ret.inj h]
    · split at h
      · obtain ⟨a, -, h⟩ := Call.bind_eq_ret.mp h
        obtain ⟨b, -, h⟩ := Call.bind_eq_ret.mp h
        rw [← Call.ret.inj h]
      · split at h
        · obtain ⟨a, -, h⟩ := Call.bind_eq_ret.mp h
          rw [← Call.ret.inj h]
        · split at h
          · split at h
            · rw [← Call.ret.inj h]
            · split at h
              · rw [← Call.ret.inj h]
              · cases h
          · rw [← Call.ret.inj h]

/-- Each attribute keeps to its bound where the ones before it have led. -/
theorem turnFits_throughout {slack : Nat} (hslack : slack ≤ 1) {attrs : List (Nat × List UInt8)} :
    Run.Throughout (fun s attr s' => turnAttribute s attr.1 attr.2 = .ret s')
      (fun s attr => TurnBound slack s attr.1 attr.2) attrs session ↔
    TurnFits slack session attrs := by
  induction attrs generalizing session with
  | nil =>
    exact iff_of_true trivial ⟨fun _ h => absurd h List.not_mem_nil,
      fun _ _ h => absurd h List.not_mem_nil, trivial⟩
  | cons attr attrs ih =>
    obtain ⟨type, val⟩ := attr
    constructor
    · rintro ⟨hone, hrest⟩
      have hreturns : TurnBound 1 session type val :=
        ⟨hone.fixed.trans (Nat.add_le_add_left hslack _), hone.realm, hone.nonce⟩
      obtain ⟨session', hattr⟩ := turnAttribute_returns.mpr hreturns
      obtain ⟨hnonce, hrealm⟩ := turnAttribute_realm hattr
      have htail := ih.mp (hrest session' hattr)
      refine ⟨List.forall_mem_cons.mpr ⟨hone.fixed, htail.fixed⟩, fun hempty => ?_, ?_⟩
      · exact List.forall_mem_cons.mpr
          ⟨fun htype => hone.nonce htype hempty, htail.nonces (hnonce.trans hempty)⟩
      · have hrealms := htail.realms
        rw [hrealm] at hrealms
        by_cases htype : type = stunRealm
        · obtain ⟨hshort, hfits⟩ := hone.realm htype
          rw [List.filter_cons_of_pos (by simpa using htype), List.map_cons, RealmsFit]
          by_cases hempty : session.realm.takeWhile (· ≠ 0) = []
          · rw [if_pos ⟨htype, hempty⟩] at hrealms
            rw [if_pos hempty]
            exact ⟨hfits hempty, hrealms⟩
          · rw [if_neg fun hboth => hempty hboth.2] at hrealms
            rw [if_neg hempty]
            exact ⟨hshort, hrealms⟩
        · rw [if_neg fun hboth => htype hboth.1] at hrealms
          rw [List.filter_cons_of_neg (by simpa using htype)]
          exact hrealms
    · intro h
      have hrealms := h.realms
      refine ⟨⟨h.fixed _ List.mem_cons_self, fun htype => ?_, fun htype hempty => ?_⟩,
        fun session' hattr => ih.mpr ?_⟩
      · dsimp only at htype
        rw [List.filter_cons_of_pos (by simpa using htype), List.map_cons, RealmsFit] at hrealms
        by_cases hempty : session.realm.takeWhile (· ≠ 0) = []
        · rw [if_pos hempty] at hrealms
          rw [hempty]
          exact ⟨by decide, fun _ => hrealms.1⟩
        · rw [if_neg hempty] at hrealms
          exact ⟨hrealms.1, fun habs => absurd habs hempty⟩
      · exact h.nonces hempty _ List.mem_cons_self htype
      · obtain ⟨hnonce, hrealm⟩ := turnAttribute_realm hattr
        refine ⟨fun attr hattr => h.fixed attr (List.mem_cons_of_mem _ hattr), ?_, ?_⟩
        · intro hempty attr hattr
          exact h.nonces (hnonce.symm.trans hempty) attr (List.mem_cons_of_mem _ hattr)
        · dsimp only at hrealm
          rw [hrealm]
          by_cases htype : type = stunRealm
          · rw [List.filter_cons_of_pos (by simpa using htype), List.map_cons, RealmsFit] at hrealms
            by_cases hempty : session.realm.takeWhile (· ≠ 0) = []
            · rw [if_pos hempty] at hrealms
              rw [if_pos ⟨htype, hempty⟩]
              exact hrealms.2
            · rw [if_neg hempty] at hrealms
              rw [if_neg fun hboth => hempty hboth.2]
              exact hrealms.2
          · rw [List.filter_cons_of_neg (by simpa using htype)] at hrealms
            rw [if_neg fun hboth => htype hboth.1]
            exact hrealms

/-- The decoder comes to its end exactly if the attributes fit, one byte behind each being
there as well. -/
theorem turnDecode_returns :
    (∃ r, turnDecode session data nb = .ret r) ↔ TurnFits 1 session (stunWalk data nb).1 := by
  rw [turnDecode_walk, bind_returns, ← turnFits_throughout le_rfl]
  refine Iff.trans ?_ (foldlM_returns.trans (Run.throughout_congr fun s attr =>
    turnAttribute_returns))
  constructor
  · rintro ⟨t, ht, -⟩
    exact ⟨t, ht⟩
  · rintro ⟨t, ht⟩
    exact ⟨t, ht, _, rfl⟩

end Turn

end MetaRtc
