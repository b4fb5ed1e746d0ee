import MetaRtc.Ice.Stun
import MetaRtc.Ice.Bound
import Mathlib.Data.List.TakeWhile

/-! # The nonce and the realm that requests use

A server asks for credentials with a nonce and a realm, and later perhaps with others. The
decoder takes the first ones only. -/
namespace MetaRtc

open Bytes Exec

/-- The realm as requests use it. -/
def TurnSession.realmString (session : TurnSession) : List UInt8 :=
  session.realm.takeWhile (· ≠ 0)

/-- There is an attribute of that type, with no other value than this one. -/
def Carries (attrs : List (Nat × List UInt8)) (type : Nat) (val : List UInt8) : Prop :=
  (type, val) ∈ attrs ∧ ∀ v, (type, v) ∈ attrs → v = val

def errorCodeOf (val : List UInt8) : Nat := 100 * (val.getD 2 0).toNat + (val.getD 3 0).toNat

/-- The datagram is an error response that asks for credentials with that nonce, and with that
realm if it names one. -/
def Challenge (data : Mem) (nb : Nat) (nonce : List UInt8) (realm : Option (List UInt8)) : Prop :=
  ∃ type attrs code, isTurnError type = true ∧ StunMessage data nb type attrs ∧
    Carries attrs stunErrorCode code ∧ (errorCodeOf code = yangTurnErrorUnauthoorized ∨
      errorCodeOf code = yangTurnErrorNonce) ∧
    Carries attrs stunNonce nonce ∧
    match realm with
    | some r => Carries attrs stunRealm r
    | none => ∀ v, (stunRealm, v) ∉ attrs

def TurnEvent.Challenges (nonce : List UInt8) (realm : Option (List UInt8)) : TurnEvent → Prop
  | .receive _ _ data nb => Challenge data nb nonce realm
  | _ => False

/-- The session, and what the server has asked for last. -/
structure RenewWorld where
  world : TurnWorld
  nonce : Option (List UInt8) := none
  realm : Option (List UInt8) := none

def RenewStep (w : RenewWorld) (e : TurnEvent) (w' : RenewWorld) : Prop :=
  TurnStep w.world e w'.world ∧
    ((∃ nonce realm, e.Challenges nonce realm ∧ w'.nonce = some nonce ∧
        w'.realm = realm.or w.realm) ∨
      (∀ nonce realm, ¬ e.Challenges nonce realm) ∧ w'.nonce = w.nonce ∧ w'.realm = w.realm)

/-- What the request says of nonce and realm is this. -/
def TurnRequest.Uses (request : TurnRequest) (nonce realm : List UInt8) : Prop :=
  ∀ v, ((stunNonce, v) ∈ request.attributes → v = nonce) ∧
    ((stunRealm, v) ∈ request.attributes → v = realm)

/-- Each request that is sent has the nonce and the realm that the server has asked for last. -/
def Renewed (w : RenewWorld) (e : TurnEvent) : Prop :=
  ∀ w', RenewStep w e w' → ∀ sent ∈ w'.world.sent.drop w.world.sent.length, ∀ v,
    ((stunNonce, v) ∈ sent.request.attributes → ∀ nonce, w.nonce = some nonce → v = nonce) ∧
    ((stunRealm, v) ∈ sent.request.attributes → ∀ realm, w.realm = some realm → v = realm)

/-- Where the server asks for credentials, the session has no nonce yet or that one, and no
realm yet or that one. Both are strings that their arrays have room for. -/
def TurnEvent.Renews (w : RenewWorld) (e : TurnEvent) : Prop :=
  ∀ nonce realm, e.Challenges nonce realm →
    (nonce ≠ [] ∧ nonce.length ≤ 128 ∧
      (w.world.session.nonce = [] ∨ w.world.session.nonce = nonce)) ∧
    ∀ r, realm = some r → (r ≠ [] ∧ r.length ≤ 128 ∧ 0 ∉ r) ∧
      (w.world.session.realmString = [] ∨ w.world.session.realmString = r)

section Decoding

variable {session session' : TurnSession} {type nb now : Nat} {val n r : List UInt8}
  {attrs : List (Nat × List UInt8)} {data : Mem} {out : Option (Nat × List UInt8)}

theorem attributeBytes_one {i : Nat} {bs : List UInt8} (h : attributeBytes val i 1 = .ret bs) :
    beNat bs = (val.getD i 0).toNat := by
  unfold attributeBytes at h
  split at h
  · rename_i hi
    cases h
    have hlt : i < (val ++ [0]).length := by
      rw [List.length_append, List.length_singleton]
      omega
    rw [List.drop_eq_getElem_cons hlt, List.take_succ_cons, List.take_zero]
    simp only [beNat, List.length_nil, Nat.pow_zero, Nat.mul_one, Nat.add_zero,
      List.getElem_append, List.getD_eq_getElem?_getD]
    split
    · rename_i hin
      rw [List.getElem?_eq_getElem hin, Option.getD_some]
    · rename_i hout
      rw [List.getElem?_eq_none (Nat.le_of_not_lt hout)]
      simp
  · cases h

theorem cString_eq {size : Nat} {bs s : List UInt8} (h : cString size bs = .ret s) :
    s = bs.takeWhile (· ≠ 0) := by
  unfold cString at h
  dsimp only at h
  split at h
  · exact (Call.ret.inj h).symm
  · cases h

/-- What one attribute does to the fields that matter here. -/
structure AttributeEffect (session : TurnSession) (type : Nat) (val : List UInt8)
    (session' : TurnSession) : Prop where
  nonce : session'.nonce = session.nonce
  answer : session'.response.nonce =
    if type = stunNonce ∧ session.nonce = [] then val else session.response.nonce
  code : session'.response.errorCode =
    if type = stunErrorCode then errorCodeOf val else session.response.errorCode
  realm : session'.realm =
    if type = stunRealm ∧ session.realmString = [] then val else session.realm

/-- An attribute of another type leaves nonce and realm alone. -/
theorem attributeEffect_other (hnonce : type ≠ stunNonce) (hrealm : type ≠ stunRealm)
    (hsame : session'.nonce = session.nonce ∧ session'.response.nonce = session.response.nonce ∧
      session'.realm = session.realm)
    (hcode : session'.response.errorCode =
      if type = stunErrorCode then errorCodeOf val else session.response.errorCode) :
    AttributeEffect session type val session' where
  nonce := hsame.1
  answer := by rw [if_neg fun hno => hnonce hno.1, hsame.2.1]
  code := hcode
  realm := by rw [if_neg fun hno => hrealm hno.1, hsame.2.2]

theorem turnAttribute_effect (h : turnAttribute session type val = .ret session') :
    AttributeEffect session type val session' := by
  simp only [turnAttribute] at h
  split at h
  · rename_i htype
    obtain ⟨a, ha, h⟩ := Call.bind_eq_ret.mp h
    obtain ⟨b, hb, h⟩ := Call.bind_eq_ret.mp h
    cases h
    refine attributeEffect_other (htype ▸ by decide) (htype ▸ by decide) ⟨rfl, rfl, rfl⟩ ?_
    rw [if_pos htype, errorCodeOf, attributeBytes_one ha, attributeBytes_one hb]
  · rename_i hcode
    split at h
    · rename_i htype
      obtain ⟨a, -, h⟩ := Call.bind_eq_ret.mp h
      obtain ⟨b, -, h⟩ := Call.bind_eq_ret.mp h
      cases h
      exact attributeEffect_other (htype ▸ by decide) (htype ▸ by decide) ⟨rfl, rfl, rfl⟩
        (if_neg hcode).symm
    · split at h
      · rename_i htype
        obtain ⟨a, -, h⟩ := Call.bind_eq_ret.mp h
        cases h
        exact attributeEffect_other (htype ▸ by decide) (htype ▸ by decide) ⟨rfl, rfl, rfl⟩
          (if_neg hcode).symm
      · split at h
        · rename_i htype
          obtain ⟨realm, hrealm, h⟩ := Call.bind_eq_ret.mp h
          have hstring : realm = session.realmString := cString_eq hrealm
          have hnonce : ¬ (type = stunNonce ∧ session.nonce = []) := by
            rw [htype]
            exact fun hno => absurd hno.1 (by decide)
          split at h
          · rename_i hset
            cases h
            exact ⟨rfl, (if_neg hnonce).symm, (if_neg hcode).symm,
              (if_neg fun hno => hset (hstring.trans hno.2)).symm⟩
          · rename_i hset
            split at h
            · cases h
              exact ⟨rfl, (if_neg hnonce).symm, (if_neg hcode).symm,
                (if_pos ⟨htype, hstring ▸ not_not.mp hset⟩).symm⟩
            · cases h
        · rename_i hrealm
          have hno : ¬ (type = stunRealm ∧ session.realmString = []) := fun hno => hrealm hno.1
          split at h
          · rename_i htype
            split at h
            · rename_i hset
              cases h
              exact ⟨rfl, (if_neg fun h => hset h.2).symm, (if_neg hcode).symm, (if_neg hno).symm⟩
            · rename_i hset
              split at h
              · cases h
                exact ⟨rfl, (if_pos ⟨htype, not_not.mp hset⟩).symm, (if_neg hcode).symm,
                  (if_neg hno).symm⟩
              · cases h
          · rename_i htype
            cases h
            exact ⟨rfl, (if_neg fun h => htype h.1).symm, (if_neg hcode).symm, (if_neg hno).symm⟩

/-- What is set is kept, whatever attributes come. -/
def KeepsSet (session session' : TurnSession) : Prop :=
  (session.nonce ≠ [] → session'.response.nonce = session.response.nonce) ∧
    (session.realmString ≠ [] → session'.realm = session.realm)

theorem realmString_congr {s t : TurnSession} (h : s.realm = t.realm) :
    s.realmString = t.realmString := by
  unfold TurnSession.realmString
  rw [h]

theorem turnAttribute_keeps (h : turnAttribute session type val = .ret session') :
    KeepsSet session session' := by
  have heffect := turnAttribute_effect h
  refine ⟨fun hset => ?_, fun hset => ?_⟩
  · rw [heffect.answer, if_neg fun hno => hset hno.2]
  · rw [heffect.realm, if_neg fun hno => hset hno.2]

theorem keepsSet_trans {s t u : TurnSession} (hnonce : t.nonce = s.nonce) (h : KeepsSet s t)
    (k : KeepsSet t u) : KeepsSet s u := by
  refine ⟨fun hset => ?_, fun hset => ?_⟩
  · rw [k.1 (hnonce ▸ hset), h.1 hset]
  · have hsame := h.2 hset
    rw [k.2 (realmString_congr hsame ▸ hset), hsame]

theorem turnDecodeLoop_keeps {fuel : Nat} {stream : YangBuffer} {err : Err}
    (h : turnDecodeLoop fuel session stream = .ret (err, session')) :
    KeepsSet session session' := by
  induction fuel generalizing session stream with
  | zero =>
    cases h
    exact ⟨fun _ => rfl, fun _ => rfl⟩
  | succ fuel ih =>
    simp only [turnDecodeLoop] at h
    split at h
    · cases h
      exact ⟨fun _ => rfl, fun _ => rfl⟩
    · split at h
      · cases h
        exact ⟨fun _ => rfl, fun _ => rfl⟩
      · obtain ⟨mid, hone, hrest⟩ := Call.bind_eq_ret.mp h
        exact keepsSet_trans (turnAttribute_effect hone).nonce (turnAttribute_keeps hone) (ih hrest)

theorem turnDecode_keeps {err : Err} (h : turnDecode session data nb = .ret (err, session')) :
    KeepsSet session session' := by
  simp only [turnDecode] at h
  split at h
  · cases h
    exact ⟨fun _ => rfl, fun _ => rfl⟩
  · split at h
    · cases h
      exact ⟨fun _ => rfl, fun _ => rfl⟩
    · exact turnDecodeLoop_keeps h

/-- The last attribute of its type stands in the response, wherever it came. -/
theorem turnAttributes_nonce (hn : session.nonce = []) (hall : ∀ v, (stunNonce, v) ∈ attrs → v = n)
    (hany : (∃ v, (stunNonce, v) ∈ attrs) ∨ session.response.nonce = n)
    (h : turnAttributes session attrs = .ret session') : session'.response.nonce = n := by
  induction attrs generalizing session with
  | nil =>
    cases h
    obtain ⟨v, hv⟩ | hset := hany
    · cases hv
    · exact hset
  | cons attr attrs ih =>
    rw [turnAttributes, List.foldlM_cons] at h
    obtain ⟨mid, hone, hrest⟩ := Call.bind_eq_ret.mp h
    have heffect := turnAttribute_effect hone
    refine ih (heffect.nonce.trans hn) (fun v hv => hall v (List.mem_cons_of_mem _ hv)) ?_ hrest
    rw [heffect.answer]
    by_cases htype : attr.1 = stunNonce
    · rw [if_pos ⟨htype, hn⟩]
      exact .inr (hall attr.2 (by rw [← htype]; exact List.mem_cons_self))
    · rw [if_neg fun hno => htype hno.1]
      refine hany.imp_left ?_
      rintro ⟨v, hv⟩
      rcases List.mem_cons.mp hv with heq | hmem
      · exact absurd (congrArg Prod.fst heq).symm htype
      · exact ⟨v, hmem⟩

theorem turnAttributes_code (hall : ∀ v, (stunErrorCode, v) ∈ attrs → v = val)
    (hany : (∃ v, (stunErrorCode, v) ∈ attrs) ∨ session.response.errorCode = errorCodeOf val)
    (h : turnAttributes session attrs = .ret session') :
    session'.response.errorCode = errorCodeOf val := by
  induction attrs generalizing session with
  | nil =>
    cases h
    obtain ⟨v, hv⟩ | hset := hany
    · cases hv
    · exact hset
  | cons attr attrs ih =>
    rw [turnAttributes, List.foldlM_cons] at h
    obtain ⟨mid, hone, hrest⟩ := Call.bind_eq_ret.mp h
    have heffect := turnAttribute_effect hone
    refine ih (fun v hv => hall v (List.mem_cons_of_mem _ hv)) ?_ hrest
    rw [heffect.code]
    by_cases htype : attr.1 = stunErrorCode
    · rw [if_pos htype, hall attr.2 (by rw [← htype]; exact List.mem_cons_self)]
      exact .inr rfl
    · rw [if_neg htype]
      refine hany.imp_left ?_
      rintro ⟨v, hv⟩
      rcases List.mem_cons.mp hv with heq | hmem
      · exact absurd (congrArg Prod.fst heq).symm htype
      · exact ⟨v, hmem⟩

/-- The first realm stands, and all are the same. -/
theorem turnAttributes_realm (hall : ∀ v, (stunRealm, v) ∈ attrs → v = r)
    (hany : session.realmString = [] ∧ (∃ v, (stunRealm, v) ∈ attrs) ∨ session.realm = r)
    (h : turnAttributes session attrs = .ret session') : session'.realm = r := by
  induction attrs generalizing session with
  | nil =>
    cases h
    obtain ⟨-, v, hv⟩ | hset := hany
    · cases hv
    · exact hset
  | cons attr attrs ih =>
    rw [turnAttributes, List.foldlM_cons] at h
    obtain ⟨mid, hone, hrest⟩ := Call.bind_eq_ret.mp h
    have heffect := (turnAttribute_effect hone).realm
    refine ih (fun v hv => hall v (List.mem_cons_of_mem _ hv)) ?_ hrest
    by_cases htype : attr.1 = stunRealm ∧ session.realmString = []
    · rw [if_pos htype] at heffect
      refine .inr ?_
      rw [heffect]
      exact hall attr.2 (by rw [← htype.1]; exact List.mem_cons_self)
    · rw [if_neg htype] at heffect
      obtain ⟨hempty, v, hv⟩ | hset := hany
      · refine .inl ⟨(realmString_congr heffect).trans hempty, ?_⟩
        rcases List.mem_cons.mp hv with heq | hmem
        · exact absurd ⟨(congrArg Prod.fst heq).symm, hempty⟩ htype
        · exact ⟨v, hmem⟩
      · exact .inr (heffect.trans hset)

end Decoding

section Handling

variable {session session' : TurnSession} {now nb : Nat} {nonce r : List UInt8} {data : Mem}
  {realm : Option (List UInt8)} {out : Option (Nat × List UInt8)}

theorem handleError_nonce (session : TurnSession) (type : Nat) :
    (turnconnHandleError session type).realm = session.realm ∧
    (turnconnHandleError session type).nonce =
      if (session.response.errorCode = yangTurnErrorUnauthoorized ∨
        session.response.errorCode = yangTurnErrorNonce) ∧ session.response.nonce.length > 0 then
        session.response.nonce
      else session.nonce := by
  have hupdate : ∀ s : TurnSession, s.response = session.response → s.nonce = session.nonce →
      s.realm = session.realm →
      (if s.response.errorCode = yangTurnErrorUnauthoorized ∨
        s.response.errorCode = yangTurnErrorNonce then turnconnUpdateNonce s else s).realm =
          session.realm ∧
      (if s.response.errorCode = yangTurnErrorUnauthoorized ∨
        s.response.errorCode = yangTurnErrorNonce then turnconnUpdateNonce s else s).nonce =
      if (session.response.errorCode = yangTurnErrorUnauthoorized ∨
        session.response.errorCode = yangTurnErrorNonce) ∧ session.response.nonce.length > 0 then
        session.response.nonce
      else session.nonce := by
    intro s hresponse hnonce hrealm
    rw [hresponse]
    by_cases hcode : session.response.errorCode = yangTurnErrorUnauthoorized ∨
        session.response.errorCode = yangTurnErrorNonce
    · rw [if_pos hcode, turnconnUpdateNonce, hresponse]
      by_cases hlen : session.response.nonce.length > 0
      · rw [if_pos hlen, if_pos ⟨hcode, hlen⟩]
        exact ⟨hrealm, rfl⟩
      · rw [if_neg hlen, if_neg fun hno => hlen hno.2]
        exact ⟨hrealm, hnonce⟩
    · rw [if_neg hcode, if_neg fun hno => hcode hno.1]
      exact ⟨hrealm, hnonce⟩
  unfold turnconnHandleError
  extract_lets mid
  refine hupdate mid ?_ ?_ ?_ <;> simp only [mid] <;> (repeat' split) <;> rfl

theorem handleRecv_nonce (session : TurnSession) (now type : Nat) :
    (turnconnHandleRecv session now type).nonce = session.nonce ∧
      (turnconnHandleRecv session now type).realm = session.realm := by
  simp only [turnconnHandleRecv]
  constructor <;> (repeat' split) <;> rfl

/-- A nonce and a realm that are set stay as they are. -/
theorem receive_keeps (h : turnconnReceive session now data nb = .ret (session', out)) :
    (session.nonce ≠ [] → session'.nonce = session.nonce) ∧
      (session.realmString ≠ [] → session'.realm = session.realm) := by
  obtain ⟨-, hsame⟩ | ⟨-, err, decoded, hdec, hdecoded, hhandled⟩ := turnconnReceive_cases h
  · rw [hsame]
    exact ⟨fun _ => rfl, fun _ => rfl⟩
  · have hnonce : decoded.nonce = session.nonce := by rw [hdecoded]
    obtain ⟨hanswer, hrealm⟩ := turnDecode_keeps hdec
    obtain ⟨-, rfl⟩ | ⟨-, rfl⟩ := hhandled
    · obtain ⟨hrealm', hnonce'⟩ := handleError_nonce decoded (data.be 0 2)
      rw [hnonce', hrealm']
      refine ⟨fun hset => ?_, hrealm⟩
      rw [hanswer hset, if_neg fun hno => absurd hno.2 (Nat.lt_irrefl 0), hnonce]
    · obtain ⟨hnonce', hrealm'⟩ := handleRecv_nonce decoded now (data.be 0 2)
      rw [hnonce', hrealm']
      exact ⟨fun _ => hnonce, hrealm⟩

/-- What is not set is taken from the server's message. -/
theorem receive_challenge (h : turnconnReceive session now data nb = .ret (session', out))
    (hc : Challenge data nb nonce realm) :
    (session.nonce = [] → nonce ≠ [] → session'.nonce = nonce) ∧
      ∀ r, realm = some r → session.realmString = [] → session'.realm = r := by
  obtain ⟨type, attrs, code, herr, hmessage, hcode, hrefused, hnonce, hrealm⟩ := hc
  obtain ⟨hno, -⟩ | ⟨-, err, decoded, hdec, hdecoded, hhandled⟩ := turnconnReceive_cases h
  · exact absurd hmessage.cookie hno
  · rw [turnDecode_message hmessage] at hdec
    obtain ⟨mid, hattrs, hret⟩ := Call.bind_eq_ret.mp hdec
    cases hret
    rw [hmessage.type] at hhandled
    obtain ⟨-, rfl⟩ | ⟨hno, -⟩ := hhandled
    · obtain ⟨hrealm', hnonce'⟩ := handleError_nonce decoded type
      have hcode' := turnAttributes_code hcode.2 (.inl ⟨_, hcode.1⟩) hattrs
      rw [← hcode'] at hrefused
      refine ⟨fun hempty hne => ?_, fun r hr hempty => ?_⟩
      · have hanswer := turnAttributes_nonce (by exact hempty) hnonce.2 (.inl ⟨_, hnonce.1⟩) hattrs
        rw [hnonce', hanswer, if_pos ⟨hrefused, List.length_pos_of_ne_nil hne⟩]
      · subst hr
        rw [hrealm']
        exact turnAttributes_realm hrealm.2 (.inl ⟨by exact hempty, _, hrealm.1⟩) hattrs
    · rw [herr] at hno
      cases hno

end Handling

section Sending

variable {session session' : TurnSession} {request : TurnRequest} {sent : List TurnSent}
  {now : Nat}

theorem turnEncodeWith_uses {messageType : Nat} {attributes : List (Nat × List UInt8)}
    (hown : ∀ type ∈ attributes.map Prod.fst, type ≠ stunNonce ∧ type ≠ stunRealm)
    (h : turnEncodeWith session messageType attributes = .ret (request, session')) :
    request.Uses session.nonce session.realmString := by
  obtain ⟨realm, hrealm, h⟩ := Call.bind_eq_ret.mp h
  cases h
  have hstring : realm = session.realmString := cString_eq hrealm
  intro v
  refine ⟨fun hv => ?_, fun hv => ?_⟩
  · rcases List.mem_append.mp hv with hmem | hmem
    · exact absurd rfl (hown _ (List.mem_map_of_mem hmem)).1
    · have hne : stunNonce ≠ stunUsername ∧ stunNonce ≠ stunRealm := by decide
      simpa [hne] using hmem
  · rcases List.mem_append.mp hv with hmem | hmem
    · exact absurd rfl (hown _ (List.mem_map_of_mem hmem)).2
    · have hne : stunRealm ≠ stunUsername ∧ stunRealm ≠ stunNonce := by decide
      rw [← hstring]
      simpa [hne] using hmem

/-- What is sent, and what stays of nonce and realm. -/
structure SendsWith (session : TurnSession) (sent : List TurnSent) (session' : TurnSession) :
    Prop where
  uses : ∀ s ∈ sent, s.request.Uses session.nonce session.realmString
  nonce : session'.nonce = session.nonce
  realm : session'.realm = session.realm

theorem sendsWith_nil (session : TurnSession) : SendsWith session [] session :=
  ⟨fun _ hs => (nomatch hs), rfl, rfl⟩

theorem sendsWith_trans {s t u : TurnSession} {xs ys : List TurnSent} (h : SendsWith s xs t)
    (k : SendsWith t ys u) : SendsWith s (xs ++ ys) u := by
  refine ⟨fun x hx => ?_, k.nonce.trans h.nonce, k.realm.trans h.realm⟩
  rcases List.mem_append.mp hx with hmem | hmem
  · exact h.uses x hmem
  · have huses := k.uses x hmem
    rwa [h.nonce, realmString_congr h.realm] at huses

theorem sendsWith_one {messageType : Nat} {attributes : List (Nat × List UInt8)}
    {peer : Option TurnPeer}
    (h : turnEncodeWith session messageType attributes = .ret (request, session'))
    (hown : ∀ type ∈ attributes.map Prod.fst, type ≠ stunNonce ∧ type ≠ stunRealm) :
    SendsWith session [⟨request, peer⟩] session' := by
  have hchanges := turnEncodeWith_changes h
  refine ⟨fun s hs => ?_, by rw [hchanges], by rw [hchanges]⟩
  rw [List.mem_singleton.mp hs]
  exact turnEncodeWith_uses hown h

theorem ownTypes_permission :
    ∀ type ∈ [stunXorPeerAddress], type ≠ stunNonce ∧ type ≠ stunRealm := by decide

theorem ownTypes_bindChannel :
    ∀ type ∈ [stunChannelNumber, stunXorPeerAddress], type ≠ stunNonce ∧ type ≠ stunRealm := by
  decide

theorem sendsWith_peers {permissions channels : Bool} {peers : List TurnPeer}
    (h : turnEncodePeers permissions channels peers session = .ret (sent, session')) :
    SendsWith session sent session' := by
  induction peers generalizing session sent with
  | nil =>
    cases h
    exact sendsWith_nil _
  | cons peer rest ih =>
    unfold turnEncodePeers at h
    split at h
    · obtain ⟨⟨request, mid⟩, hone, h⟩ := Call.bind_eq_ret.mp h
      obtain ⟨⟨sent', last⟩, hrest, h⟩ := Call.bind_eq_ret.mp h
      cases h
      exact sendsWith_trans (sendsWith_one hone ownTypes_permission) (ih hrest)
    · split at h
      · obtain ⟨⟨request, mid⟩, hone, h⟩ := Call.bind_eq_ret.mp h
        obtain ⟨⟨sent', last⟩, hrest, h⟩ := Call.bind_eq_ret.mp h
        cases h
        exact sendsWith_trans (sendsWith_one hone ownTypes_bindChannel) (ih hrest)
      · exact ih h

theorem sendsWith_sendOne {messageType : Nat} {attributes : List (Nat × List UInt8)}
    (h : turnSendOne (turnEncodeWith session messageType attributes) = .ret (sent, session'))
    (hown : ∀ type ∈ attributes.map Prod.fst, type ≠ stunNonce ∧ type ≠ stunRealm) :
    SendsWith session sent session' := by
  obtain ⟨⟨request, mid⟩, hone, h⟩ := Call.bind_eq_ret.mp h
  cases h
  exact sendsWith_one hone hown

theorem sendsWith_refresh (h : turnconnRefreshAllocate session now = .ret (sent, session')) :
    SendsWith session sent session' := by
  unfold turnconnRefreshAllocate at h
  extract_lets state at h
  split at h
  · cases h
    exact ⟨fun _ hs => (nomatch hs), rfl, rfl⟩
  · split at h
    · exact sendsWith_sendOne h (fun _ ht => by simp at ht)
    · cases h
      exact sendsWith_nil session

/-- Each pass of the loop sends with what the session has. -/
theorem sendsWith_pass (h : runTurnconnApp session now = .ret (sent, session')) :
    SendsWith session sent session' := by
  have htransport : ∀ type ∈ [stunRequestTransport], type ≠ stunNonce ∧ type ≠ stunRealm := by
    decide
  have hlifetime : ∀ type ∈ [stunLifetime], type ≠ stunNonce ∧ type ≠ stunRealm := by decide
  unfold runTurnconnApp at h
  split at h
  · cases h
    refine ⟨fun s hs v => ?_, rfl, rfl⟩
    rw [List.mem_singleton.mp hs]
    have hne : stunNonce ≠ stunUsername ∧ stunRealm ≠ stunUsername := by decide
    simp [turnEncodeRequest, hne]
  · cases h
    refine ⟨fun s hs v => ?_, rfl, rfl⟩
    rw [List.mem_singleton.mp hs]
    have hne : stunNonce ≠ stunRequestTransport ∧ stunRealm ≠ stunRequestTransport := by decide
    simp [hne]
  · exact sendsWith_sendOne h htransport
  · exact sendsWith_peers h
  · exact sendsWith_peers h
  · obtain ⟨⟨refresh, mid⟩, hrefresh, h⟩ := Call.bind_eq_ret.mp h
    obtain ⟨⟨sent', last⟩, hsent, h⟩ := Call.bind_eq_ret.mp h
    cases h
    exact sendsWith_trans (sendsWith_refresh hrefresh) (sendsWith_peers hsent)
  · have hclose := sendsWith_sendOne h hlifetime
    exact ⟨hclose.uses, hclose.nonce, hclose.realm⟩

theorem sendsWith_stop (h : turnconnStop session = .ret (sent, session')) :
    SendsWith session sent session' := by
  have hlifetime : ∀ type ∈ [stunLifetime], type ≠ stunNonce ∧ type ≠ stunRealm := by decide
  obtain ⟨⟨request, mid⟩, hone, h⟩ := Call.bind_eq_ret.mp h
  cases h
  have hsend : SendsWith _ [⟨request, none⟩] mid := sendsWith_one hone hlifetime
  exact ⟨hsend.uses, hsend.nonce, hsend.realm⟩

end Sending

section Runs

variable {w w' : RenewWorld} {e : TurnEvent} {es : List TurnEvent} {world world' : TurnWorld}

/-- What one event does to nonce and realm, and what it sends. -/
theorem turnStep_renews (h : TurnStep world e world') :
    ((∃ answers now data nb, e = .receive answers now data nb) ∧ world'.sent = world.sent ∨
      (∀ nonce realm, ¬ e.Challenges nonce realm) ∧
        world'.session.nonce = world.session.nonce ∧
        world'.session.realm = world.session.realm ∧
        ∃ sent, world'.sent = world.sent ++ sent ∧
          ∀ s ∈ sent, s.request.Uses world.session.nonce world.session.realmString) := by
  cases e with
  | addPeer uid receiveUser address =>
    obtain ⟨session, hadd, hret⟩ := Call.bind_eq_ret.mp h
    obtain ⟨n, rfl⟩ := turnconnAddPeer_ret hadd
    cases hret
    exact .inr ⟨fun _ _ hno => hno, rfl, rfl, [], (List.append_nil _).symm, fun _ hs => nomatch hs⟩
  | removePeer uid =>
    obtain ⟨session, hremove, hret⟩ := Call.bind_eq_ret.mp h
    cases hret
    obtain ⟨gone, -, rfl⟩ | ⟨-, rfl⟩ := turnconnRemovePeer_ret hremove
    · exact .inr ⟨fun _ _ hno => hno, rfl, rfl, [], (List.append_nil _).symm,
        fun _ hs => nomatch hs⟩
    · exact .inr ⟨fun _ _ hno => hno, rfl, rfl, [], (List.append_nil _).symm,
        fun _ hs => nomatch hs⟩
  | start =>
    cases h
    refine .inr ⟨fun _ _ hno => hno, ?_, ?_, [], (List.append_nil _).symm, fun _ hs => nomatch hs⟩
    · simp only [turnconnStart]
      split <;> rfl
    · simp only [turnconnStart]
      split <;> rfl
  | pass now =>
    unfold TurnStep turnRun at h
    dsimp only at h
    split at h
    · obtain ⟨⟨sent, session⟩, hpass, hret⟩ := Call.bind_eq_ret.mp h
      cases hret
      have hsend := sendsWith_pass hpass
      exact .inr ⟨fun _ _ hno => hno, hsend.nonce, hsend.realm, sent, rfl, hsend.uses⟩
    · cases h
      exact .inr ⟨fun _ _ hno => hno, rfl, rfl, [], (List.append_nil _).symm,
        fun _ hs => nomatch hs⟩
  | receive answers now data nb =>
    obtain ⟨⟨session, out⟩, -, hret⟩ := Call.bind_eq_ret.mp h
    cases hret
    exact .inl ⟨⟨_, _, _, _, rfl⟩, rfl⟩
  | stop =>
    obtain ⟨⟨sent, session⟩, hstop, hret⟩ := Call.bind_eq_ret.mp h
    cases hret
    have hsend := sendsWith_stop hstop
    exact .inr ⟨fun _ _ hno => hno, hsend.nonce, hsend.realm, sent, rfl, hsend.uses⟩

/-- The session has what the server has asked for last. -/
structure HasAsked (w : RenewWorld) : Prop where
  nonce : ∀ nonce, w.nonce = some nonce → nonce ≠ [] ∧ w.world.session.nonce = nonce
  realm : ∀ realm, w.realm = some realm → realm ≠ [] ∧ w.world.session.realmString = realm

theorem HasAsked.renewed (hw : HasAsked w) (e : TurnEvent) : Renewed w e := by
  rintro w' ⟨hstep, -⟩ sent hsent v
  obtain ⟨-, hsame⟩ | ⟨-, -, -, new, hnew, huses⟩ := turnStep_renews hstep
  · rw [hsame, List.drop_length] at hsent
    cases hsent
  · rw [hnew, List.drop_left] at hsent
    obtain ⟨hnonce, hrealm⟩ := huses sent hsent v
    refine ⟨fun hv nonce hasked => ?_, fun hv realm hasked => ?_⟩
    · rw [hnonce hv, (hw.nonce nonce hasked).2]
    · rw [hrealm hv, (hw.realm realm hasked).2]

theorem takeWhile_string {r : List UInt8} (h : 0 ∉ r) : r.takeWhile (· ≠ 0) = r :=
  List.takeWhile_eq_self_iff.mpr fun _ hb => decide_eq_true fun hzero => h (hzero ▸ hb)

theorem HasAsked.next (hw : HasAsked w) (he : e.Renews w) (h : RenewStep w e w') :
    HasAsked w' := by
  obtain ⟨hstep, hasked⟩ := h
  obtain ⟨⟨answers, now, data, nb, rfl⟩, -⟩ | ⟨hother, hnonce, hrealm, -⟩ := turnStep_renews hstep
  · obtain ⟨⟨session, out⟩, hreceive, hret⟩ := Call.bind_eq_ret.mp hstep
    have hsession : w'.world.session = session := (congrArg TurnWorld.session (Call.ret.inj hret)).symm
    obtain ⟨hkeepNonce, hkeepRealm⟩ := receive_keeps hreceive
    rw [← hsession] at hkeepNonce hkeepRealm
    obtain ⟨nonce, realm, hchallenge, hnonce', hrealm'⟩ | ⟨-, hnonce', hrealm'⟩ := hasked
    · obtain ⟨hn, hr⟩ := he nonce realm hchallenge
      obtain ⟨htakeNonce, htakeRealm⟩ := receive_challenge hreceive hchallenge
      rw [← hsession] at htakeNonce htakeRealm
      refine ⟨fun n heq => ?_, fun r heq => ?_⟩
      · obtain rfl := Option.some.inj (hnonce'.symm.trans heq)
        obtain ⟨hne, -, hempty | hsame⟩ := hn
        · exact ⟨hne, htakeNonce hempty hne⟩
        · exact ⟨hne, (hkeepNonce (hsame ▸ hne)).trans hsame⟩
      · rw [hrealm'] at heq
        cases realm with
        | some r' =>
          obtain rfl := Option.some.inj heq
          obtain ⟨⟨hne, -, hzero⟩, hempty | hsame⟩ := hr r' rfl
          · refine ⟨hne, ?_⟩
            rw [TurnSession.realmString, htakeRealm r' rfl hempty, takeWhile_string hzero]
          · exact ⟨hne, (realmString_congr (hkeepRealm (hsame ▸ hne))).trans hsame⟩
        | none =>
          obtain ⟨hne, hsame⟩ := hw.realm r heq
          exact ⟨hne, (realmString_congr (hkeepRealm (hsame ▸ hne))).trans hsame⟩
    · refine ⟨fun n heq => ?_, fun r heq => ?_⟩
      · obtain ⟨hne, hsame⟩ := hw.nonce n (hnonce' ▸ heq)
        exact ⟨hne, (hkeepNonce (hsame ▸ hne)).trans hsame⟩
      · obtain ⟨hne, hsame⟩ := hw.realm r (hrealm' ▸ heq)
        exact ⟨hne, (realmString_congr (hkeepRealm (hsame ▸ hne))).trans hsame⟩
  · obtain ⟨nonce, realm, hchallenge, -⟩ | ⟨-, hnonce', hrealm'⟩ := hasked
    · exact absurd hchallenge (hother nonce realm)
    · refine ⟨fun n heq => ?_, fun r heq => ?_⟩
      · rw [hnonce]
        exact hw.nonce n (hnonce' ▸ heq)
      · rw [realmString_congr hrealm]
        exact hw.realm r (hrealm' ▸ heq)

end Runs

section Conversation

theorem carries_unique {attrs : List (Nat × List UInt8)} {type : Nat} {v v' : List UInt8}
    (h : Carries attrs type v) (h' : Carries attrs type v') : v = v' := h'.2 v h.1

/-- A datagram asks for one nonce, and for one realm at most. -/
theorem challenge_unique {data : Mem} {nb : Nat} {nonce nonce' : List UInt8}
    {realm realm' : Option (List UInt8)} (h : Challenge data nb nonce realm)
    (h' : Challenge data nb nonce' realm') : nonce = nonce' ∧ realm = realm' := by
  obtain ⟨type, attrs, code, -, hmessage, -, -, hnonce, hrealm⟩ := h
  obtain ⟨type', attrs', code', -, hmessage', -, -, hnonce', hrealm'⟩ := h'
  obtain rfl := attributes_unique hmessage.attributes hmessage'.attributes
  refine ⟨carries_unique hnonce hnonce', ?_⟩
  cases realm with
  | some r =>
    cases realm' with
    | some r' => rw [carries_unique hrealm hrealm']
    | none => exact absurd hrealm.1 (hrealm' r)
  | none =>
    cases realm' with
    | some r' => exact absurd hrealm'.1 (hrealm r')
    | none => rfl

/-- The server refuses the `i`-th request, which was for an allocation, for want of these
credentials. -/
def turnChallenge (i : Nat) (code : UInt8) (nonce realm : List UInt8) : TurnEvent :=
  let bytes := stunBytes stunAllocateErrorResponse
    [(stunErrorCode, [0, 0, 4, code]), (stunRealm, realm), (stunNonce, nonce)]
  .receive (some i) 0 (ofList bytes) bytes.length

theorem turnChallenge_challenges (i : Nat) {code : UInt8} (hcode : code = 1 ∨ code = 38)
    (n : UInt8) : (turnChallenge i code [n] [2]).Challenges [n] (some [2]) := by
  refine ⟨_, _, [0, 0, 4, code], by decide, stunMessage_of_list (by decide) ?_ ?_, ?_, ?_, ?_, ?_⟩
  · simp [stunErrorCode, stunRealm, stunNonce]
  · simp [stunAttributeBytes]
  · simp [Carries, stunErrorCode, stunRealm, stunNonce]
  · rcases hcode with rfl | rfl
    · exact .inl rfl
    · exact .inr rfl
  · simp [Carries, stunErrorCode, stunRealm, stunNonce]
  · simp [Carries, stunErrorCode, stunRealm, stunNonce]

theorem answer_not_challenge {i type : Nat} (h : isTurnError ((ofList (stunBare type)).be 0 2) = false)
    (nonce : List UInt8) (realm : Option (List UInt8)) :
    ¬ (turnAnswer i type).Challenges nonce realm := by
  rintro ⟨type', attrs, code, herr, hmessage, -⟩
  rw [hmessage.type, herr] at h
  cases h

end Conversation

end MetaRtc
