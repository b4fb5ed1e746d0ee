import MetaRtc.Ice.Stun
import MetaRtc.Sdp.CString

/-! # The decoders of STUN messages

Two of them take the packet from its message, one only looks whether it is whole. -/
namespace MetaRtc

open Bytes Exec

def stunXorMappedAddress : Nat := 0x0020
def stunUseCandidate : Nat := 0x0025
def stunIceControlled : Nat := 0x8029
def stunIceControlling : Nat := 0x802A

/-- `username` is the whole array, of 32 bytes, and each ufrag the text in its own. -/
structure StunPacket where
  messageType : Nat := 0
  mappedPort : Nat := 0
  useCandidate : Bool := false
  iceControlled : Bool := false
  iceControlling : Bool := false
  mappedAddress : Nat := 0
  localUfrag : CStr := []
  remoteUfrag : CStr := []
  transcationId : List UInt8 := List.replicate 12 0
  username : List UInt8 := List.replicate 32 0
  deriving DecidableEq

section Decoders

/-- The names in a username. -/
def usernameNames (val : List UInt8) : List CStr := cstrSplit (val.takeWhile (· ≠ 0)) colon

def decodeUfrags (pkt : StunPacket) : List CStr → Call StunPacket
  | [] => .ret pkt
  | [p] => do
    let localUfrag ← strcpy 16 p
    return { pkt with localUfrag }
  | p :: q :: _ => do
    let localUfrag ← strcpy 16 p
    let remoteUfrag ← strcpy 32 q
    return { pkt with localUfrag, remoteUfrag }

def decodeUsername (pkt : StunPacket) (val : List UInt8) : Call StunPacket :=
  if val.length ≤ 32 then
    decodeUfrags { pkt with username := val ++ pkt.username.drop val.length } (usernameNames val)
  else .crash

def decodeStunAttribute (pkt : StunPacket) (type : Nat) (val : List UInt8) : Call StunPacket :=
  if type = stunUsername then decodeUsername pkt val
  else if type = stunUseCandidate then .ret { pkt with useCandidate := true }
  else if type = stunIceControlled then .ret { pkt with iceControlled := true }
  else if type = stunIceControlling then .ret { pkt with iceControlling := true }
  else .ret pkt

def decodeRtcstunAttribute (pkt : StunPacket) (type : Nat) (val : List UInt8) : Call StunPacket :=
  if type = stunXorMappedAddress then do
    let port ← attributeBytes val 2 2
    let address ← attributeBytes val 4 4
    return { pkt with
      mappedPort := beNat port ^^^ (kStunMagicCookie / 2 ^ 16)
      mappedAddress := beNat address ^^^ kStunMagicCookie }
  else decodeStunAttribute pkt type val

/-- A message, with what is done with each of its attributes. -/
def stunDecode (onAttr : StunPacket → Nat → List UInt8 → Call StunPacket) (pkt : StunPacket)
    (buf : Mem) (nbBuf : Nat) : Call (Err × StunPacket) :=
  let stream := initBuffer buf nbBuf
  if stream.left < 20 then .ret (errorRtcStun, pkt)
  else
    let (messageType, stream) := stream.read2bytes
    let (messageLen, stream) := stream.read2bytes
    let (_, stream) := stream.readBytes 4 4
    let (transcationId, stream) := stream.readBytes 12 13
    let pkt := { pkt with messageType, transcationId }
    if nbBuf ≠ 20 + messageLen then .ret (errorRtcStun, pkt)
    else attributeLoop onAttr nbBuf pkt stream

def decodeStun (pkt : StunPacket) (buf : Mem) (nbBuf : Nat) : Call (Err × StunPacket) :=
  stunDecode decodeStunAttribute pkt buf nbBuf

def decodeRtcstun (pkt : StunPacket) (buf : Mem) (nbBuf : Nat) : Call (Err × StunPacket) :=
  stunDecode decodeRtcstunAttribute pkt buf nbBuf

def decodeStun2Loop : Nat → YangBuffer → Err
  | 0, _ => yangOk
  | fuel + 1, stream =>
    if stream.left < 4 then yangOk
    else
      let stream := stream.skip 2
      let (len, stream) := stream.read2bytes
      if stream.left < len then errorRtcStun
      else
        let stream := stream.skip len
        let stream := if len % 4 ≠ 0 then stream.skip (4 - len % 4) else stream
        decodeStun2Loop fuel stream

/-- Nothing is taken from the message. -/
def decodeStun2 (buf : Mem) (nbBuf : Nat) : Err :=
  let stream := initBuffer buf nbBuf
  if stream.left < 20 then errorRtcStun
  else
    let stream := stream.skip 2
    let (messageLen, stream) := stream.read2bytes
    let stream := stream.skip 4
    let stream := stream.skip 12
    if nbBuf ≠ 20 + messageLen then errorRtcStun
    else decodeStun2Loop nbBuf stream

end Decoders

section Walks

variable {onAttr : StunPacket → Nat → List UInt8 → Call StunPacket} {pkt : StunPacket}
  {data : Mem} {nb : Nat}

/-- The packet with what comes before the attributes. -/
def stunHeader (pkt : StunPacket) (data : Mem) (nb : Nat) : StunPacket :=
  if nb < 20 then pkt
  else { pkt with messageType := data.be 0 2, transcationId := data.slice 8 12 }

theorem stunDecode_walk (onAttr : StunPacket → Nat → List UInt8 → Call StunPacket)
    (pkt : StunPacket) (data : Mem) (nb : Nat) :
    stunDecode onAttr pkt data nb =
      (attributeFold onAttr (stunHeader pkt data nb) (stunWalk data nb).1 >>= fun s =>
        .ret (if (stunWalk data nb).2 then yangOk else errorRtcStun, s)) := by
  have hleft : (initBuffer data nb).left < 20 ↔ nb < 20 := by
    simp only [YangBuffer.left, initBuffer]
    omega
  have hdecode : stunDecode onAttr pkt data nb =
      if (initBuffer data nb).left < 20 then .ret (errorRtcStun, pkt)
      else
        let pkt := { pkt with messageType := data.be 0 2, transcationId := data.slice 8 12 }
        if nb ≠ 20 + data.be 2 2 then .ret (errorRtcStun, pkt)
        else attributeLoop onAttr nb pkt
          (((((initBuffer data nb).take 2).take 2).take 4).take 12) := rfl
  rw [hdecode, stunWalk, stunHeader]
  by_cases hshort : nb < 20
  · have hsized : ¬ StunSized data nb := fun h => absurd h.1 (Nat.not_le.mpr hshort)
    rw [if_pos (hleft.mpr hshort), if_neg hsized, if_pos hshort]
    rfl
  · rw [if_neg (mt hleft.mp hshort), if_neg hshort]
    dsimp only
    by_cases hlen : nb = 20 + data.be 2 2
    · have hsized : StunSized data nb := ⟨Nat.not_lt.mp hshort, hlen⟩
      rw [if_neg (not_not.mpr hlen), if_pos hsized, attributeLoop_walk]
      rfl
    · have hsized : ¬ StunSized data nb := fun h => hlen h.2
      rw [if_pos hlen, if_neg hsized]
      rfl

theorem decodeStun2Loop_walk (fuel : Nat) (stream : YangBuffer) :
    decodeStun2Loop fuel stream =
      if (attributeWalk stream.data stream.size fuel stream.head).2 then yangOk
      else errorRtcStun := by
  induction fuel generalizing stream with
  | zero => rfl
  | succ fuel ih =>
    rw [decodeStun2Loop, attributeWalk]
    by_cases hend : stream.size < stream.head + 4
    · have hleft : stream.left < 4 := by
        unfold YangBuffer.left
        omega
      rw [if_pos hleft, if_pos hend]
      rfl
    · have hleft : ¬ stream.left < 4 := by
        unfold YangBuffer.left
        omega
      have hplace : (stream.head + (2 : Int)).toNat = stream.head + 2 := by omega
      rw [if_neg hleft, if_neg hend]
      simp only [YangBuffer.read2bytes, YangBuffer.readNum, YangBuffer.left, YangBuffer.take_size,
        YangBuffer.take_head, YangBuffer.skip_size, YangBuffer.skip_head, YangBuffer.skip_data,
        hplace]
      by_cases hlong : stream.size < stream.head + 4 + stream.data.be (stream.head + 2) 2
      · rw [if_pos (by omega), if_pos hlong]
        rfl
      · rw [if_neg (by omega), if_neg hlong]
        dsimp only
        rw [ih]
        by_cases hfull : stream.data.be (stream.head + 2) 2 % 4 = 0
        · rw [if_neg (not_not.mpr hfull)]
          simp only [YangBuffer.take_size, YangBuffer.take_head, YangBuffer.take_data,
            YangBuffer.skip_size, YangBuffer.skip_head, YangBuffer.skip_data]
          congr 4
          omega
        · rw [if_pos hfull]
          simp only [YangBuffer.take_size, YangBuffer.take_head, YangBuffer.take_data,
            YangBuffer.skip_size, YangBuffer.skip_head, YangBuffer.skip_data]
          congr 4
          omega

theorem decodeStun2_walk (data : Mem) (nb : Nat) :
    decodeStun2 data nb = if (stunWalk data nb).2 then yangOk else errorRtcStun := by
  have hleft : (initBuffer data nb).left < 20 ↔ nb < 20 := by
    simp only [YangBuffer.left, initBuffer]
    omega
  have hdecode : decodeStun2 data nb =
      if (initBuffer data nb).left < 20 then errorRtcStun
      else if nb ≠ 20 + data.be 2 2 then errorRtcStun
      else decodeStun2Loop nb (((((initBuffer data nb).skip 2).take 2).skip 4).skip 12) := rfl
  rw [hdecode, stunWalk]
  by_cases hshort : nb < 20
  · have hsized : ¬ StunSized data nb := fun h => absurd h.1 (Nat.not_le.mpr hshort)
    rw [if_pos (hleft.mpr hshort), if_neg hsized]
    rfl
  · rw [if_neg (mt hleft.mp hshort)]
    by_cases hlen : nb = 20 + data.be 2 2
    · have hsized : StunSized data nb := ⟨Nat.not_lt.mp hshort, hlen⟩
      rw [if_neg (not_not.mpr hlen), if_pos hsized, decodeStun2Loop_walk]
      rfl
    · have hsized : ¬ StunSized data nb := fun h => hlen h.2
      rw [if_pos hlen, if_neg hsized]
      rfl

end Walks

section Accesses

/-- Bytes of an attribute are copied to a field, a text is written to an array or read from one,
or bytes are read from an attribute that is `len` long. -/
inductive FieldAccess where
  | copy (n room : Nat)
  | text (n room : Nat)
  | read (i n len : Nat)
  deriving DecidableEq

/-- The access is one to memory that is there, with so many bytes behind an attribute. -/
def FieldAccess.Within (slack : Nat) : FieldAccess → Prop
  | .copy n room => n ≤ room
  | .text n room => n < room
  | .read i n len => i + n ≤ len + slack

def usernameAccesses (val : List UInt8) : List FieldAccess :=
  .copy val.length 32 ::
    match usernameNames val with
    | [] => []
    | [p] => [.text p.length 16]
    | p :: q :: _ => [.text p.length 16, .text q.length 32]

def stunAccesses (_ : StunPacket) (type : Nat) (val : List UInt8) : List FieldAccess :=
  if type = stunUsername then usernameAccesses val else []

def rtcstunAccesses (pkt : StunPacket) (type : Nat) (val : List UInt8) : List FieldAccess :=
  if type = stunXorMappedAddress then [.read 2 2 val.length, .read 4 4 val.length]
  else stunAccesses pkt type val

def turnAccesses (session : TurnSession) (type : Nat) (val : List UInt8) : List FieldAccess :=
  if type = stunErrorCode then [.read 2 1 val.length, .read 3 1 val.length]
  else if type = stunXorRelayedAddress then [.read 2 2 val.length, .read 4 4 val.length]
  else if type = stunLifetime then [.read 0 4 val.length]
  else if type = stunRealm then
    .text (session.realm.takeWhile (· ≠ 0)).length 129 ::
      if session.realm.takeWhile (· ≠ 0) = [] then [.copy val.length 129] else []
  else if type = stunNonce then
    if session.nonce = [] then [.copy val.length 128] else []
  else []

/-- The decoder comes to its end, and has made no access outside of a field or an attribute. -/
structure StaysInside {σ : Type} (decoded : Call (Err × σ))
    (onAttr : σ → Nat → List UInt8 → Call σ) (accesses : σ → Nat → List UInt8 → List FieldAccess)
    (s : σ) (attrs : List (Nat × List UInt8)) : Prop where
  returns : ∃ r, decoded = .ret r
  inside : Run.Throughout (fun s attr s' => onAttr s attr.1 attr.2 = .ret s')
    (fun s attr => ∀ access ∈ accesses s attr.1 attr.2, access.Within 0) attrs s

/-- The username and the names in it fit in the packet. -/
structure UsernameFits (val : List UInt8) : Prop where
  whole : val.length ≤ 32
  first : ∀ p, (usernameNames val)[0]? = some p → p.length ≤ 15
  second : ∀ q, (usernameNames val)[1]? = some q → q.length ≤ 31

/-- The attributes of a message fit in the packet. -/
def UsernamesFit (attrs : List (Nat × List UInt8)) : Prop :=
  ∀ attr ∈ attrs, attr.1 = stunUsername → UsernameFits attr.2

def MappedFits (slack : Nat) (attrs : List (Nat × List UInt8)) : Prop :=
  ∀ attr ∈ attrs, attr.1 = stunXorMappedAddress → 8 ≤ attr.2.length + slack

variable {pkt : StunPacket} {session : TurnSession} {type slack : Nat} {val : List UInt8}
  {attrs : List (Nat × List UInt8)} {data : Mem} {nb : Nat}

theorem usernameAccesses_within :
    (∀ access ∈ usernameAccesses val, access.Within slack) ↔ UsernameFits val := by
  unfold usernameAccesses
  rw [List.forall_mem_cons]
  constructor
  · rintro ⟨hwhole, hnames⟩
    refine ⟨hwhole, fun p hp => ?_, fun q hq => ?_⟩
    · cases hn : usernameNames val with
      | nil =>
        rw [hn] at hp
        cases hp
      | cons p' names =>
        rw [hn] at hp hnames
        obtain rfl : p' = p := Option.some.inj hp
        have hfirst : (FieldAccess.text p'.length 16).Within slack := by
          cases names with
          | nil => exact hnames _ List.mem_cons_self
          | cons => exact hnames _ List.mem_cons_self
        exact Nat.le_of_lt_succ hfirst
    · match hn : usernameNames val with
      | [] =>
        rw [hn] at hq
        cases hq
      | [p] =>
        rw [hn] at hq
        cases hq
      | p :: q' :: names =>
        rw [hn] at hq hnames
        obtain rfl : q' = q := Option.some.inj hq
        have hsecond : (FieldAccess.text q'.length 32).Within slack :=
          hnames _ (List.mem_cons_of_mem _ List.mem_cons_self)
        exact Nat.le_of_lt_succ hsecond
  · intro h
    refine ⟨h.whole, ?_⟩
    match hn : usernameNames val with
    | [] => exact fun _ hmem => absurd hmem List.not_mem_nil
    | [p] =>
      have hfirst := h.first p (by rw [hn]; rfl)
      exact List.forall_mem_singleton.mpr (Nat.lt_succ_of_le hfirst)
    | p :: q :: names =>
      have hfirst := h.first p (by rw [hn]; rfl)
      have hsecond := h.second q (by rw [hn]; rfl)
      exact List.forall_mem_cons.mpr ⟨Nat.lt_succ_of_le hfirst,
        List.forall_mem_singleton.mpr (Nat.lt_succ_of_le hsecond)⟩

theorem stunAccesses_within :
    (∀ access ∈ stunAccesses pkt type val, access.Within slack) ↔
      (type = stunUsername → UsernameFits val) := by
  unfold stunAccesses
  by_cases hname : type = stunUsername
  · rw [if_pos hname, usernameAccesses_within, forall_prop_of_true hname]
  · rw [if_neg hname]
    exact iff_of_true (fun _ hmem => absurd hmem List.not_mem_nil) fun h => absurd h hname

theorem rtcstunAccesses_within :
    (∀ access ∈ rtcstunAccesses pkt type val, access.Within slack) ↔
      (type = stunUsername → UsernameFits val) ∧
        (type = stunXorMappedAddress → 8 ≤ val.length + slack) := by
  unfold rtcstunAccesses
  by_cases hmapped : type = stunXorMappedAddress
  · subst hmapped
    rw [if_pos rfl, List.forall_mem_cons, List.forall_mem_singleton, forall_prop_of_true rfl]
    simp only [FieldAccess.Within]
    constructor
    · rintro ⟨-, hlast⟩
      exact ⟨fun h => absurd h (by decide), hlast⟩
    · rintro ⟨-, hlast⟩
      exact ⟨by omega, hlast⟩
  · rw [if_neg hmapped, stunAccesses_within]
    exact (and_iff_left fun h => absurd h hmapped).symm

theorem turnAccesses_within :
    (∀ access ∈ turnAccesses session type val, access.Within slack) ↔
      TurnBound slack session type val := by
  unfold turnAccesses
  by_cases herror : type = stunErrorCode
  · subst herror
    rw [if_pos rfl, List.forall_mem_cons, List.forall_mem_singleton]
    constructor
    · rintro ⟨-, hlast⟩
      exact ⟨hlast, fun h => absurd h (by decide), fun h => absurd h (by decide)⟩
    · intro h
      have hlast : 4 ≤ val.length + slack := h.fixed
      exact ⟨Nat.le_of_succ_le hlast, hlast⟩
  rw [if_neg herror]
  by_cases hrelayed : type = stunXorRelayedAddress
  · subst hrelayed
    rw [if_pos rfl, List.forall_mem_cons, List.forall_mem_singleton]
    constructor
    · rintro ⟨-, hlast⟩
      exact ⟨hlast, fun h => absurd h (by decide), fun h => absurd h (by decide)⟩
    · intro h
      have hlast : 8 ≤ val.length + slack := h.fixed
      exact ⟨(show 2 + 2 ≤ 8 by decide).trans hlast, hlast⟩
  rw [if_neg hrelayed]
  by_cases hlifetime : type = stunLifetime
  · subst hlifetime
    rw [if_pos rfl, List.forall_mem_singleton]
    constructor
    · intro hread
      refine ⟨(show 4 ≤ 0 + 4 by decide).trans hread, ?_, ?_⟩
      · exact fun h => absurd h (by decide)
      · exact fun h => absurd h (by decide)
    · intro h
      have hlast : 4 ≤ val.length + slack := h.fixed
      exact (show 0 + 4 ≤ 4 by decide).trans hlast
  rw [if_neg hlifetime]
  have hread : turnFixed type ≤ val.length + slack := by
    rw [turnFixed, if_neg herror, if_neg hrelayed, if_neg hlifetime]
    exact Nat.zero_le _
  by_cases hrealm : type = stunRealm
  · subst hrealm
    rw [if_pos rfl, List.forall_mem_cons]
    have hkept : (∀ access ∈ (if session.realm.takeWhile (· ≠ 0) = [] then
        [FieldAccess.copy val.length 129] else []), access.Within slack) ↔
        (session.realm.takeWhile (· ≠ 0) = [] → val.length ≤ 129) := by
      by_cases hempty : session.realm.takeWhile (· ≠ 0) = []
      · rw [if_pos hempty, List.forall_mem_singleton, forall_prop_of_true hempty]
        rfl
      · rw [if_neg hempty]
        exact iff_of_true (fun _ hmem => absurd hmem List.not_mem_nil) fun h => absurd h hempty
    rw [hkept]
    constructor
    · intro hin
      exact ⟨hread, fun _ => hin, fun h => absurd h (by decide)⟩
    · intro h
      exact h.realm rfl
  rw [if_neg hrealm]
  by_cases hnonce : type = stunNonce
  · subst hnonce
    rw [if_pos rfl]
    by_cases hempty : session.nonce = []
    · rw [if_pos hempty, List.forall_mem_singleton]
      constructor
      · intro hcopy
        exact ⟨hread, fun h => absurd h (by decide), fun _ _ => hcopy⟩
      · intro h
        exact h.nonce rfl hempty
    · rw [if_neg hempty]
      refine iff_of_true (fun _ hmem => absurd hmem List.not_mem_nil) ?_
      exact ⟨hread, fun h => absurd h (by decide), fun _ h => absurd h hempty⟩
  rw [if_neg hnonce]
  refine iff_of_true (fun _ hmem => absurd hmem List.not_mem_nil) ?_
  exact ⟨hread, fun h => absurd h hrealm, fun h => absurd h hnonce⟩

end Accesses

section Returns

variable {pkt : StunPacket} {session : TurnSession} {type : Nat} {val : List UInt8}
  {attrs : List (Nat × List UInt8)} {data : Mem} {nb : Nat}

theorem decodeUfrags_returns {names : List CStr} :
    (∃ t, decodeUfrags pkt names = .ret t) ↔
      (∀ p, names[0]? = some p → p.length ≤ 15) ∧ ∀ q, names[1]? = some q → q.length ≤ 31 := by
  match names with
  | [] => exact iff_of_true ⟨_, rfl⟩ ⟨fun _ h => (nomatch h), fun _ h => (nomatch h)⟩
  | [p] =>
    refine strcpy_returns.trans ?_
    constructor
    · rintro ⟨hfirst, -⟩
      exact ⟨fun p' h => Option.some.inj h ▸ Nat.le_of_lt_succ hfirst, fun _ h => (nomatch h)⟩
    · rintro ⟨hfirst, -⟩
      exact ⟨Nat.lt_succ_of_le (hfirst p rfl), _, rfl⟩
  | p :: q :: names =>
    refine strcpy_returns.trans ((and_congr_right fun _ => strcpy_returns).trans ?_)
    constructor
    · rintro ⟨hfirst, hsecond, -⟩
      exact ⟨fun p' h => Option.some.inj h ▸ Nat.le_of_lt_succ hfirst,
        fun q' h => Option.some.inj h ▸ Nat.le_of_lt_succ hsecond⟩
    · rintro ⟨hfirst, hsecond⟩
      exact ⟨Nat.lt_succ_of_le (hfirst p rfl), Nat.lt_succ_of_le (hsecond q rfl), _, rfl⟩

theorem decodeUsername_returns : (∃ t, decodeUsername pkt val = .ret t) ↔ UsernameFits val := by
  unfold decodeUsername
  by_cases hwhole : val.length ≤ 32
  · rw [if_pos hwhole, decodeUfrags_returns]
    constructor
    · rintro ⟨hfirst, hsecond⟩
      exact ⟨hwhole, hfirst, hsecond⟩
    · intro h
      exact ⟨h.first, h.second⟩
  · rw [if_neg hwhole]
    refine iff_of_false ?_ fun h => hwhole h.whole
    rintro ⟨t, ht⟩
    cases ht

theorem decodeStunAttribute_returns :
    (∃ t, decodeStunAttribute pkt type val = .ret t) ↔
      (type = stunUsername → UsernameFits val) := by
  unfold decodeStunAttribute
  by_cases hname : type = stunUsername
  · rw [if_pos hname, decodeUsername_returns, forall_prop_of_true hname]
  · rw [if_neg hname]
    refine iff_of_true ?_ fun h => absurd h hname
    split
    · exact ⟨_, rfl⟩
    · split
      · exact ⟨_, rfl⟩
      · split
        · exact ⟨_, rfl⟩
        · exact ⟨_, rfl⟩

theorem decodeRtcstunAttribute_returns :
    (∃ t, decodeRtcstunAttribute pkt type val = .ret t) ↔
      (type = stunUsername → UsernameFits val) ∧
        (type = stunXorMappedAddress → 8 ≤ val.length + 1) := by
  unfold decodeRtcstunAttribute
  by_cases hmapped : type = stunXorMappedAddress
  · subst hmapped
    rw [if_pos rfl, forall_prop_of_true rfl]
    refine (attributeBytes_returns fun _ => attributeBytes_returns fun _ => ret_returns).trans ?_
    constructor
    · rintro ⟨-, hlast, -⟩
      exact ⟨fun h => absurd h (by decide), hlast⟩
    · rintro ⟨-, hlast⟩
      exact ⟨by omega, hlast, trivial⟩
  · rw [if_neg hmapped, decodeStunAttribute_returns]
    exact (and_iff_left fun h => absurd h hmapped).symm

/-- A decoder comes to its end exactly if its fold over the attributes does. -/
theorem walked_returns {σ : Type} {fold : Call σ} {err : Err} :
    (∃ r, (fold >>= fun s => Call.ret (err, s)) = .ret r) ↔ ∃ t, fold = .ret t := by
  rw [bind_returns]
  constructor
  · rintro ⟨t, ht, -⟩
    exact ⟨t, ht⟩
  · rintro ⟨t, ht⟩
    exact ⟨t, ht, _, rfl⟩

/-- Where an attribute is taken exactly if its accesses are to memory that is there, a decoder
stays inside if its accesses do. -/
theorem staysInside_iff {σ : Type} {decoded : Call (Err × σ)}
    {onAttr : σ → Nat → List UInt8 → Call σ} {accesses : σ → Nat → List UInt8 → List FieldAccess}
    {s : σ}
    (htaken : ∀ s type val, (∃ t, onAttr s type val = .ret t) ↔
      ∀ access ∈ accesses s type val, access.Within 1)
    (hdecoded : (∃ r, decoded = .ret r) ↔ ∃ t, attributeFold onAttr s attrs = .ret t) :
    StaysInside decoded onAttr accesses s attrs ↔
      Run.Throughout (fun s attr s' => onAttr s attr.1 attr.2 = .ret s')
        (fun s attr => ∀ access ∈ accesses s attr.1 attr.2, access.Within 0) attrs s := by
  have hslack : ∀ access : FieldAccess, access.Within 0 → access.Within 1 := by
    intro access h
    cases access with
    | copy n room => exact h
    | text n room => exact h
    | read i n len => exact Nat.le_succ_of_le h
  constructor
  · exact fun h => h.inside
  · intro hinside
    refine ⟨hdecoded.mpr (foldlM_returns.mpr ?_), hinside⟩
    refine Run.throughout_imp (fun _ => True) ?_ (fun _ _ _ _ _ _ => trivial) trivial hinside
    intro s attr _ hwithin
    exact (htaken s attr.1 attr.2).mpr fun access hmem => hslack access (hwithin access hmem)

theorem decodeStun_inside (pkt : StunPacket) (data : Mem) (nb : Nat) :
    StaysInside (decodeStun pkt data nb) decodeStunAttribute stunAccesses
      (stunHeader pkt data nb) (stunWalk data nb).1 ↔ UsernamesFit (stunWalk data nb).1 := by
  refine (staysInside_iff (fun s type val => ?_) ?_).trans ?_
  · rw [decodeStunAttribute_returns, stunAccesses_within]
  · rw [decodeStun, stunDecode_walk, walked_returns]
  · refine (Run.throughout_congr fun s attr => stunAccesses_within).trans ?_
    exact Run.throughout_forall (P := fun attr : Nat × List UInt8 => attr.1 = stunUsername → UsernameFits attr.2)
      fun s attr hfits => decodeStunAttribute_returns.mpr hfits

theorem decodeRtcstun_inside (pkt : StunPacket) (data : Mem) (nb : Nat) :
    StaysInside (decodeRtcstun pkt data nb) decodeRtcstunAttribute rtcstunAccesses
      (stunHeader pkt data nb) (stunWalk data nb).1 ↔
      UsernamesFit (stunWalk data nb).1 ∧ MappedFits 0 (stunWalk data nb).1 := by
  refine (staysInside_iff (fun s type val => ?_) ?_).trans ?_
  · rw [decodeRtcstunAttribute_returns, rtcstunAccesses_within]
  · rw [decodeRtcstun, stunDecode_walk, walked_returns]
  · refine (Run.throughout_congr fun s attr => rtcstunAccesses_within).trans ?_
    refine (Run.throughout_forall (P := fun attr : Nat × List UInt8 =>
      (attr.1 = stunUsername → UsernameFits attr.2) ∧
        (attr.1 = stunXorMappedAddress → 8 ≤ attr.2.length + 0)) fun s attr hfits => ?_).trans ?_
    · refine decodeRtcstunAttribute_returns.mpr ⟨hfits.1, fun htype => ?_⟩
      exact Nat.le_succ_of_le (hfits.2 htype)
    · exact forall₂_and

theorem turnDecode_inside (session : TurnSession) (data : Mem) (nb : Nat) :
    StaysInside (turnDecode session data nb) turnAttribute turnAccesses session
      (stunWalk data nb).1 ↔ TurnFits 0 session (stunWalk data nb).1 := by
  refine (staysInside_iff (fun s type val => ?_) ?_).trans ?_
  · rw [turnAttribute_returns, turnAccesses_within]
  · rw [turnDecode_walk, walked_returns]
  · refine (Run.throughout_congr fun s attr => turnAccesses_within).trans ?_
    exact turnFits_throughout (Nat.zero_le 1)

end Returns

section Copies

/-- **Attribute bounds.** Each decoder keeps to its fields and to the attributes it reads from
exactly if the message's attributes fit in them. -/
theorem decoders_inside (pkt : StunPacket) (session : TurnSession) (data : Mem) (nb : Nat) :
    (StaysInside (decodeStun pkt data nb) decodeStunAttribute stunAccesses
        (stunHeader pkt data nb) (stunWalk data nb).1 ↔ UsernamesFit (stunWalk data nb).1) ∧
      (StaysInside (decodeRtcstun pkt data nb) decodeRtcstunAttribute rtcstunAccesses
          (stunHeader pkt data nb) (stunWalk data nb).1 ↔
        UsernamesFit (stunWalk data nb).1 ∧ MappedFits 0 (stunWalk data nb).1) ∧
      (StaysInside (turnDecode session data nb) turnAttribute turnAccesses session
          (stunWalk data nb).1 ↔ TurnFits 0 session (stunWalk data nb).1) :=
  ⟨decodeStun_inside pkt data nb, decodeRtcstun_inside pkt data nb,
    turnDecode_inside session data nb⟩

/-- A message of one attribute. -/
def stunOne (type : Nat) (val : List UInt8) : Mem :=
  ofList (stunBytes stunBindingSuccessResponse [(type, val)])

/-- The username has 33 bytes, the mapped address has no address, the error has no code. -/
theorem attributes_not_measured :
    ¬ StaysInside (decodeStun {} (stunOne stunUsername (List.replicate 33 0x61)) 60)
        decodeStunAttribute stunAccesses
        (stunHeader {} (stunOne stunUsername (List.replicate 33 0x61)) 60)
        (stunWalk (stunOne stunUsername (List.replicate 33 0x61)) 60).1 ∧
      ¬ StaysInside (decodeRtcstun {} (stunOne stunXorMappedAddress [0, 1, 0, 80]) 28)
        decodeRtcstunAttribute rtcstunAccesses
        (stunHeader {} (stunOne stunXorMappedAddress [0, 1, 0, 80]) 28)
        (stunWalk (stunOne stunXorMappedAddress [0, 1, 0, 80]) 28).1 ∧
      ¬ StaysInside (turnDecode {} (stunOne stunErrorCode []) 24) turnAttribute turnAccesses {}
        (stunWalk (stunOne stunErrorCode []) 24).1 := by
  refine ⟨?_, ?_, ?_⟩
  · intro h
    have hfits := (decodeStun_inside {} _ 60).mp h (stunUsername, List.replicate 33 0x61)
      (by decide) rfl
    exact absurd hfits.whole (by decide)
  · intro h
    have hfits := ((decodeRtcstun_inside {} _ 28).mp h).2 (stunXorMappedAddress, [0, 1, 0, 80])
      (by decide) rfl
    exact absurd hfits (by decide)
  · intro h
    have hfits := ((turnDecode_inside {} _ 24).mp h).fixed (stunErrorCode, []) (by decide)
    exact absurd hfits (by decide)

end Copies

section Agreement

variable {pkt s r s' r' : StunPacket} {type : Nat} {val : List UInt8}
  {attrs : List (Nat × List UInt8)} {data : Mem} {nb : Nat}

structure SameFields (s r : StunPacket) : Prop where
  transcationId : s.transcationId = r.transcationId
  username : s.username = r.username
  localUfrag : s.localUfrag = r.localUfrag
  remoteUfrag : s.remoteUfrag = r.remoteUfrag
  useCandidate : s.useCandidate = r.useCandidate
  iceControlled : s.iceControlled = r.iceControlled
  iceControlling : s.iceControlling = r.iceControlling

/-- The three decoders come to the same end, and the two that take the packet from an accepted
message take the same. -/
def DecodersAgree (pkt : StunPacket) (data : Mem) (nb : Nat) : Prop :=
  ∃ s r, decodeStun pkt data nb = .ret (decodeStun2 data nb, s) ∧
    decodeRtcstun pkt data nb = .ret (decodeStun2 data nb, r) ∧
    (decodeStun2 data nb = yangOk → SameFields s r)

theorem decodeUfrags_same {names : List CStr} (h : SameFields s r)
    (hs : decodeUfrags s names = .ret s') (hr : decodeUfrags r names = .ret r') :
    SameFields s' r' := by
  match names with
  | [] =>
    cases hs
    cases hr
    exact h
  | [p] =>
    obtain ⟨a, ha, hs⟩ := Call.bind_eq_ret.mp hs
    obtain ⟨b, hb, hr⟩ := Call.bind_eq_ret.mp hr
    rw [← Call.ret.inj hs, ← Call.ret.inj hr]
    rw [(strcpy_eq_ret.mp ha).2] at hb
    exact { h with localUfrag := (strcpy_eq_ret.mp hb).2 }
  | p :: q :: names =>
    obtain ⟨a, ha, hs⟩ := Call.bind_eq_ret.mp hs
    obtain ⟨a', ha', hs⟩ := Call.bind_eq_ret.mp hs
    obtain ⟨b, hb, hr⟩ := Call.bind_eq_ret.mp hr
    obtain ⟨b', hb', hr⟩ := Call.bind_eq_ret.mp hr
    rw [← Call.ret.inj hs, ← Call.ret.inj hr]
    rw [(strcpy_eq_ret.mp ha).2] at hb
    rw [(strcpy_eq_ret.mp ha').2] at hb'
    exact { h with
      localUfrag := (strcpy_eq_ret.mp hb).2
      remoteUfrag := (strcpy_eq_ret.mp hb').2 }

theorem decodeUsername_same (h : SameFields s r) (hs : decodeUsername s val = .ret s')
    (hr : decodeUsername r val = .ret r') : SameFields s' r' := by
  unfold decodeUsername at hs hr
  by_cases hwhole : val.length ≤ 32
  · rw [if_pos hwhole] at hs hr
    refine decodeUfrags_same ?_ hs hr
    exact { h with username := by rw [h.username] }
  · rw [if_neg hwhole] at hs
    cases hs

/-- The mapped address is the only thing that one decoder takes and the other does not. -/
theorem decodeAttribute_same (h : SameFields s r) (hs : decodeStunAttribute s type val = .ret s')
    (hr : decodeRtcstunAttribute r type val = .ret r') : SameFields s' r' := by
  unfold decodeRtcstunAttribute at hr
  by_cases hmapped : type = stunXorMappedAddress
  · rw [if_pos hmapped] at hr
    obtain ⟨port, -, hr⟩ := Call.bind_eq_ret.mp hr
    obtain ⟨address, -, hr⟩ := Call.bind_eq_ret.mp hr
    subst hmapped
    have hsame : s = s' := Call.ret.inj hs
    rw [← Call.ret.inj hr, ← hsame]
    exact { h with }
  · rw [if_neg hmapped] at hr
    unfold decodeStunAttribute at hs hr
    by_cases hname : type = stunUsername
    · rw [if_pos hname] at hs hr
      exact decodeUsername_same h hs hr
    rw [if_neg hname] at hs hr
    by_cases huse : type = stunUseCandidate
    · rw [if_pos huse] at hs hr
      rw [← Call.ret.inj hs, ← Call.ret.inj hr]
      exact { h with useCandidate := rfl }
    rw [if_neg huse] at hs hr
    by_cases hcontrolled : type = stunIceControlled
    · rw [if_pos hcontrolled] at hs hr
      rw [← Call.ret.inj hs, ← Call.ret.inj hr]
      exact { h with iceControlled := rfl }
    rw [if_neg hcontrolled] at hs hr
    by_cases hcontrolling : type = stunIceControlling
    · rw [if_pos hcontrolling] at hs hr
      rw [← Call.ret.inj hs, ← Call.ret.inj hr]
      exact { h with iceControlling := rfl }
    rw [if_neg hcontrolling] at hs hr
    rw [← Call.ret.inj hs, ← Call.ret.inj hr]
    exact h

/-- Whatever the attributes, what the two decoders return is the same. -/
theorem attributeFold_same (h : SameFields s r)
    (hs : attributeFold decodeStunAttribute s attrs = .ret s')
    (hr : attributeFold decodeRtcstunAttribute r attrs = .ret r') : SameFields s' r' := by
  induction attrs generalizing s r with
  | nil =>
    cases hs
    cases hr
    exact h
  | cons attr attrs ih =>
    rw [attributeFold, List.foldlM_cons] at hs hr
    obtain ⟨s₁, hs₁, hs⟩ := Call.bind_eq_ret.mp hs
    obtain ⟨r₁, hr₁, hr⟩ := Call.bind_eq_ret.mp hr
    exact ih (decodeAttribute_same h hs₁ hr₁) hs hr

theorem decodeStun_returns :
    (∃ t, attributeFold decodeStunAttribute pkt attrs = .ret t) ↔ UsernamesFit attrs := by
  refine foldlM_returns.trans ?_
  refine (Run.throughout_congr fun s attr => decodeStunAttribute_returns).trans ?_
  exact Run.throughout_forall (P := fun attr : Nat × List UInt8 =>
    attr.1 = stunUsername → UsernameFits attr.2) fun s attr hfits =>
    decodeStunAttribute_returns.mpr hfits

theorem decodeRtcstun_returns :
    (∃ t, attributeFold decodeRtcstunAttribute pkt attrs = .ret t) ↔
      UsernamesFit attrs ∧ MappedFits 1 attrs := by
  refine foldlM_returns.trans ?_
  refine (Run.throughout_congr fun s attr => decodeRtcstunAttribute_returns).trans ?_
  refine (Run.throughout_forall (P := fun attr : Nat × List UInt8 =>
    (attr.1 = stunUsername → UsernameFits attr.2) ∧
      (attr.1 = stunXorMappedAddress → 8 ≤ attr.2.length + 1)) fun s attr hfits =>
    decodeRtcstunAttribute_returns.mpr hfits).trans ?_
  exact forall₂_and

/-- **Agreement.** The three decoders agree on a message exactly if none of them leaves the
memory it is given. -/
theorem decoders_agree (pkt : StunPacket) (data : Mem) (nb : Nat) :
    DecodersAgree pkt data nb ↔
      UsernamesFit (stunWalk data nb).1 ∧ MappedFits 1 (stunWalk data nb).1 := by
  have hsame : SameFields (stunHeader pkt data nb) (stunHeader pkt data nb) :=
    ⟨rfl, rfl, rfl, rfl, rfl, rfl, rfl⟩
  unfold DecodersAgree decodeStun decodeRtcstun
  rw [stunDecode_walk, stunDecode_walk, decodeStun2_walk]
  constructor
  · rintro ⟨s, r, -, hr, -⟩
    exact decodeRtcstun_returns.mp (walked_returns.mp ⟨_, hr⟩)
  · intro hfits
    obtain ⟨s, hs⟩ := decodeStun_returns.mpr hfits.1
    obtain ⟨r, hr⟩ := decodeRtcstun_returns.mpr hfits
    exact ⟨s, r, by rw [hs, Call.ret_bind], by rw [hr, Call.ret_bind],
      fun _ => attributeFold_same hsame hs hr⟩

set_option maxRecDepth 4000 in
/-- A mapped address without an address: one decoder accepts it, another reads on behind it. -/
theorem decoders_part :
    decodeStun2 (stunOne stunXorMappedAddress [0, 1, 0, 80]) 28 = yangOk ∧
      (∃ s, decodeStun {} (stunOne stunXorMappedAddress [0, 1, 0, 80]) 28 = .ret (yangOk, s)) ∧
      ¬ DecodersAgree {} (stunOne stunXorMappedAddress [0, 1, 0, 80]) 28 := by
  refine ⟨by decide, ⟨_, rfl⟩, ?_⟩
  rintro ⟨s, r, -, hr, -⟩
  rw [decodeRtcstun, stunDecode_walk] at hr
  have hfits := (decodeRtcstun_returns.mp (walked_returns.mp ⟨_, hr⟩)).2
    (stunXorMappedAddress, [0, 1, 0, 80]) (by decide) rfl
  exact absurd hfits (by decide)

end Agreement

end MetaRtc
