import MetaRtc.Ice.Integrity
import MetaRtc.Ice.StunDecode
import MetaRtc.Rtcp.Nack

/-! # The response to a binding request

It names the two ends as the one that answers knows them, and the address that the request came
from. The digests at its end are arbitrary. -/
namespace MetaRtc

open Bytes Exec Tokens

/-- A ufrag in an array of so many bytes. -/
structure Ufrag (room : Nat) where
  text : CStr
  fits : text.length < room
  noZero : 0 ∉ text
  noColon : colon ∉ text

/-- The address and the port of the one who asks, as the bytes of the network. -/
structure Requester where
  address : { bs : List UInt8 // bs.length = 4 }
  port : { bs : List UInt8 // bs.length = 2 }

/-- What the session brings to a response. -/
structure AnswerSession where
  localUfrag : Ufrag 16
  remoteUfrag : Ufrag 32
  localIcePwd : CStr
  remoteAddr : Requester

/-- A number that the host, whose lowest byte comes first, has at these bytes. -/
def hostNat (bs : List UInt8) : Nat := beNat bs.reverse

def Requester.sAddr (r : Requester) : Nat := hostNat r.address.val
def Requester.sinPort (r : Requester) : Nat := hostNat r.port.val

section Encoding

def stunEncodeRtcusername (pkt : StunPacket) : Call (List UInt8) := do
  let username ← strcpy 128 (pkt.remoteUfrag ++ colon :: pkt.localUfrag)
  let stream : OutBuffer := { size := 1460 }
  let stream := stream.write2bytes stunUsername
  let stream := stream.write2bytes username.length
  let stream := stream.writeBytes username
  if stream.pos % 4 ≠ 0 then
    return (stream.writeBytes (List.replicate (4 - stream.pos % 4) 0)).bytes
  else return stream.bytes

def stunEncodeMappedAddressIpv4 (pkt : StunPacket) : List UInt8 :=
  let stream : OutBuffer := { size := 1460 }
  let stream := stream.write2bytes stunXorMappedAddress
  let stream := stream.write2bytes 8
  let stream := stream.write1bytes 0
  let stream := stream.write1bytes 1
  let stream := stream.write2bytes (pkt.mappedPort ^^^ (kStunMagicCookie / 2 ^ 16))
  (stream.write4bytes (pkt.mappedAddress ^^^ kStunMagicCookie)).bytes

def stunEncodeHmac2 (hmac : List UInt8) : List UInt8 :=
  let stream : OutBuffer := { size := 1460 }
  let stream := stream.write2bytes stunMessageIntegrity
  let stream := stream.write2bytes hmac.length
  (stream.writeBytes hmac).bytes

def stunEncodeFingerprint2 (crc32 : Nat) : List UInt8 :=
  let stream : OutBuffer := { size := 1460 }
  let stream := stream.write2bytes stunFingerprint
  let stream := stream.write2bytes 4
  (stream.write4bytes crc32).bytes

def stunEncodeBindingResponse (d : Digests) (pkt : StunPacket) (pwd : CStr) (stream : OutBuffer) :
    Call OutBuffer := do
  let propertyUsername ← stunEncodeRtcusername pkt
  let mappedAddress := stunEncodeMappedAddressIpv4 pkt
  let stream := stream.write2bytes stunBindingSuccessResponse
  let stream := stream.write2bytes (propertyUsername.length + mappedAddress.length)
  let stream := stream.write4bytes kStunMagicCookie
  let stream := stream.writeBytes pkt.transcationId
  let stream := stream.writeBytes propertyUsername
  let stream := stream.writeBytes mappedAddress
  let stream := stream.setLength (stream.pos - 20 + 20 + 4)
  let hmac := (d.hmac (textOf pwd) stream.bytes).val
  let stream := stream.writeBytes (stunEncodeHmac2 hmac)
  let stream := stream.setLength (stream.pos - 20 + 8)
  let crc32 := d.crc32 stream.bytes ^^^ 0x5354554E
  let stream := stream.writeBytes (stunEncodeFingerprint2 crc32)
  return stream.setLength (stream.pos - 20)

/-- What is sent to the one who asks. -/
def stunCreateResponseStunPacket (d : Digests) (request : StunPacket) (session : AnswerSession) :
    Call OutBuffer := do
  let localUfrag ← strcpy 16 session.localUfrag.text
  let remoteUfrag ← strcpy 32 session.remoteUfrag.text
  let packet : StunPacket :=
    { mappedAddress := session.remoteAddr.sAddr
      mappedPort := htons session.remoteAddr.sinPort
      transcationId := request.transcationId.take 12
      localUfrag
      remoteUfrag }
  stunEncodeBindingResponse d packet session.localIcePwd { size := 1024 }

end Encoding

/-- The response says its length, is made of whole attributes, is read by the decoder for what it
was made of, each end's own name being the other's remote one, and has the address and the port
of the one who asks. -/
structure ResponseRight (session : AnswerSession) (id : List UInt8) (out : OutBuffer) : Prop where
  inside : out.fault = false
  length : beNat ((out.bytes.drop 2).take 2) = out.bytes.length - 20
  decoded : ∃ r, decodeRtcstun {} (ofList out.bytes) out.bytes.length = .ret (yangOk, r) ∧
    r.transcationId = id ∧ r.localUfrag = session.remoteUfrag.text ∧
    r.remoteUfrag = session.localUfrag.text
  attributes : ∃ attrs val, Attributes (out.bytes.drop 20) attrs ∧
    (stunXorMappedAddress, val) ∈ attrs ∧
    beBytes 4 (beNat ((val.drop 4).take 4) ^^^ kStunMagicCookie) = session.remoteAddr.address.val ∧
    beBytes 2 (beNat ((val.drop 2).take 2) ^^^ (kStunMagicCookie / 2 ^ 16)) =
      session.remoteAddr.port.val

/-- The response is made, and right. -/
def RespondsRight (d : Digests) (session : AnswerSession) (id : List UInt8) : Prop :=
  ∃ out, stunCreateResponseStunPacket d { transcationId := id } session = .ret out ∧
    ResponseRight session id out

/-- The address is the same from both ends, and both names are found again in the username. -/
structure Answerable (session : AnswerSession) : Prop where
  address : session.remoteAddr.address.val.reverse = session.remoteAddr.address.val
  remote : session.remoteUfrag.text.length ≤ 15
  names : session.remoteUfrag.text.length + 1 + session.localUfrag.text.length ≤ 32
  empty : session.remoteUfrag.text = [] → session.localUfrag.text = []

section Bytes

variable {pkt : StunPacket} {val mac crc id : List UInt8}

/-- The username with both names. -/
def responseName (pkt : StunPacket) : CStr := pkt.remoteUfrag ++ colon :: pkt.localUfrag

def mappedValue (pkt : StunPacket) : List UInt8 :=
  [0, 1] ++ (beBytes 2 (pkt.mappedPort ^^^ (kStunMagicCookie / 2 ^ 16)) ++
    beBytes 4 (pkt.mappedAddress ^^^ kStunMagicCookie))

def responseAttributes (pkt : StunPacket) (mac crc : List UInt8) : List (Nat × List UInt8) :=
  [(stunUsername, responseName pkt), (stunXorMappedAddress, mappedValue pkt),
    (stunMessageIntegrity, mac), (stunFingerprint, crc)]

/-- An attribute of whole words is not filled up. -/
theorem attributeBytes_whole {type n : Nat} (h : val.length = n) (hn : n % 4 = 0) :
    stunAttributeBytes (type, val) = beBytes 2 type ++ (beBytes 2 n ++ val) := by
  have hpad : (4 - val.length % 4) % 4 = 0 := by omega
  rw [stunAttributeBytes, hpad, List.replicate_zero, List.append_nil, h]

theorem encodeRtcusername_bytes (h : (responseName pkt).length < 128) :
    stunEncodeRtcusername pkt = .ret (stunAttributeBytes (stunUsername, responseName pkt)) := by
  have hcopy : strcpy 128 (responseName pkt) = .ret (responseName pkt) :=
    strcpy_eq_ret.mpr ⟨h, rfl⟩
  unfold stunEncodeRtcusername
  rw [← responseName, hcopy, Call.ret_bind]
  simp only [OutBuffer.write2bytes, OutBuffer.writeBytes, OutBuffer.pos, List.nil_append,
    List.length_append, beBytes_length, Call.pure_eq]
  by_cases hwhole : (responseName pkt).length % 4 = 0
  · rw [if_neg (by omega), attributeBytes_whole rfl hwhole, List.append_assoc]
  · rw [if_pos (by omega), stunAttributeBytes]
    simp only [List.append_assoc]
    rw [show 4 - (2 + 2 + (responseName pkt).length) % 4 =
      (4 - (responseName pkt).length % 4) % 4 by omega]

theorem mappedValue_length : (mappedValue pkt).length = 8 := by
  simp only [mappedValue, List.length_append, beBytes_length, List.length_cons, List.length_nil]

theorem encodeMappedAddress_bytes :
    stunEncodeMappedAddressIpv4 pkt =
      stunAttributeBytes (stunXorMappedAddress, mappedValue pkt) := by
  rw [attributeBytes_whole mappedValue_length rfl]
  simp only [stunEncodeMappedAddressIpv4, OutBuffer.write1bytes, OutBuffer.write2bytes,
    OutBuffer.write4bytes, OutBuffer.writeBytes_bytes, List.nil_append, List.append_assoc,
    mappedValue]
  rfl

theorem encodeHmac2_bytes (h : mac.length = 20) :
    stunEncodeHmac2 mac = stunAttributeBytes (stunMessageIntegrity, mac) := by
  rw [attributeBytes_whole h rfl, ← h]
  simp only [stunEncodeHmac2, OutBuffer.write2bytes, OutBuffer.writeBytes_bytes, List.nil_append,
    List.append_assoc]

theorem encodeFingerprint2_bytes (v : Nat) :
    stunEncodeFingerprint2 v = stunAttributeBytes (stunFingerprint, beBytes 4 v) := by
  rw [attributeBytes_whole (beBytes_length 4 v) rfl]
  simp only [stunEncodeFingerprint2, OutBuffer.write2bytes, OutBuffer.write4bytes,
    OutBuffer.writeBytes_bytes, List.nil_append, List.append_assoc]

theorem withLength_header (type n m : Nat) (rest : List UInt8) :
    withLength (beBytes 2 type ++ (beBytes 2 n ++ rest)) m =
      beBytes 2 type ++ (beBytes 2 m ++ rest) := by
  simp [withLength, beBytes]

/-- The response, whatever its digests are. -/
theorem bindingResponse_bytes (d : Digests) (pkt : StunPacket) (pwd : CStr)
    (hid : pkt.transcationId.length = 12) (hname : (responseName pkt).length ≤ 47) :
    ∃ mac crc, mac.length = 20 ∧ crc.length = 4 ∧
      stunEncodeBindingResponse d pkt pwd { size := 1024 } = .ret
        { size := 1024
          bytes := stunBytesWith pkt.transcationId stunBindingSuccessResponse
            (responseAttributes pkt mac crc) } := by
  have hfirst := attributeBytes_length (stunUsername, responseName pkt)
  have hsecond := attributeBytes_length (stunXorMappedAddress, mappedValue pkt)
  rw [mappedValue_length] at hsecond
  dsimp only at hfirst
  unfold stunEncodeBindingResponse
  rw [encodeRtcusername_bytes (by omega), Call.ret_bind, encodeMappedAddress_bytes]
  generalize hu : stunAttributeBytes (stunUsername, responseName pkt) = u at *
  generalize hm : stunAttributeBytes (stunXorMappedAddress, mappedValue pkt) = m at *
  simp only [OutBuffer.write2bytes, OutBuffer.write4bytes, OutBuffer.writeBytes_writeBytes,
    List.append_assoc]
  have hroom : ∀ n, (beBytes 2 stunBindingSuccessResponse ++ (beBytes 2 n ++
      (beBytes 4 kStunMagicCookie ++ (pkt.transcationId ++ (u ++ m))))).length =
      20 + u.length + m.length := by
    intro n
    simp only [List.length_append, beBytes_length, hid]
    omega
  have hwritten := @OutBuffer.writeBytes_room 1024 [] (beBytes 2 stunBindingSuccessResponse ++
    (beBytes 2 (u.length + m.length) ++ (beBytes 4 kStunMagicCookie ++
      (pkt.transcationId ++ (u ++ m)))))
    (by rw [hroom, List.length_nil]; omega)
  rw [hwritten]
  simp only [OutBuffer.setLength, List.nil_append, withLength_header]
  generalize hmac : d.hmac (textOf pwd) _ = mac
  rw [encodeHmac2_bytes mac.property]
  have hh : (stunAttributeBytes (stunMessageIntegrity, mac.val)).length = 24 := by
    rw [attributeBytes_whole mac.property rfl]
    simp only [List.length_append, beBytes_length, mac.property]
  rw [OutBuffer.writeBytes_room (by rw [hroom, hh]; omega)]
  simp only [List.append_assoc, withLength_header]
  generalize hcrc : d.crc32 _ ^^^ 0x5354554E = crc
  rw [encodeFingerprint2_bytes]
  have hf : (stunAttributeBytes (stunFingerprint, beBytes 4 crc)).length = 8 := by
    rw [attributeBytes_whole (beBytes_length 4 crc) rfl]
    simp only [List.length_append, beBytes_length]
  rw [OutBuffer.writeBytes_room]
  · simp only [List.append_assoc, withLength_header]
    refine ⟨mac.val, beBytes 4 crc, mac.property, beBytes_length 4 crc, ?_⟩
    simp only [Call.pure_eq, stunBytesWith, responseAttributes, List.flatMap_cons, List.flatMap_nil,
      List.append_nil, hu, hm, OutBuffer.pos, List.length_append, beBytes_length, hid, hh, hf]
    congr 5
    omega
  · simp only [List.length_append, beBytes_length, hid, hh, hf]
    omega

end Bytes

section Reading

variable {pkt p : StunPacket} {mac crc : List UInt8} {remote local' : CStr} {v n : Nat}

theorem usernameNames_pair (hr : 0 ∉ remote) (hl : 0 ∉ local') (hrc : colon ∉ remote)
    (hlc : colon ∉ local') :
    usernameNames (remote ++ colon :: local') = [remote, local'].filter (· ≠ []) := by
  have hword : ∀ {w : CStr}, colon ∉ w → tokens colon w = [w].filter (· ≠ []) := by
    intro w hw
    by_cases hempty : w = []
    · subst hempty
      exact tokens_nil
    · rw [tokens_word hempty hw, List.filter_cons_of_pos (by simpa using hempty), List.filter_nil]
  have htext : textOf (remote ++ colon :: local') = remote ++ colon :: local' := by
    refine textOf_eq_self.mpr ?_
    simp only [List.mem_append, List.mem_cons, not_or]
    exact ⟨hr, by decide, hl⟩
  rw [usernameNames, ← textOf, htext, cstrSplit, tokens_append_sep, hword hrc, hword hlc,
    ← List.filter_append]
  rfl

/-- Both names are found again in a username that fits, unless only the first is empty. -/
theorem decodeUsername_pair (hr : 0 ∉ remote) (hl : 0 ∉ local') (hrc : colon ∉ remote)
    (hlc : colon ∉ local') (hlocal : p.localUfrag = []) (hremote : p.remoteUfrag = []) :
    (∃ t, decodeUsername p (remote ++ colon :: local') = .ret t ∧ t.localUfrag = remote ∧
        t.remoteUfrag = local') ↔
      remote.length ≤ 15 ∧ remote.length + 1 + local'.length ≤ 32 ∧
        (remote = [] → local' = []) := by
  have hlen : (remote ++ colon :: local').length = remote.length + 1 + local'.length := by
    rw [List.length_append, List.length_cons]
    omega
  unfold decodeUsername
  rw [usernameNames_pair hr hl hrc hlc, hlen]
  by_cases hwhole : remote.length + 1 + local'.length ≤ 32
  · rw [if_pos hwhole]
    generalize hq : ({ p with
      username := remote ++ colon :: local' ++ p.username.drop (remote.length + 1 + local'.length) } :
        StunPacket) = q
    have hql : q.localUfrag = [] := by rw [← hq]; exact hlocal
    have hqr : q.remoteUfrag = [] := by rw [← hq]; exact hremote
    by_cases hrempty : remote = []
    · subst hrempty
      by_cases hlempty : local' = []
      · subst hlempty
        exact iff_of_true ⟨q, rfl, hql, hqr⟩ ⟨by decide, hwhole, fun _ => rfl⟩
      · rw [List.filter_cons_of_neg (by simp), List.filter_cons_of_pos (by simpa using hlempty),
          List.filter_nil]
        refine iff_of_false ?_ fun h => hlempty (h.2.2 rfl)
        rintro ⟨t, ht, hfirst, -⟩
        obtain ⟨s, hs, hret⟩ := Call.bind_eq_ret.mp ht
        obtain ⟨-, rfl⟩ := strcpy_eq_ret.mp hs
        rw [← Call.ret.inj hret] at hfirst
        exact hlempty hfirst
    · have himp : (remote = [] → local' = []) := fun h => absurd h hrempty
      by_cases hlempty : local' = []
      · subst hlempty
        rw [List.filter_cons_of_pos (by simpa using hrempty), List.filter_cons_of_neg (by simp),
          List.filter_nil]
        constructor
        · rintro ⟨t, ht, -, -⟩
          obtain ⟨s, hs, -⟩ := Call.bind_eq_ret.mp ht
          exact ⟨Nat.le_of_lt_succ (strcpy_eq_ret.mp hs).1, hwhole, himp⟩
        · rintro ⟨hshort, -, -⟩
          refine ⟨{ q with localUfrag := remote }, ?_, rfl, hqr⟩
          exact Call.bind_eq_ret.mpr
            ⟨remote, strcpy_eq_ret.mpr ⟨Nat.lt_succ_of_le hshort, rfl⟩, rfl⟩
      · rw [List.filter_cons_of_pos (by simpa using hrempty),
          List.filter_cons_of_pos (by simpa using hlempty), List.filter_nil]
        constructor
        · rintro ⟨t, ht, -, -⟩
          obtain ⟨s, hs, -⟩ := Call.bind_eq_ret.mp ht
          exact ⟨Nat.le_of_lt_succ (strcpy_eq_ret.mp hs).1, hwhole, himp⟩
        · rintro ⟨hshort, -, -⟩
          have hfits : local'.length < 32 := by omega
          refine ⟨{ q with localUfrag := remote, remoteUfrag := local' }, ?_, rfl, rfl⟩
          refine Call.bind_eq_ret.mpr
            ⟨remote, strcpy_eq_ret.mpr ⟨Nat.lt_succ_of_le hshort, rfl⟩, ?_⟩
          exact Call.bind_eq_ret.mpr ⟨local', strcpy_eq_ret.mpr ⟨hfits, rfl⟩, rfl⟩
  · rw [if_neg hwhole]
    refine iff_of_false ?_ fun h => hwhole h.2.1
    rintro ⟨t, ht, -⟩
    cases ht

theorem decodeUsername_id {val : List UInt8} {t : StunPacket}
    (h : decodeUsername p val = .ret t) : t.transcationId = p.transcationId := by
  unfold decodeUsername at h
  split at h
  · match hn : usernameNames val with
    | [] =>
      rw [hn] at h
      rw [← Call.ret.inj h]
    | [_] =>
      rw [hn] at h
      obtain ⟨a, -, h⟩ := Call.bind_eq_ret.mp h
      rw [← Call.ret.inj h]
    | _ :: _ :: _ =>
      rw [hn] at h
      obtain ⟨a, -, h⟩ := Call.bind_eq_ret.mp h
      obtain ⟨b, -, h⟩ := Call.bind_eq_ret.mp h
      rw [← Call.ret.inj h]
  · cases h

/-- Of the attributes of a response, the username goes to the names and the mapped address to its
own fields. -/
theorem responseAttributes_fold (p : StunPacket) :
    ∃ mappedPort mappedAddress,
      attributeFold decodeRtcstunAttribute p (responseAttributes pkt mac crc) =
        (decodeUsername p (responseName pkt) >>= fun t =>
          .ret { t with mappedPort, mappedAddress }) := by
  have hread : ∀ i n, i + n ≤ 8 → attributeBytes (mappedValue pkt) i n =
      .ret (((mappedValue pkt ++ [0]).drop i).take n) := by
    intro i n hin
    have hlen := @mappedValue_length pkt
    rw [attributeBytes, if_pos (by omega)]
  refine ⟨beNat (((mappedValue pkt ++ [0]).drop 2).take 2) ^^^ (kStunMagicCookie / 2 ^ 16),
    beNat (((mappedValue pkt ++ [0]).drop 4).take 4) ^^^ kStunMagicCookie, ?_⟩
  have hmapped : ∀ t, decodeRtcstunAttribute t stunXorMappedAddress (mappedValue pkt) =
      .ret { t with
        mappedPort :=
          beNat (((mappedValue pkt ++ [0]).drop 2).take 2) ^^^ (kStunMagicCookie / 2 ^ 16)
        mappedAddress := beNat (((mappedValue pkt ++ [0]).drop 4).take 4) ^^^ kStunMagicCookie } := by
    intro t
    rw [decodeRtcstunAttribute, if_pos rfl, hread 2 2 (by decide), Call.ret_bind,
      hread 4 4 (by decide)]
    rfl
  rw [attributeFold, responseAttributes, List.foldlM_cons]
  have hname : decodeRtcstunAttribute p stunUsername (responseName pkt) =
      decodeUsername p (responseName pkt) := rfl
  rw [hname]
  refine congrArg _ (funext fun t => ?_)
  rw [List.foldlM_cons, hmapped, Call.ret_bind]
  rfl

theorem xor_back (hv : v < 2 ^ n) {k : Nat} (hk : k < 2 ^ n) (hn : 256 ^ (n / 8) = 2 ^ n) :
    beNat (beBytes (n / 8) (v ^^^ k)) ^^^ k = v := by
  rw [beNat_beBytes, hn, Nat.mod_eq_of_lt (Nat.xor_lt_two_pow hv hk), Nat.xor_assoc, Nat.xor_self,
    Nat.xor_zero]

/-- The mapped address without the cookie is the one the packet has. -/
theorem mappedValue_fields (hport : pkt.mappedPort < 2 ^ 16) (haddress : pkt.mappedAddress < 2 ^ 32) :
    beNat (((mappedValue pkt).drop 2).take 2) ^^^ (kStunMagicCookie / 2 ^ 16) = pkt.mappedPort ∧
      beNat (((mappedValue pkt).drop 4).take 4) ^^^ kStunMagicCookie = pkt.mappedAddress := by
  have h2 : ((mappedValue pkt).drop 2).take 2 =
      beBytes 2 (pkt.mappedPort ^^^ (kStunMagicCookie / 2 ^ 16)) := rfl
  have h4 : ((mappedValue pkt).drop 4).take 4 =
      beBytes 4 (pkt.mappedAddress ^^^ kStunMagicCookie) := rfl
  rw [h2, h4]
  exact ⟨xor_back hport (by decide) rfl, xor_back haddress (by decide) rfl⟩

theorem hostNat_bytes (bs : List UInt8) : beBytes bs.length (hostNat bs) = bs.reverse := by
  have hrev := beBytes_beNat bs.reverse
  rwa [List.length_reverse] at hrev

theorem htons_hostNat {bs : List UInt8} (h : bs.length = 2) : htons (hostNat bs) = beNat bs := by
  match bs, h with
  | [a, b], _ =>
    have ha := a.toNat_lt
    have hb := b.toNat_lt
    simp only [htons, hostNat, beNat, List.reverse_cons, List.reverse_nil, List.nil_append,
      List.cons_append, List.length_cons, List.length_nil]
    omega

end Reading

section Answering

variable {session : AnswerSession} {id : { bs : List UInt8 // bs.length = 12 }} {mac crc : List UInt8}

/-- What the response is made of. -/
def responsePacket (session : AnswerSession) (id : List UInt8) : StunPacket where
  mappedAddress := session.remoteAddr.sAddr
  mappedPort := htons session.remoteAddr.sinPort
  transcationId := id
  localUfrag := session.localUfrag.text
  remoteUfrag := session.remoteUfrag.text

theorem responseName_length (session : AnswerSession) (id : List UInt8) :
    (responseName (responsePacket session id)).length =
      session.remoteUfrag.text.length + 1 + session.localUfrag.text.length := by
  simp only [responseName, responsePacket, List.length_append, List.length_cons]
  omega

theorem createResponse_bytes (d : Digests) (session : AnswerSession)
    (id : { bs : List UInt8 // bs.length = 12 }) :
    ∃ mac crc, mac.length = 20 ∧ crc.length = 4 ∧
      stunCreateResponseStunPacket d { transcationId := id.val } session = .ret
        { size := 1024
          bytes := stunBytesWith id.val stunBindingSuccessResponse
            (responseAttributes (responsePacket session id.val) mac crc) } := by
  have hl := session.localUfrag.fits
  have hr := session.remoteUfrag.fits
  have hname := responseName_length session id.val
  obtain ⟨mac, crc, hmac, hcrc, hbytes⟩ := bindingResponse_bytes d (responsePacket session id.val)
    session.localIcePwd id.property (by omega)
  refine ⟨mac, crc, hmac, hcrc, ?_⟩
  have hid : id.val.take 12 = id.val := List.take_of_length_le id.property.le
  rw [stunCreateResponseStunPacket, strcpy_eq_ret.mpr ⟨hl, rfl⟩, Call.ret_bind,
    strcpy_eq_ret.mpr ⟨hr, rfl⟩, Call.ret_bind, hid]
  exact hbytes

theorem responseAttributes_small (hmac : mac.length = 20) (hcrc : crc.length = 4) :
    ∀ attr ∈ responseAttributes (responsePacket session id.val) mac crc,
      attr.1 < 65536 ∧ attr.2.length < 65536 := by
  have hl := session.localUfrag.fits
  have hr := session.remoteUfrag.fits
  have hname := responseName_length session id.val
  have hmapped := @mappedValue_length (responsePacket session id.val)
  simp only [responseAttributes, List.forall_mem_cons, List.not_mem_nil, IsEmpty.forall_iff,
    implies_true, and_true]
  refine ⟨⟨by decide, ?_⟩, ⟨by decide, ?_⟩, ⟨by decide, ?_⟩, by decide, ?_⟩
  · omega
  · omega
  · omega
  · omega

theorem responseBody_length (hmac : mac.length = 20) (hcrc : crc.length = 4) :
    ((responseAttributes (responsePacket session id.val) mac crc).flatMap
      stunAttributeBytes).length < 65536 := by
  have hl := session.localUfrag.fits
  have hr := session.remoteUfrag.fits
  have hname := responseName_length session id.val
  have hmapped := @mappedValue_length (responsePacket session id.val)
  simp only [responseAttributes, stunAttributeBytes, List.flatMap_cons, List.flatMap_nil,
    List.length_append, List.length_nil, beBytes_length, List.length_replicate]
  omega

/-- The decoder finds both names again where the response can be answered. -/
theorem response_decoded (hmac : mac.length = 20) (hcrc : crc.length = 4) :
    (∃ r, decodeRtcstun {} (ofList (stunBytesWith id.val stunBindingSuccessResponse
          (responseAttributes (responsePacket session id.val) mac crc)))
        (stunBytesWith id.val stunBindingSuccessResponse
          (responseAttributes (responsePacket session id.val) mac crc)).length =
          .ret (yangOk, r) ∧
        r.transcationId = id.val ∧ r.localUfrag = session.remoteUfrag.text ∧
        r.remoteUfrag = session.localUfrag.text) ↔
      session.remoteUfrag.text.length ≤ 15 ∧
        session.remoteUfrag.text.length + 1 + session.localUfrag.text.length ≤ 32 ∧
        (session.remoteUfrag.text = [] → session.localUfrag.text = []) := by
  have hmessage := stunMessage_with id.property (show stunBindingSuccessResponse < 65536 by decide)
    (@responseAttributes_small session id mac crc hmac hcrc)
    (responseBody_length hmac hcrc)
  generalize hdata : stunBytesWith id.val stunBindingSuccessResponse
    (responseAttributes (responsePacket session id.val) mac crc) = bytes at hmessage ⊢
  have hnb : ¬ bytes.length < 20 := by
    have hlen := hmessage.length
    omega
  have hid : (ofList bytes).slice 8 12 = id.val := by
    have hbytes := slice_ofList bytes
    rw [← hdata, stunBytesWith] at hbytes
    obtain ⟨-, hrest⟩ := Mem.slice_parts hbytes
    obtain ⟨-, hrest⟩ := Mem.slice_parts hrest
    obtain ⟨-, hrest⟩ := Mem.slice_parts hrest
    obtain ⟨hid, -⟩ := Mem.slice_parts hrest
    simp only [beBytes_length, id.property, Nat.zero_add, Nat.reduceAdd] at hid
    rw [← hdata]
    exact hid
  obtain ⟨mappedPort, mappedAddress, hfold⟩ := @responseAttributes_fold
    (responsePacket session id.val) mac crc (stunHeader {} (ofList bytes) bytes.length)
  rw [decodeRtcstun, stunDecode_walk, stunWalk_message hmessage, hfold,
    ← decodeUsername_pair (p := stunHeader {} (ofList bytes) bytes.length)
      session.remoteUfrag.noZero session.localUfrag.noZero
      session.remoteUfrag.noColon session.localUfrag.noColon
      (by rw [stunHeader, if_neg hnb]) (by rw [stunHeader, if_neg hnb])]
  have hname : responseName (responsePacket session id.val) =
    session.remoteUfrag.text ++ colon :: session.localUfrag.text := rfl
  have hheader : (stunHeader {} (ofList bytes) bytes.length).transcationId = id.val := by
    rw [stunHeader, if_neg hnb]
    exact hid
  rw [hname]
  constructor
  · rintro ⟨r, hr, -, hlocal, hremote⟩
    obtain ⟨s, hs, hret⟩ := Call.bind_eq_ret.mp hr
    obtain ⟨t, ht, hs⟩ := Call.bind_eq_ret.mp hs
    rw [← (Prod.mk.inj (Call.ret.inj hret)).2, ← Call.ret.inj hs] at hlocal hremote
    exact ⟨t, ht, hlocal, hremote⟩
  · rintro ⟨t, ht, hlocal, hremote⟩
    refine ⟨{ t with mappedPort, mappedAddress }, ?_, ?_, hlocal, hremote⟩
    · rw [ht]
      rfl
    · exact (decodeUsername_id ht).trans hheader

theorem packet_mapped (session : AnswerSession) (id : List UInt8) :
    (responsePacket session id).mappedPort = beNat session.remoteAddr.port.val ∧
      beBytes 4 (responsePacket session id).mappedAddress =
        session.remoteAddr.address.val.reverse := by
  have hbytes := hostNat_bytes session.remoteAddr.address.val
  rw [session.remoteAddr.address.property] at hbytes
  exact ⟨htons_hostNat session.remoteAddr.port.property, hbytes⟩

/-- The port is the one of the requester, and the address has its bytes the other way round. -/
theorem response_mapped (hmac : mac.length = 20) (hcrc : crc.length = 4) :
    (∃ attrs val, Attributes ((stunBytesWith id.val stunBindingSuccessResponse
          (responseAttributes (responsePacket session id.val) mac crc)).drop 20) attrs ∧
        (stunXorMappedAddress, val) ∈ attrs ∧
        beBytes 4 (beNat ((val.drop 4).take 4) ^^^ kStunMagicCookie) =
          session.remoteAddr.address.val ∧
        beBytes 2 (beNat ((val.drop 2).take 2) ^^^ (kStunMagicCookie / 2 ^ 16)) =
          session.remoteAddr.port.val) ↔
      session.remoteAddr.address.val.reverse = session.remoteAddr.address.val := by
  have hbody : (stunBytesWith id.val stunBindingSuccessResponse
      (responseAttributes (responsePacket session id.val) mac crc)).drop 20 =
        (responseAttributes (responsePacket session id.val) mac crc).flatMap
          stunAttributeBytes := by
    have hhead : (beBytes 2 stunBindingSuccessResponse ++ (beBytes 2
        ((responseAttributes (responsePacket session id.val) mac crc).flatMap
          stunAttributeBytes).length ++ (beBytes 4 kStunMagicCookie ++ id.val))).length = 20 := by
      simp only [List.length_append, beBytes_length, id.property]
    refine (congrArg (List.drop 20) ?_).trans (List.drop_left' hhead)
    simp only [stunBytesWith, List.append_assoc]
  have hattrs := attributes_of_list
    (@responseAttributes_small session id mac crc hmac hcrc)
  obtain ⟨hport, haddress⟩ := packet_mapped session id.val
  have hport_lt := beNat_lt session.remoteAddr.port.val
  rw [session.remoteAddr.port.property] at hport_lt
  have haddress_lt := beNat_lt session.remoteAddr.address.val.reverse
  rw [List.length_reverse, session.remoteAddr.address.property] at haddress_lt
  obtain ⟨hfirst, hsecond⟩ := @mappedValue_fields (responsePacket session id.val)
    (hport ▸ hport_lt) haddress_lt
  have hportBytes := beBytes_beNat session.remoteAddr.port.val
  rw [session.remoteAddr.port.property] at hportBytes
  rw [hbody]
  constructor
  · rintro ⟨attrs, val, hread, hmem, hsame, -⟩
    rw [attributes_unique hread hattrs] at hmem
    have hval : val = mappedValue (responsePacket session id.val) := by
      simp only [responseAttributes, List.mem_cons, Prod.mk.injEq, List.not_mem_nil, or_false] at hmem
      rcases hmem with ⟨h, -⟩ | ⟨-, h⟩ | ⟨h, -⟩ | ⟨h, -⟩
      · exact absurd h (by decide)
      · exact h
      · exact absurd h (by decide)
      · exact absurd h (by decide)
    rw [hval, hsecond, haddress] at hsame
    exact hsame
  · intro hsame
    refine ⟨_, mappedValue (responsePacket session id.val), hattrs, ?_, ?_, ?_⟩
    · exact List.mem_cons_of_mem _ List.mem_cons_self
    · rw [hsecond, haddress, hsame]
    · rw [hfirst, hport, hportBytes]

/-- **Binding response.** The response is right exactly if the address of the requester is the
same from both ends, and both names fit in and are found again. -/
theorem answers_iff (d : Digests) (session : AnswerSession)
    (id : { bs : List UInt8 // bs.length = 12 }) :
    RespondsRight d session id.val ↔ Answerable session := by
  obtain ⟨mac, crc, hmac, hcrc, hcreate⟩ := createResponse_bytes d session id
  constructor
  · rintro ⟨out, hout, hright⟩
    rw [hcreate] at hout
    cases hout
    obtain ⟨hremote, hnames, hempty⟩ := (response_decoded hmac hcrc).mp hright.decoded
    exact ⟨(response_mapped hmac hcrc).mp hright.attributes, hremote, hnames, hempty⟩
  · intro h
    refine ⟨_, hcreate, ?_⟩
    constructor
    · rfl
    · have hlen := @responseBody_length session id mac crc hmac hcrc
      dsimp only
      rw [stunBytesWith, List.drop_left' (beBytes_length 2 _), List.take_left' (beBytes_length 2 _),
        beNat_beBytes, Nat.mod_eq_of_lt (show _ < 256 ^ 2 from hlen)]
      simp only [List.length_append, beBytes_length, id.property]
      omega
    · exact (response_decoded hmac hcrc).mpr ⟨h.remote, h.names, h.empty⟩
    · exact (response_mapped hmac hcrc).mpr h.address

/-- The address 192.168.1.7 goes out as 7.1.168.192. -/
theorem address_turned :
    ¬ RespondsRight plainDigests
      { localUfrag := ⟨[97, 98, 99, 100], by decide, by decide, by decide⟩
        remoteUfrag := ⟨[101, 102, 103, 104], by decide, by decide, by decide⟩
        localIcePwd := []
        remoteAddr := ⟨⟨[192, 168, 1, 7], rfl⟩, ⟨[0x13, 0x88], rfl⟩⟩ }
      (List.replicate 12 0) := by
  rintro ⟨out, hout, hright⟩
  obtain ⟨mac, crc, hmac, hcrc, hcreate⟩ := createResponse_bytes plainDigests
    { localUfrag := ⟨[97, 98, 99, 100], by decide, by decide, by decide⟩
      remoteUfrag := ⟨[101, 102, 103, 104], by decide, by decide, by decide⟩
      localIcePwd := []
      remoteAddr := ⟨⟨[192, 168, 1, 7], rfl⟩, ⟨[0x13, 0x88], rfl⟩⟩ }
    ⟨List.replicate 12 0, rfl⟩
  rw [hcreate] at hout
  cases hout
  have hsame := (@response_mapped _ ⟨List.replicate 12 0, rfl⟩ mac crc hmac hcrc).mp
    hright.attributes
  exact absurd hsame (by decide)

end Answering

end MetaRtc
