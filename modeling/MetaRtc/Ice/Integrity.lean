import MetaRtc.Ice.Stun
import MetaRtc.Rtp.Header
import Mathlib.Data.List.TakeWhile

/-! # The integrity of a request to the server

The key of the digest is itself a digest, of the credentials, and is handed on as if it were
a text. -/
namespace MetaRtc

open Bytes Exec

def stunMessageIntegrity : Nat := 0x0008
def stunFingerprint : Nat := 0x8028

/-- MD5 and HMAC-SHA1, which takes the key first, and the checksum of a fingerprint. -/
structure Digests where
  md5 : List UInt8 → { d : List UInt8 // d.length = 16 }
  hmac : List UInt8 → List UInt8 → { d : List UInt8 // d.length = 20 }
  crc32 : List UInt8 → Nat

/-- The texts of the session, none of which has a zero byte. -/
structure TurnCredentials where
  username : List UInt8
  realm : List UInt8
  password : List UInt8
  text : 0 ∉ username ∧ 0 ∉ realm ∧ 0 ∉ password

def TurnCredentials.string (c : TurnCredentials) : List UInt8 :=
  c.username ++ [0x3A] ++ c.realm ++ [0x3A] ++ c.password

/-- The text an array holds. -/
def textOf (bs : List UInt8) : List UInt8 := bs.takeWhile (· ≠ 0)

/-- An array of `size` bytes that a text is printed to. -/
def snprintf (size : Nat) (s : List UInt8) : List UInt8 := s.take (size - 1) ++ [0]

/-- The array of zero bytes that a digest is put into. -/
def keyArray (d : List UInt8) : List UInt8 := d ++ List.replicate (128 - d.length) 0

/-- The two bytes of the length are written in place. -/
def withLength (bytes : List UInt8) (n : Nat) : List UInt8 :=
  (bytes.set 2 (UInt8.ofNat (n / 256))).set 3 (UInt8.ofNat n)

def OutBuffer.setLength (stream : OutBuffer) (n : Nat) : OutBuffer :=
  { stream with bytes := withLength stream.bytes n }

def stunEncodeHmac (d : Digests) (pstream : OutBuffer) (pwd : List UInt8) : List UInt8 :=
  let hmac := (d.hmac (textOf pwd) pstream.bytes).val
  let stream : OutBuffer := { size := 1460 }
  let stream := stream.write2bytes stunMessageIntegrity
  let stream := stream.write2bytes hmac.length
  let stream := stream.writeBytes hmac
  if stream.pos % 4 ≠ 0 then
    (stream.writeBytes (List.replicate (4 - stream.pos % 4) 0)).bytes
  else stream.bytes

def stunEncodeFingerprint (d : Digests) (pstream : OutBuffer) : List UInt8 :=
  let crc32 := d.crc32 pstream.bytes ^^^ 0x5354554E
  let stream : OutBuffer := { size := 1460 }
  let stream := stream.write2bytes stunFingerprint
  let stream := stream.write2bytes 4
  (stream.write4bytes crc32).bytes

def turnAddFingerprint (d : Digests) (c : TurnCredentials) (stream : OutBuffer)
    (addFingerprint : Bool) : OutBuffer :=
  let stream := stream.setLength (stream.pos - 20 + 24)
  let keystr := snprintf 128 c.string
  let key := keyArray (d.md5 (textOf keystr)).val
  let stream := stream.writeBytes (stunEncodeHmac d stream key)
  if addFingerprint then
    let stream := stream.setLength (stream.pos - 20 + 8)
    stream.writeBytes (stunEncodeFingerprint d stream)
  else stream

/-- How every request ends: with the digest, and then the length of it all. -/
def turnSign (d : Digests) (c : TurnCredentials) (stream : OutBuffer) (addFingerprint : Bool) :
    OutBuffer :=
  let stream := turnAddFingerprint d c stream addFingerprint
  stream.setLength (stream.pos - 20)

/-- The digest under the whole key covers the message with the length up to its own end, and
the message says its length. -/
structure Authentic (d : Digests) (c : TurnCredentials) (body : List UInt8) (out : OutBuffer) :
    Prop where
  inside : out.fault = false
  rest : out.bytes.take body.length = withLength body (out.bytes.length - 20)
  integrity : (out.bytes.drop body.length).take 24 =
    beBytes 2 stunMessageIntegrity ++ (beBytes 2 20 ++
      (d.hmac (d.md5 c.string).val (withLength body (body.length - 20 + 24))).val)
  length : beNat ((out.bytes.drop 2).take 2) = out.bytes.length - 20

/-- The credentials are not cut off where it matters, and their digest is a text. -/
def KeyKept (d : Digests) (c : TurnCredentials) : Prop :=
  d.md5 (c.string.take 127) = d.md5 c.string ∧ 0 ∉ (d.md5 c.string).val

/-- The key that is used. -/
def keyUsed (d : Digests) (c : TurnCredentials) : List UInt8 :=
  textOf (d.md5 (c.string.take 127)).val

section Texts

variable {c : TurnCredentials} {d : Digests} {bs cs : List UInt8} {n m : Nat}

theorem string_text (c : TurnCredentials) : 0 ∉ c.string := by
  obtain ⟨hu, hr, hp⟩ := c.text
  simp only [TurnCredentials.string, List.mem_append, List.mem_singleton]
  rintro ((((h | h) | h) | h) | h)
  · exact hu h
  · cases h
  · exact hr h
  · cases h
  · exact hp h

theorem textOf_eq_self : textOf bs = bs ↔ 0 ∉ bs := by
  rw [textOf, List.takeWhile_eq_self_iff]
  constructor
  · intro h hzero
    exact of_decide_eq_true (h 0 hzero) rfl
  · intro h b hb
    exact decide_eq_true fun hzero => h (hzero ▸ hb)

/-- Behind a text, the zero bytes of its array are not part of it. -/
theorem textOf_zero (bs : List UInt8) (n : Nat) :
    textOf (bs ++ List.replicate n 0) = textOf bs := by
  induction bs with
  | nil =>
    cases n with
    | zero => rfl
    | succ n => rfl
  | cons b bs ih =>
    unfold textOf at ih ⊢
    rw [List.cons_append, List.takeWhile_cons, List.takeWhile_cons, ih]

theorem textOf_printed (c : TurnCredentials) :
    textOf (snprintf 128 c.string) = c.string.take 127 := by
  have htext : 0 ∉ c.string.take 127 := fun h => string_text c (List.mem_of_mem_take h)
  rw [snprintf, show ([0] : List UInt8) = List.replicate 1 0 from rfl, textOf_zero]
  exact textOf_eq_self.mpr htext

@[simp] theorem withLength_length (bs : List UInt8) (n : Nat) :
    (withLength bs n).length = bs.length := by
  rw [withLength, List.length_set, List.length_set]

theorem withLength_again (bs : List UInt8) (n m : Nat) :
    withLength (withLength bs n) m = withLength bs m := by
  unfold withLength
  rw [List.set_comm _ _ (show (3 : Nat) ≠ 2 by decide), List.set_set, List.set_set]

theorem withLength_append (h : 4 ≤ bs.length) (cs : List UInt8) (n : Nat) :
    withLength (bs ++ cs) n = withLength bs n ++ cs := by
  have hlast : 3 < (bs.set 2 (UInt8.ofNat (n / 256))).length := by
    rw [List.length_set]
    exact h
  rw [withLength, List.set_append_left _ _ (by omega), List.set_append_left _ _ hlast, withLength]

theorem withLength_read (h : 4 ≤ bs.length) (hn : n < 65536) :
    beNat (((withLength bs n).drop 2).take 2) = n := by
  obtain ⟨b0, b1, b2, b3, rest, rfl⟩ : ∃ b0 b1 b2 b3 rest, bs = b0 :: b1 :: b2 :: b3 :: rest := by
    match bs, h with
    | b0 :: b1 :: b2 :: b3 :: rest, _ => exact ⟨b0, b1, b2, b3, rest, rfl⟩
  have hbytes : ((withLength (b0 :: b1 :: b2 :: b3 :: rest) n).drop 2).take 2 = beBytes 2 n := by
    simp [withLength, beBytes]
  rw [hbytes, beNat_beBytes]
  exact Nat.mod_eq_of_lt hn

end Texts

section Signing

variable {d : Digests} {c : TurnCredentials} {body : List UInt8} {addFingerprint : Bool}

/-- The attribute with a digest. -/
def integrityBytes (mac : List UInt8) : List UInt8 :=
  beBytes 2 stunMessageIntegrity ++ (beBytes 2 20 ++ mac)

theorem integrityBytes_length {mac : List UInt8} (h : mac.length = 20) :
    (integrityBytes mac).length = 24 := by
  simp only [integrityBytes, List.length_append, beBytes_length, h]

theorem encodeHmac_bytes (d : Digests) (pstream : OutBuffer) (pwd : List UInt8) :
    stunEncodeHmac d pstream pwd = integrityBytes (d.hmac (textOf pwd) pstream.bytes).val := by
  have hmac := (d.hmac (textOf pwd) pstream.bytes).property
  simp only [stunEncodeHmac, OutBuffer.write2bytes, OutBuffer.writeBytes, OutBuffer.pos,
    List.nil_append, List.length_append, beBytes_length, hmac]
  rw [if_neg (by decide), integrityBytes, List.append_assoc]

theorem encodeFingerprint_length (d : Digests) (pstream : OutBuffer) :
    (stunEncodeFingerprint d pstream).length = 8 := by
  simp only [stunEncodeFingerprint, OutBuffer.write2bytes, OutBuffer.write4bytes,
    OutBuffer.writeBytes, List.nil_append, List.length_append, beBytes_length]

theorem md5_key (d : Digests) (c : TurnCredentials) :
    textOf (keyArray (d.md5 (textOf (snprintf 128 c.string))).val) = keyUsed d c := by
  rw [keyArray, textOf_zero, textOf_printed, keyUsed]

/-- The digest is written behind the body, whose length then goes up to its end. -/
theorem addFingerprint_digest (hroom : body.length + 24 ≤ 1024) :
    turnAddFingerprint d c { size := 1024, bytes := body } false =
      { size := 1024
        bytes := withLength body (body.length - 20 + 24) ++ integrityBytes
          (d.hmac (keyUsed d c) (withLength body (body.length - 20 + 24))).val } := by
  have hmac := integrityBytes_length
    (d.hmac (keyUsed d c) (withLength body (body.length - 20 + 24))).property
  have hwrite := @OutBuffer.writeBytes_room 1024 (withLength body (body.length - 20 + 24))
    (integrityBytes (d.hmac (keyUsed d c) (withLength body (body.length - 20 + 24))).val)
    (by rw [withLength_length, hmac]; exact hroom)
  rw [← hwrite, turnAddFingerprint, encodeHmac_bytes, md5_key]
  rfl

theorem setLength_behind (hfour : 4 ≤ body.length) (n m : Nat) (tail : List UInt8) :
    OutBuffer.setLength { size := 1024, bytes := withLength body n ++ tail } m =
      { size := 1024, bytes := withLength body m ++ tail } := by
  rw [OutBuffer.setLength, withLength_append (by rw [withLength_length]; exact hfour),
    withLength_again]

/-- A signed request: the body, the digest under the key that is used, and the fingerprint if
there is one. -/
theorem turnSign_bytes (d : Digests) (c : TurnCredentials) (addFingerprint : Bool)
    (hbody : 20 ≤ body.length) (hroom : body.length + 32 ≤ 1024) :
    ∃ tail, tail.length ≤ 8 ∧
      turnSign d c { size := 1024, bytes := body } addFingerprint =
        { size := 1024
          bytes := withLength body (body.length + 24 + tail.length - 20) ++
            (integrityBytes (d.hmac (keyUsed d c) (withLength body (body.length - 20 + 24))).val ++
              tail) } := by
  have hmac := integrityBytes_length
    (d.hmac (keyUsed d c) (withLength body (body.length - 20 + 24))).property
  have hfour : 4 ≤ body.length := by omega
  cases addFingerprint with
  | false =>
    refine ⟨[], Nat.zero_le _, ?_⟩
    rw [turnSign, addFingerprint_digest (by omega), setLength_behind hfour, OutBuffer.pos,
      List.length_append, withLength_length, hmac, List.append_nil, List.length_nil]
  | true =>
    have htrue : ∀ stream, turnAddFingerprint d c stream true =
        ((turnAddFingerprint d c stream false).setLength
          ((turnAddFingerprint d c stream false).pos - 20 + 8)).writeBytes
            (stunEncodeFingerprint d ((turnAddFingerprint d c stream false).setLength
              ((turnAddFingerprint d c stream false).pos - 20 + 8))) := fun _ => rfl
    rw [turnSign, htrue, addFingerprint_digest (by omega), setLength_behind hfour]
    generalize hfinger : stunEncodeFingerprint d _ = finger
    have hlen : finger.length = 8 := hfinger ▸ encodeFingerprint_length d _
    refine ⟨finger, hlen.le, ?_⟩
    rw [OutBuffer.writeBytes_room
      (by rw [List.length_append, withLength_length, hmac, hlen]; omega), List.append_assoc,
      setLength_behind hfour, OutBuffer.pos, List.length_append, List.length_append,
      withLength_length, hmac, Nat.add_assoc]

/-- Everything but the key of the digest is as it should be. -/
theorem authentic_iff (hbody : 20 ≤ body.length) (hroom : body.length + 32 ≤ 1024) :
    Authentic d c body (turnSign d c { size := 1024, bytes := body } addFingerprint) ↔
      d.hmac (keyUsed d c) (withLength body (body.length - 20 + 24)) =
        d.hmac (d.md5 c.string).val (withLength body (body.length - 20 + 24)) := by
  obtain ⟨tail, htail, hsign⟩ := turnSign_bytes d c addFingerprint hbody hroom
  have hmac := integrityBytes_length
    (d.hmac (keyUsed d c) (withLength body (body.length - 20 + 24))).property
  have hdigest : ∀ n, ((withLength body n ++ (integrityBytes
        (d.hmac (keyUsed d c) (withLength body (body.length - 20 + 24))).val ++ tail)).drop
          body.length).take 24 =
      integrityBytes (d.hmac (keyUsed d c) (withLength body (body.length - 20 + 24))).val := by
    intro n
    rw [List.drop_left' (withLength_length body n), List.take_left' hmac]
  rw [hsign]
  constructor
  · rintro ⟨-, -, hintegrity, -⟩
    rw [hdigest, integrityBytes] at hintegrity
    exact Subtype.ext (List.append_cancel_left (List.append_cancel_left hintegrity))
  · intro hkey
    have hsize : (withLength body (body.length + 24 + tail.length - 20) ++ (integrityBytes
        (d.hmac (keyUsed d c) (withLength body (body.length - 20 + 24))).val ++ tail)).length - 20 =
          body.length + 24 + tail.length - 20 := by
      rw [List.length_append, List.length_append, withLength_length, hmac, Nat.add_assoc]
    constructor
    · rfl
    · dsimp only
      rw [hsize, List.take_left' (withLength_length body _)]
    · dsimp only
      rw [hdigest, hkey, integrityBytes]
    · dsimp only
      rw [hsize, ← withLength_append (by omega)]
      exact withLength_read (by rw [List.length_append]; omega) (by omega)

/-- The key that is used is the whole digest only if that is a text. -/
theorem keyUsed_iff : keyUsed d c = (d.md5 c.string).val ↔ KeyKept d c := by
  constructor
  · intro hkey
    have hlen := congrArg List.length hkey
    rw [(d.md5 c.string).property, ← (d.md5 (c.string.take 127)).property] at hlen
    have hwhole : keyUsed d c = (d.md5 (c.string.take 127)).val :=
      (List.takeWhile_prefix _).eq_of_length hlen
    have hsame := Subtype.ext (hwhole.symm.trans hkey)
    refine ⟨hsame, ?_⟩
    rw [← hsame]
    exact textOf_eq_self.mp hwhole
  · rintro ⟨hsame, htext⟩
    rw [keyUsed, hsame]
    exact textOf_eq_self.mpr htext

/-- A request is authentic under every keyed hash exactly when its key is kept. -/
theorem integrity_iff (d : Digests) (c : TurnCredentials) (body : List UInt8)
    (addFingerprint : Bool) (hbody : 20 ≤ body.length) (hroom : body.length + 32 ≤ 1024) :
    (∀ hmac, Authentic { d with hmac } c body
      (turnSign { d with hmac } c { size := 1024, bytes := body } addFingerprint)) ↔
      KeyKept d c := by
  rw [← keyUsed_iff]
  constructor
  · intro h
    -- A keyed hash that tells the right key from every other.
    let zeros : { d : List UInt8 // d.length = 20 } := ⟨List.replicate 20 0, List.length_replicate⟩
    let ones : { d : List UInt8 // d.length = 20 } := ⟨List.replicate 20 1, List.length_replicate⟩
    have hsame : (if keyUsed d c = (d.md5 c.string).val then zeros else ones) =
        if (d.md5 c.string).val = (d.md5 c.string).val then zeros else ones :=
      (authentic_iff hbody hroom).mp
        (h fun k _ => if k = (d.md5 c.string).val then zeros else ones)
    by_contra hkey
    rw [if_neg hkey, if_pos rfl] at hsame
    exact absurd (congrArg Subtype.val hsame) (by decide)
  · intro hkey hmac
    have hused : keyUsed { d with hmac } c = (d.md5 c.string).val := hkey
    refine (authentic_iff hbody hroom).mpr ?_
    rw [hused]

/-- The key a request asks for is what is printed of the credentials. -/
theorem turnKey_string (c : TurnCredentials) (session : TurnSession)
    (hu : session.server.username = c.username) (hp : session.server.password = c.password) :
    turnKey session c.realm = c.string.take 127 := by
  rw [turnKey, hu, hp]
  rfl

theorem attributeBytes_length (attr : Nat × List UInt8) :
    (stunAttributeBytes attr).length ≤ attr.2.length + 7 := by
  simp only [stunAttributeBytes, List.length_append, beBytes_length, List.length_replicate]
  omega

/-- A request has room for its digest in the 1024 bytes it is written to. -/
theorem request_room {session session' : TurnSession} {type : Nat}
    {attributes : List (Nat × List UInt8)} {request : TurnRequest}
    (hattrs : (attributes.flatMap stunAttributeBytes).length ≤ 24)
    (hu : session.server.username.length < 64) (hn : session.nonce.length ≤ 128)
    (h : turnEncodeWith session type attributes = .ret (request, session')) :
    20 ≤ (stunBytes type request.attributes).length ∧
      (stunBytes type request.attributes).length + 32 ≤ 1024 := by
  obtain ⟨realm, hrealm, hret⟩ := Call.bind_eq_ret.mp h
  have hshort : realm.length < 129 := by
    unfold cString at hrealm
    dsimp only at hrealm
    split_ifs at hrealm with hfits
    cases hrealm
    exact hfits
  cases hret
  have huser := attributeBytes_length (stunUsername, session.server.username)
  have hr := attributeBytes_length (stunRealm, realm)
  have hnonce := attributeBytes_length (stunNonce, session.nonce)
  simp only [stunBytes, List.flatMap_append, List.flatMap_cons, List.flatMap_nil,
    List.length_append, List.length_nil, beBytes_length, List.length_replicate]
  dsimp only at huser hr hnonce
  omega

/-- A body of no attributes, and credentials whose digest is that of their text. -/
def refreshBody : List UInt8 := stunBytes stunRefresh []

/-- `user:metartc.com:pass` and its digest. -/
def plainCredentials : TurnCredentials where
  username := [117, 115, 101, 114]
  realm := [109, 101, 116, 97, 114, 116, 99, 46, 99, 111, 109]
  password := [112, 97, 115, 115]
  text := by decide

def plainDigests : Digests where
  md5 _ := ⟨[74, 206, 102, 121, 230, 73, 212, 118, 196, 23, 115, 111, 6, 83, 115, 158], rfl⟩
  hmac k _ := ⟨List.replicate 20 (UInt8.ofNat k.length), List.length_replicate⟩
  crc32 _ := 0

theorem integrity_plain : Authentic plainDigests plainCredentials refreshBody
    (turnSign plainDigests plainCredentials { size := 1024, bytes := refreshBody } false) :=
  (integrity_iff plainDigests plainCredentials refreshBody false (by decide) (by decide)).mpr
    ⟨rfl, by decide⟩ plainDigests.hmac

/-- `user27:metartc.com:pass` has a digest whose fourth byte is zero. -/
def zeroCredentials : TurnCredentials := { plainCredentials with
  username := [117, 115, 101, 114, 50, 55]
  text := by decide }

def zeroDigests : Digests := { plainDigests with
  md5 := fun _ => ⟨[85, 93, 54, 0, 45, 90, 105, 16, 188, 155, 255, 64, 95, 168, 172, 102], rfl⟩ }

theorem key_cut_short : keyUsed zeroDigests zeroCredentials = [85, 93, 54] ∧
    ¬ Authentic zeroDigests zeroCredentials refreshBody
      (turnSign zeroDigests zeroCredentials { size := 1024, bytes := refreshBody } false) := by
  refine ⟨by decide, fun h => ?_⟩
  have hsame := (authentic_iff (by decide) (by decide)).mp h
  exact absurd (congrArg Subtype.val hsame) (by decide)

end Signing

end MetaRtc
