import MetaRtc.Ice.Walk

/-! # The attributes of a STUN message

A message is a header and attributes, each with its length and filled up to four bytes. The
decoder takes them one after the other, in whatever order they come. -/
namespace MetaRtc

open Bytes Exec

/-- The bytes are these attributes one after the other, each a type and a value. -/
inductive Attributes : List UInt8 → List (Nat × List UInt8) → Prop
  | nil : Attributes [] []
  | cons {type : Nat} {val pad rest : List UInt8} {attrs : List (Nat × List UInt8)} :
      type < 65536 → val.length < 65536 → pad.length = (4 - val.length % 4) % 4 →
      Attributes rest attrs →
      Attributes (beBytes 2 type ++ (beBytes 2 val.length ++ (val ++ (pad ++ rest))))
        ((type, val) :: attrs)

/-- The datagram is a whole STUN message of that type with these attributes. -/
structure StunMessage (data : Mem) (nb type : Nat) (attrs : List (Nat × List UInt8)) : Prop where
  type : data.be 0 2 = type
  cookie : data.be 4 4 = kStunMagicCookie
  length : nb = 20 + data.be 2 2
  attributes : Attributes (data.slice 20 (data.be 2 2)) attrs

/-- The decoder's fold over the attributes. -/
def turnAttributes (session : TurnSession) (attrs : List (Nat × List UInt8)) : Call TurnSession :=
  attrs.foldlM (fun session attr => turnAttribute session attr.1 attr.2) session

theorem beBytes_inj {n v v' : Nat} (hv : v < 256 ^ n) (hv' : v' < 256 ^ n)
    (h : beBytes n v = beBytes n v') : v = v' := by
  have hnat := congrArg beNat h
  rwa [beNat_beBytes, beNat_beBytes, Nat.mod_eq_of_lt hv, Nat.mod_eq_of_lt hv'] at hnat

/-- The bytes say what the attributes are. -/
theorem attributes_unique {bs : List UInt8} {attrs attrs' : List (Nat × List UInt8)}
    (h : Attributes bs attrs) (h' : Attributes bs attrs') : attrs = attrs' := by
  generalize hbs : bs = bs' at h'
  induction h generalizing bs' attrs' with
  | nil =>
    cases h' with
    | nil => rfl
    | cons =>
      have hlen := congrArg List.length hbs
      simp only [List.length_nil, List.length_append, beBytes_length] at hlen
      omega
  | cons htype hval hpad hrest ih =>
    cases h' with
    | nil =>
      have hlen := congrArg List.length hbs
      simp only [List.length_nil, List.length_append, beBytes_length] at hlen
      omega
    | cons htype' hval' hpad' hrest' =>
      obtain ⟨h0, hbs₁⟩ := List.append_inj hbs (by simp)
      obtain ⟨h1, hbs₂⟩ := List.append_inj hbs₁ (by simp)
      obtain ⟨rfl, hbs₃⟩ := List.append_inj hbs₂ (beBytes_inj hval hval' h1)
      obtain ⟨-, hbs₄⟩ := List.append_inj hbs₃ (hpad.trans hpad'.symm)
      rw [beBytes_inj htype htype' h0, ih _ hbs₄ hrest']

section Reading

variable {session session' : TurnSession} {body : List UInt8} {attrs : List (Nat × List UInt8)}
  {data : Mem} {nb type fuel : Nat} {err : Err}

/-- The walk goes over exactly the attributes that are there. -/
theorem attributeWalk_attributes (h : Attributes body attrs) {size p : Nat}
    (hbytes : data.slice p body.length = body) (hsize : size = p + body.length)
    (hfuel : body.length ≤ fuel) : attributeWalk data size fuel p = (attrs, true) := by
  induction h generalizing p fuel with
  | nil =>
    have hend : size < p + 4 := by
      rw [hsize]
      exact Nat.add_lt_add_left (by decide) p
    cases fuel with
    | zero => rfl
    | succ fuel => rw [attributeWalk, if_pos hend]
  | @cons type val pad rest attrs htype hval hpad hrest ih =>
    simp only [List.length_append, beBytes_length] at hsize hfuel
    obtain ⟨fuel, rfl⟩ := Nat.exists_eq_add_of_le' (show 1 ≤ fuel by omega)
    obtain ⟨h0, hrest0⟩ := Mem.slice_parts hbytes
    obtain ⟨h1, hrest1⟩ := Mem.slice_parts hrest0
    obtain ⟨h2, hrest2⟩ := Mem.slice_parts hrest1
    obtain ⟨-, hrest3⟩ := Mem.slice_parts hrest2
    simp only [beBytes_length] at h0 h1 hrest0 h2 hrest3
    have b0 : data.be p 2 = type := by
      rw [Mem.be_of_slice h0]
      exact Nat.mod_eq_of_lt htype
    have b1 : data.be (p + 2) 2 = val.length := by
      rw [Mem.be_of_slice h1]
      exact Nat.mod_eq_of_lt hval
    have hnext : p + 4 + val.length + (4 - val.length % 4) % 4 =
        p + 2 + 2 + val.length + pad.length := by omega
    rw [attributeWalk, if_neg (show ¬ size < p + 4 by omega), b1]
    dsimp only
    rw [if_neg (show ¬ size < p + 4 + val.length by omega), b0, hnext,
      ih hrest3 (by omega) (by omega), show p + 4 = p + 2 + 2 from rfl, h2]

theorem stunWalk_message (h : StunMessage data nb type attrs) : stunWalk data nb = (attrs, true) := by
  have hnb := h.length
  have hsized : StunSized data nb := ⟨by omega, hnb⟩
  have hbody := Mem.slice_length data 20 (data.be 2 2)
  rw [stunWalk, if_pos hsized]
  refine attributeWalk_attributes h.attributes ?_ ?_ ?_
  · rw [hbody]
  · rw [hbody]
    exact hnb
  · rw [hbody, hnb]
    exact Nat.le_add_left _ _

/-- The decoder takes a whole message to its attributes. -/
theorem turnDecode_message (h : StunMessage data nb type attrs) :
    turnDecode session data nb =
      (turnAttributes session attrs >>= fun s => Call.ret (yangOk, s)) := by
  rw [turnDecode_walk, stunWalk_message h]
  rfl

end Reading

section Writing

def stunAttributeBytes (attr : Nat × List UInt8) : List UInt8 :=
  beBytes 2 attr.1 ++ (beBytes 2 attr.2.length ++
    (attr.2 ++ List.replicate ((4 - attr.2.length % 4) % 4) 0))

def stunBytes (type : Nat) (attrs : List (Nat × List UInt8)) : List UInt8 :=
  let body := attrs.flatMap stunAttributeBytes
  beBytes 2 type ++ beBytes 2 body.length ++ beBytes 4 kStunMagicCookie ++ List.replicate 12 0 ++
    body

theorem attributes_of_list {attrs : List (Nat × List UInt8)}
    (h : ∀ attr ∈ attrs, attr.1 < 65536 ∧ attr.2.length < 65536) :
    Attributes (attrs.flatMap stunAttributeBytes) attrs := by
  induction attrs with
  | nil => exact .nil
  | cons attr attrs ih =>
    obtain ⟨htype, hlen⟩ := h attr List.mem_cons_self
    have hrest := ih fun a ha => h a (List.mem_cons_of_mem _ ha)
    have hcons := Attributes.cons htype hlen (List.length_replicate (a := (0 : UInt8))) hrest
    simpa only [List.flatMap_cons, stunAttributeBytes, List.append_assoc] using hcons

/-- The same with a transaction id. -/
def stunBytesWith (id : List UInt8) (type : Nat) (attrs : List (Nat × List UInt8)) : List UInt8 :=
  let body := attrs.flatMap stunAttributeBytes
  beBytes 2 type ++ (beBytes 2 body.length ++ (beBytes 4 kStunMagicCookie ++ (id ++ body)))

theorem stunMessage_with {id : List UInt8} {type : Nat} {attrs : List (Nat × List UInt8)}
    (hid : id.length = 12) (htype : type < 65536)
    (h : ∀ attr ∈ attrs, attr.1 < 65536 ∧ attr.2.length < 65536)
    (hlen : (attrs.flatMap stunAttributeBytes).length < 65536) :
    StunMessage (ofList (stunBytesWith id type attrs)) (stunBytesWith id type attrs).length type
      attrs := by
  have hbytes := slice_ofList (stunBytesWith id type attrs)
  simp only [stunBytesWith] at hbytes
  obtain ⟨h0, hrest⟩ := Mem.slice_parts hbytes
  obtain ⟨h1, hrest⟩ := Mem.slice_parts hrest
  obtain ⟨h2, hrest⟩ := Mem.slice_parts hrest
  obtain ⟨-, hbody⟩ := Mem.slice_parts hrest
  simp only [beBytes_length, hid, Nat.zero_add, Nat.reduceAdd] at h0 h1 h2 hbody
  have b1 := (Mem.be_of_slice h1).trans (Nat.mod_eq_of_lt hlen)
  simp only [stunBytesWith]
  refine ⟨?_, ?_, ?_, ?_⟩
  · rw [Mem.be_of_slice h0]
    exact Nat.mod_eq_of_lt htype
  · rw [Mem.be_of_slice h2]
    rfl
  · rw [b1]
    simp only [List.length_append, beBytes_length, hid]
    omega
  · rw [b1, hbody]
    exact attributes_of_list h

theorem stunMessage_of_list {type : Nat} {attrs : List (Nat × List UInt8)} (htype : type < 65536)
    (h : ∀ attr ∈ attrs, attr.1 < 65536 ∧ attr.2.length < 65536)
    (hlen : (attrs.flatMap stunAttributeBytes).length < 65536) :
    StunMessage (ofList (stunBytes type attrs)) (stunBytes type attrs).length type attrs := by
  have hwith : stunBytes type attrs = stunBytesWith (List.replicate 12 0) type attrs := by
    simp only [stunBytes, stunBytesWith, List.append_assoc]
  rw [hwith]
  exact stunMessage_with (List.length_replicate ..) htype h hlen

end Writing

end MetaRtc
