import MetaRtc.Rtmp.AmfFormat

/-! # What the encoder writes

An object that runs out of room is closed early, wherever in the value it is. So a value is read
back cut, and whole when there is room for it. -/
namespace MetaRtc

open Bytes Exec

section Cuts

mutual

/-- The value, with only the first properties of some of its objects. -/
inductive AmfValue.Cut : AmfValue → AmfValue → Prop
  | refl (value : AmfValue) : AmfValue.Cut value value
  | object {o o' : AmfObject} (h : o'.Cut o) : AmfValue.Cut (.object o') (.object o)
  | ecmaArray {o o' : AmfObject} (h : o'.Cut o) : AmfValue.Cut (.ecmaArray o') (.ecmaArray o)

inductive AmfObject.Cut : AmfObject → AmfObject → Prop
  | nil (o : AmfObject) : AmfObject.Cut .nil o
  | cons {pName : List UInt8} {value value' : AmfValue} {rest rest' : AmfObject}
      (hv : value'.Cut value) (hr : rest'.Cut rest) :
      AmfObject.Cut (.cons pName value' rest') (.cons pName value rest)

end

theorem AmfValue.Cut.isNull_eq {value value' : AmfValue} (h : value'.Cut value) :
    value'.isNull = value.isNull := by
  cases h <;> rfl

end Cuts

section Plain

mutual

/-- What is read back however early it is cut: an array in it is not, for it says how many elements
follow. A null in an object is written without its name. -/
def AmfValue.plain : AmfValue → Bool
  | .string s => decide (s.length < 2 ^ 32)
  | .object o => o.plain
  | .ecmaArray o => o.plain
  | .strictArray _ => false
  | _ => true

def AmfObject.plain : AmfObject → Bool
  | .nil => true
  | .cons pName value rest =>
    decide (pName ≠ []) && decide (pName.length < 2 ^ 16) && !value.isNull && value.plain &&
      rest.plain

end

mutual

/-- What the encoder has bytes for. The properties of an object have names, the elements of an
array do not. -/
def AmfValue.whole : AmfValue → Bool
  | .number _ => true
  | .boolean _ => true
  | .string s => decide (s.length < 2 ^ 32)
  | .object o => o.whole true
  | .null => true
  | .ecmaArray o => o.whole true
  | .strictArray o => decide (o.oNum < 2 ^ 31) && o.whole false
  | .date _ _ => false
  | .xmlDoc _ => false
  | .invalid => false

def AmfObject.whole (named : Bool) : AmfObject → Bool
  | .nil => true
  | .cons pName value rest =>
    (if named then decide (pName ≠ []) && decide (pName.length < 2 ^ 16) && !value.isNull
      else decide (pName = [])) && value.whole && rest.whole named

end

end Plain

section Wire

def stringBytes (s : List UInt8) : List UInt8 :=
  if s.length < 65536 then amfString :: (beBytes 2 s.length ++ s)
  else amfLongString :: (beBytes 4 s.length ++ s)

mutual

/-- The bytes of a value where there is room for it. -/
def AmfValue.wire : AmfValue → List UInt8
  | .number n => amfNumber :: beBytes 8 n.toNat
  | .boolean b => [amfBoolean, if b then 1 else 0]
  | .string s => stringBytes s
  | .object o => amfObject :: (o.wire ++ objectEnd)
  | .null => [amfNull]
  | .ecmaArray o => amfEcmaArray :: (beBytes 4 o.oNum ++ (o.wire ++ objectEnd))
  | .strictArray o => amfStrictArray :: (beBytes 4 o.oNum ++ o.wire)
  | .date _ _ => []
  | .xmlDoc _ => []
  | .invalid => []

def AmfObject.wire : AmfObject → List UInt8
  | .nil => []
  | .cons pName value rest => amfName pName value ++ (value.wire ++ rest.wire)

end

theorem stringBytes_writes {s : List UInt8} (hs : s.length < 2 ^ 32) :
    (AmfValue.string s).Writes (stringBytes s) := by
  rw [stringBytes]
  split
  · exact .string (by omega)
  · exact .longString hs

theorem amfName_eq {pName : List UInt8} {value : AmfValue} (hne : pName ≠ [])
    (hv : value.isNull = false) : amfName pName value = beBytes 2 pName.length ++ pName := by
  simp [amfName, hne, hv]

@[simp] theorem amfName_nil (value : AmfValue) : amfName [] value = [] := by
  simp [amfName]

theorem amfName_length_le (pName : List UInt8) (value : AmfValue) :
    (amfName pName value).length ≤ 2 + pName.length := by
  rw [amfName]
  split <;> simp

theorem amfName_of_null (pName : List UInt8) {value : AmfValue} (h : value.isNull = true) :
    amfName pName value = [] := by
  simp [amfName, h]

mutual

theorem AmfValue.wire_writes {value : AmfValue} (h : value.whole = true) :
    value.Writes value.wire := by
  cases value with
  | number n => exact .number n
  | boolean b => exact .boolean b
  | string s => exact stringBytes_writes (by simpa [AmfValue.whole] using h)
  | object o => exact .object (AmfObject.wire_writes (by simpa [AmfValue.whole] using h))
  | null => exact .null (.inl rfl)
  | ecmaArray o =>
    exact .ecmaArray (beBytes_length 4 _)
      (AmfObject.wire_writes (by simpa [AmfValue.whole] using h))
  | strictArray o =>
    simp only [AmfValue.whole, Bool.and_eq_true, decide_eq_true_eq] at h
    exact .strictArray h.1 (AmfObject.wire_writesElements h.2)
  | date n k => cases h
  | xmlDoc s => cases h
  | invalid => cases h

theorem AmfObject.wire_writes {obj : AmfObject} (h : obj.whole true = true) :
    obj.Writes obj.wire := by
  cases obj with
  | nil => exact .nil
  | cons pName value rest =>
    simp only [AmfObject.whole, if_true, Bool.and_eq_true, decide_eq_true_eq,
      Bool.not_eq_true'] at h
    obtain ⟨⟨⟨⟨hne, hlen⟩, hnull⟩, hv⟩, hr⟩ := h
    rw [AmfObject.wire, amfName_eq hne hnull, List.append_assoc]
    exact .cons hne hlen (AmfValue.wire_writes hv) (AmfObject.wire_writes hr)

theorem AmfObject.wire_writesElements {obj : AmfObject} (h : obj.whole false = true) :
    obj.WritesElements obj.wire := by
  cases obj with
  | nil => exact .nil
  | cons pName value rest =>
    simp only [AmfObject.whole, Bool.false_eq_true, if_false, Bool.and_eq_true,
      decide_eq_true_eq] at h
    obtain ⟨⟨rfl, hv⟩, hr⟩ := h
    rw [AmfObject.wire, amfName_nil, List.nil_append]
    exact .cons (AmfValue.wire_writes hv) (AmfObject.wire_writesElements hr)

end

end Wire

section Safe

/-- The bytes are behind the name and write a cut of the value, if it is a plain one. -/
def CutBytes (room : Nat) (value : AmfValue) (call : Call (Option (List UInt8))) : Prop :=
  call = .ret none ∨ ∃ bs, call = .ret (some bs) ∧ bs.length ≤ room ∧
    (value.plain = true → ∃ value' : AmfValue, value'.Cut value ∧ value'.Writes bs)

def CutProps (room : Nat) (obj : AmfObject) (call : Call (List UInt8)) : Prop :=
  ∃ bs, call = .ret bs ∧ bs.length ≤ room ∧
    (obj.plain = true → ∃ obj' : AmfObject, obj'.Cut obj ∧ obj'.Writes bs)

variable {room : Nat} {obj : AmfObject} {props : Nat → Call (List UInt8)}

theorem store_of_le {room : Nat} {bytes : List UInt8} (h : bytes.length ≤ room) :
    store room bytes = .ret bytes := if_pos h

theorem amfEncodeInt24_end (h : 3 ≤ room) :
    amfEncodeInt24 room amfObjectEnd = some objectEnd := if_neg (by omega)

theorem amfEncodeInt32_some {val : Nat} (h : 4 ≤ room) :
    amfEncodeInt32 room val = some (beBytes 4 val) := if_neg (by omega)

theorem number_cutBytes (n : UInt64) : CutBytes room (.number n) (amfEncodeNumber room n) := by
  rw [amfEncodeNumber]
  split
  · exact .inl rfl
  · rename_i hroom
    rw [store_of_le (by simp; omega)]
    exact .inr ⟨_, rfl, by simp; omega, fun _ => ⟨_, .refl _, .number n⟩⟩

theorem boolean_cutBytes (b : Bool) : CutBytes room (.boolean b) (amfEncodeBoolean room b) := by
  rw [amfEncodeBoolean]
  split
  · exact .inl rfl
  · rename_i hroom
    rw [store_of_le (by simp; omega)]
    exact .inr ⟨_, rfl, by simp; omega, fun _ => ⟨_, .refl _, .boolean b⟩⟩

/-- There is room for a long string where the encoder writes a short one. -/
theorem amfEncodeString_of_room {s : List UInt8} (h : 1 + 4 + s.length ≤ room) :
    amfEncodeString room s = .ret (some (stringBytes s)) := by
  rw [amfEncodeString, if_neg (by omega), stringBytes]
  split
  · rw [amfEncodeInt16, amfEncodeInt, if_neg (by omega), Call.deref_some, Call.ret_bind,
      store_of_le (by simp; omega)]
    rfl
  · rw [amfEncodeInt32_some (by omega), Call.deref_some, Call.ret_bind,
      store_of_le (by simp; omega)]
    rfl

theorem stringBytes_length_le (s : List UInt8) : (stringBytes s).length ≤ 5 + s.length := by
  rw [stringBytes]
  split
  · simp only [List.length_cons, List.length_append, beBytes_length]
    omega
  · simp only [List.length_cons, List.length_append, beBytes_length]
    omega

theorem string_cutBytes (s : List UInt8) : CutBytes room (.string s) (amfEncodeString room s) := by
  by_cases hroom : 1 + 4 + s.length ≤ room
  · rw [amfEncodeString_of_room hroom]
    have hlen := stringBytes_length_le s
    refine .inr ⟨_, rfl, by omega, fun hplain => ⟨_, .refl _, stringBytes_writes ?_⟩⟩
    simpa [AmfValue.plain] using hplain
  · rw [amfEncodeString, if_pos (by omega)]
    exact .inl rfl

theorem null_cutBytes :
    CutBytes room .null (pure (if room ≤ 1 then none else some [amfNull])) := by
  split
  · exact .inl rfl
  · exact .inr ⟨_, rfl, by simp; omega, fun _ => ⟨_, .refl _, .null (.inl rfl)⟩⟩

theorem object_cutBytes (h : ∀ room, CutProps room obj (props room)) :
    CutBytes room (.object obj) (amfEncodeWith room props) := by
  rw [amfEncodeWith]
  split
  · exact .inl rfl
  · obtain ⟨bs, hbs, hlen, hcut⟩ := h (room - 1)
    simp only [hbs, Call.ret_bind, List.length_cons]
    split
    · exact .inl rfl
    · rw [amfEncodeInt24_end (by omega)]
      refine .inr ⟨_, rfl, by simp [objectEnd]; omega, fun hplain => ?_⟩
      obtain ⟨obj', hcut', hwrites⟩ := hcut (by simpa [AmfValue.plain] using hplain)
      exact ⟨_, .object hcut', .object hwrites⟩

theorem ecmaArray_cutBytes {oNum : Nat} (h : ∀ room, CutProps room obj (props room)) :
    CutBytes room (.ecmaArray obj) (amfEncodeEcmaArrayWith room oNum props) := by
  rw [amfEncodeEcmaArrayWith]
  split
  · exact .inl rfl
  · obtain ⟨bs, hbs, hlen, hcut⟩ := h (room - 5)
    rw [amfEncodeInt32_some (by omega)]
    simp only [hbs, Call.deref_some, Call.ret_bind, List.length_cons, List.length_append,
      beBytes_length]
    split
    · exact .inl rfl
    · rw [amfEncodeInt24_end (by omega)]
      refine .inr ⟨_, rfl, by simp [objectEnd]; omega, fun hplain => ?_⟩
      obtain ⟨obj', hcut', hwrites⟩ := hcut (by simpa [AmfValue.plain] using hplain)
      simp only [List.cons_append, List.append_assoc]
      exact ⟨_, .ecmaArray hcut', .ecmaArray (beBytes_length 4 _) hwrites⟩

theorem strictArray_cutBytes {oNum : Nat} (h : ∀ room, CutProps room obj (props room)) :
    CutBytes room (.strictArray obj) (amfEncodeArrayWith room oNum props) := by
  rw [amfEncodeArrayWith]
  split
  · exact .inl rfl
  · obtain ⟨bs, hbs, hlen, -⟩ := h (room - 5)
    rw [amfEncodeInt32_some (by omega)]
    simp only [hbs, Call.deref_some, Call.ret_bind]
    refine .inr ⟨_, rfl, by simp; omega, fun hplain => ?_⟩
    simp [AmfValue.plain] at hplain

/-- What is written of a property: its name, then a cut of its value. -/
def CutProp (room : Nat) (pName : List UInt8) (value : AmfValue)
    (call : Call (Option (List UInt8))) : Prop :=
  call = .ret none ∨ ∃ bs, call = .ret (some (amfName pName value ++ bs)) ∧
    (amfName pName value ++ bs).length ≤ room ∧
    (value.plain = true → ∃ value' : AmfValue, value'.Cut value ∧ value'.Writes bs)

theorem amfName_fits {pName : List UInt8} {value : AmfValue}
    (h : ¬(¬value.isNull ∧ room ≤ pName.length + 2 + 1)) :
    (amfName pName value).length ≤ room := by
  cases hnull : value.isNull with
  | true => simp [amfName_of_null pName hnull]
  | false =>
    have := amfName_length_le pName value
    simp only [hnull, Bool.false_eq_true, not_false_eq_true, true_and] at h
    omega

theorem CutBytes.prop {pName : List UInt8} {value : AmfValue}
    {call : Call (Option (List UInt8))} (hname : (amfName pName value).length ≤ room)
    (h : CutBytes (room - (amfName pName value).length) value call) :
    CutProp room pName value
      (call >>= fun bytes => pure (bytes.map (amfName pName value ++ ·))) := by
  obtain rfl | ⟨bs, rfl, hlen, hcut⟩ := h
  · exact .inl rfl
  · exact .inr ⟨bs, rfl, by simp; omega, hcut⟩

theorem none_cutBytes (value : AmfValue) : CutBytes room value (pure none) := .inl rfl

mutual

/-- **The encoder writes nothing outside its room.** What it writes there is a cut of the value. -/
theorem amfPropEncode_cut (room : Nat) (pName : List UInt8) (value : AmfValue) :
    CutProp room pName value (amfPropEncode room pName value) := by
  rw [amfPropEncode]
  split
  · exact .inl rfl
  · split
    · exact .inl rfl
    · rename_i hroom
      have hname := amfName_fits hroom
      rw [store_of_le hname, Call.ret_bind]
      cases value with
      | number n => exact (number_cutBytes n).prop hname
      | boolean b => exact (boolean_cutBytes b).prop hname
      | string s => exact (string_cutBytes s).prop hname
      | object o => exact (object_cutBytes fun room => amfEncodeProps_cut room o).prop hname
      | null => exact null_cutBytes.prop hname
      | ecmaArray o => exact (ecmaArray_cutBytes fun room => amfEncodeProps_cut room o).prop hname
      | strictArray o =>
        exact (strictArray_cutBytes fun room => amfEncodeProps_cut room o).prop hname
      | date n k => exact (none_cutBytes _).prop hname
      | xmlDoc s => exact (none_cutBytes _).prop hname
      | invalid => exact (none_cutBytes _).prop hname

theorem amfEncodeProps_cut (room : Nat) (obj : AmfObject) :
    CutProps room obj (amfEncodeProps room obj) := by
  cases obj with
  | nil => exact ⟨[], rfl, Nat.zero_le _, fun _ => ⟨_, .nil _, .nil⟩⟩
  | cons pName value rest =>
    rw [amfEncodeProps]
    obtain hnone | ⟨bs, hbs, hlen, hcut⟩ := amfPropEncode_cut room pName value
    · rw [hnone]
      exact ⟨[], rfl, Nat.zero_le _, fun _ => ⟨_, .nil _, .nil⟩⟩
    · rw [hbs]
      simp only [Call.ret_bind]
      obtain ⟨bs', hbs', hlen', hcut'⟩ :=
        amfEncodeProps_cut (room - (amfName pName value ++ bs).length) rest
      rw [hbs']
      refine ⟨_, rfl, by rw [List.length_append]; omega, fun hplain => ?_⟩
      simp only [AmfObject.plain, Bool.and_eq_true, decide_eq_true_eq, Bool.not_eq_true'] at hplain
      obtain ⟨⟨⟨⟨hne, hlen⟩, hnull⟩, hv⟩, hr⟩ := hplain
      obtain ⟨value', hvalue, hwrites⟩ := hcut hv
      obtain ⟨rest', hrest, hwrites'⟩ := hcut' hr
      rw [amfName_eq hne hnull, List.append_assoc, List.append_assoc]
      exact ⟨_, .cons hvalue hrest, .cons hne hlen hwrites hwrites'⟩

end

end Safe

section Room

/-- The encoder has room for the bytes and a little more. -/
theorem amfName_room {room n : Nat} {pName : List UInt8} {value : AmfValue}
    (hnull : value.isNull = false → 2 ≤ n)
    (hroom : (amfName pName value).length + n + 2 ≤ room) :
    ¬(¬value.isNull ∧ room ≤ pName.length + 2 + 1) := by
  rintro ⟨hv, hle⟩
  have hfalse : value.isNull = false := by simpa using hv
  have hn := hnull hfalse
  by_cases hne : pName = []
  · rw [hne, List.length_nil] at hle
    omega
  · rw [amfName_eq hne hfalse, List.length_append, beBytes_length] at hroom
    omega

theorem wire_two_le {value : AmfValue} (h : value.whole = true) (hnull : value.isNull = false) :
    2 ≤ value.wire.length := by
  cases value with
  | number n => simp [AmfValue.wire]
  | boolean b => simp [AmfValue.wire]
  | string s =>
    rw [AmfValue.wire, stringBytes]
    split <;> simp <;> omega
  | object o => simp [AmfValue.wire, objectEnd]
  | null => cases hnull
  | ecmaArray o =>
    simp only [AmfValue.wire, List.length_cons, List.length_append, beBytes_length]
    omega
  | strictArray o =>
    simp only [AmfValue.wire, List.length_cons, List.length_append, beBytes_length]
    omega
  | date n k => cases h
  | xmlDoc s => cases h
  | invalid => cases h

variable {room : Nat} {obj : AmfObject} {props : Nat → Call (List UInt8)}

theorem amfEncodeWith_wire (h : ∀ room, obj.wire.length + 2 ≤ room → props room = .ret obj.wire)
    (hroom : (AmfValue.object obj).wire.length + 2 ≤ room) :
    amfEncodeWith room props = .ret (some (AmfValue.object obj).wire) := by
  simp only [AmfValue.wire, List.length_cons, List.length_append, objectEnd,
    beBytes_length] at hroom
  rw [amfEncodeWith, if_neg (by omega), h (room - 1) (by omega)]
  simp only [Call.ret_bind, List.length_cons]
  rw [if_neg (by omega), amfEncodeInt24_end (by omega)]
  rfl

theorem amfEncodeEcmaArrayWith_wire
    (h : ∀ room, obj.wire.length + 2 ≤ room → props room = .ret obj.wire)
    (hroom : (AmfValue.ecmaArray obj).wire.length + 2 ≤ room) :
    amfEncodeEcmaArrayWith room obj.oNum props = .ret (some (AmfValue.ecmaArray obj).wire) := by
  simp only [AmfValue.wire, List.length_cons, List.length_append, objectEnd,
    beBytes_length] at hroom
  rw [amfEncodeEcmaArrayWith, if_neg (by omega), amfEncodeInt32_some (by omega),
    h (room - 5) (by omega)]
  simp only [Call.deref_some, Call.ret_bind, List.length_cons, List.length_append, beBytes_length]
  rw [if_neg (by omega), amfEncodeInt24_end (by omega)]
  simp [AmfValue.wire]

theorem amfEncodeArrayWith_wire
    (h : ∀ room, obj.wire.length + 2 ≤ room → props room = .ret obj.wire)
    (hroom : (AmfValue.strictArray obj).wire.length + 2 ≤ room) :
    amfEncodeArrayWith room obj.oNum props = .ret (some (AmfValue.strictArray obj).wire) := by
  simp only [AmfValue.wire, List.length_cons, List.length_append, beBytes_length] at hroom
  rw [amfEncodeArrayWith, if_neg (by omega), amfEncodeInt32_some (by omega),
    h (room - 5) (by omega)]
  rfl

mutual

/-- With room for two bytes more than there are the value is written whole. -/
theorem amfPropEncode_wire {value : AmfValue} (h : value.whole = true) {room : Nat}
    {pName : List UInt8}
    (hroom : (amfName pName value).length + value.wire.length + 2 ≤ room) :
    amfPropEncode room pName value = .ret (some (amfName pName value ++ value.wire)) := by
  have hinvalid : value.isInvalid = false := by
    cases value <;> first | rfl | cases h
  rw [amfPropEncode, hinvalid, if_neg (by simp), if_neg (amfName_room (wire_two_le h) hroom),
    store_of_le (by omega), Call.ret_bind]
  have hrest : value.wire.length + 2 ≤ room - (amfName pName value).length := by omega
  generalize room - (amfName pName value).length = room at hrest
  cases value with
  | number n =>
    simp only [AmfValue.wire, List.length_cons, beBytes_length] at hrest
    simp only [amfEncodeNumber]
    rw [if_neg (by omega), store_of_le (by simp; omega)]
    rfl
  | boolean b =>
    simp only [AmfValue.wire, List.length_cons, List.length_nil] at hrest
    simp only [amfEncodeBoolean]
    rw [if_neg (by omega), store_of_le (by simp; omega)]
    rfl
  | string s =>
    have hlen : 3 + s.length ≤ (stringBytes s).length := by
      rw [stringBytes]
      split <;> simp <;> omega
    simp only [AmfValue.wire] at hrest
    simp only [amfEncodeString_of_room (show 1 + 4 + s.length ≤ room by omega)]
    rfl
  | object o =>
    simp only [amfEncodeWith_wire
      (fun room => amfEncodeProps_wire (by simpa [AmfValue.whole] using h)) hrest]
    rfl
  | null =>
    simp only [AmfValue.wire, List.length_cons, List.length_nil] at hrest
    simp only [if_neg (show ¬room ≤ 1 by omega)]
    rfl
  | ecmaArray o =>
    simp only [amfEncodeEcmaArrayWith_wire
      (fun room => amfEncodeProps_wire (by simpa [AmfValue.whole] using h)) hrest]
    rfl
  | strictArray o =>
    simp only [AmfValue.whole, Bool.and_eq_true] at h
    simp only [amfEncodeArrayWith_wire (fun room => amfEncodeProps_wire h.2) hrest]
    rfl
  | date n k => cases h
  | xmlDoc s => cases h
  | invalid => cases h

theorem amfEncodeProps_wire {obj : AmfObject} {named : Bool} (h : obj.whole named = true)
    {room : Nat} (hroom : obj.wire.length + 2 ≤ room) :
    amfEncodeProps room obj = .ret obj.wire := by
  cases obj with
  | nil => rfl
  | cons pName value rest =>
    simp only [AmfObject.whole, Bool.and_eq_true] at h
    obtain ⟨⟨-, hv⟩, hr⟩ := h
    simp only [AmfObject.wire, List.length_append] at hroom
    rw [amfEncodeProps, amfPropEncode_wire hv (by omega)]
    simp only [Call.ret_bind]
    rw [amfEncodeProps_wire hr (by rw [List.length_append]; omega), AmfObject.wire]
    simp

end

end Room

/-! ## Back from the bytes -/

/-- The decoder takes the bytes for the property, whatever follows them. -/
def PropRead (bytes pName : List UInt8) (value : AmfValue) : Prop :=
  ∀ tail fuel, ∀ nSize : Int, 3 * bytes.length + 1 ≤ fuel → bytes.length ≤ nSize →
    amfPropDecode fuel (bytes ++ tail) nSize true = .ret (some (bytes.length, pName, value))

theorem propRead_of_writes {value : AmfValue} {bs pName : List UInt8} (h : value.Writes bs)
    (hne : pName ≠ []) (hlen : pName.length < 2 ^ 16) (hnull : value.isNull = false) :
    PropRead (amfName pName value ++ bs) pName value := by
  intro tail fuel nSize hfuel hsize
  have hbytes : (amfName pName value ++ bs).length = 2 + pName.length + bs.length := by
    rw [amfName_eq hne hnull]
    simp [Nat.add_assoc]
  rw [hbytes] at hfuel hsize ⊢
  rw [amfName_eq hne hnull, List.append_assoc, List.append_assoc]
  exact amfPropDecode_named h.read hlen hne tail (by omega) hsize

/-- **Encoded into any room and decoded again.** The encoder writes nothing outside the room, and
what it writes is read back as a cut of the value. -/
theorem amf_encode_cut (room : Nat) (pName : List UInt8) (value : AmfValue) :
    amfPropEncode room pName value = .ret none ∨
      ∃ bytes, amfPropEncode room pName value = .ret (some bytes) ∧ bytes.length ≤ room ∧
        (value.plain = true → pName ≠ [] → pName.length < 2 ^ 16 → value.isNull = false →
          ∃ value' : AmfValue, value'.Cut value ∧ PropRead bytes pName value') := by
  obtain hnone | ⟨bs, hbs, hfits, hcut⟩ := amfPropEncode_cut room pName value
  · exact .inl hnone
  · refine .inr ⟨_, hbs, hfits, fun hplain hne hlen hnull => ?_⟩
    obtain ⟨value', hvalue, hwrites⟩ := hcut hplain
    refine ⟨value', hvalue, ?_⟩
    have hname : amfName pName value = amfName pName value' := by
      rw [amfName, amfName, hvalue.isNull_eq]
    rw [hname]
    exact propRead_of_writes hwrites hne hlen (hvalue.isNull_eq.trans hnull)

/-- The second property of the object does not fit, and the object ends before it. -/
example : amfPropEncode 14 [97]
      (.object (.cons [98] (.boolean true) (.cons [99] (.number 0) .nil))) =
    .ret (some [0, 1, 97, 3, 0, 1, 98, 1, 1, 0, 0, 9]) := by decide

/-- **Encoded with room to spare and decoded again.** Then nothing is cut. -/
theorem amf_round_trip {value : AmfValue} (h : value.whole = true) {pName : List UInt8}
    (hne : pName ≠ []) (hlen : pName.length < 2 ^ 16) (hnull : value.isNull = false) {room : Nat}
    (hroom : 2 + pName.length + value.wire.length + 2 ≤ room) :
    ∃ bytes, amfPropEncode room pName value = .ret (some bytes) ∧
      bytes.length = 2 + pName.length + value.wire.length ∧ PropRead bytes pName value := by
  have hname : (amfName pName value).length = 2 + pName.length := by
    rw [amfName_eq hne hnull]
    simp
  refine ⟨_, amfPropEncode_wire h (by omega), by rw [List.length_append, hname], ?_⟩
  exact propRead_of_writes (AmfValue.wire_writes h) hne hlen hnull

theorem amf_round_trip_object :
    ∃ bytes, amfPropEncode 32 [97]
        (.object (.cons [98] (.strictArray (.cons [] .null .nil)) .nil)) = .ret (some bytes) ∧
      bytes.length = 16 ∧
      PropRead bytes [97] (.object (.cons [98] (.strictArray (.cons [] .null .nil)) .nil)) :=
  amf_round_trip (by decide) (by decide) (by decide) rfl (by decide)

end MetaRtc
