import MetaRtc.Lib.Bytes
import MetaRtc.Lib.Exec

/-! # AMF objects

What the commands of RTMP are written in. A number is the eight bytes of a double. -/
namespace MetaRtc

open Bytes Exec

mutual

/-- The value of a property with its type. -/
inductive AmfValue where
  | number (pNumber : UInt64)
  | boolean (b : Bool)
  | string (pAval : List UInt8)
  | object (pObject : AmfObject)
  | null
  | ecmaArray (pObject : AmfObject)
  | strictArray (pObject : AmfObject)
  | date (pNumber : UInt64) (pUTCoffset : Nat)
  | xmlDoc (pAval : List UInt8)
  | invalid

/-- The properties of an object in order. -/
inductive AmfObject where
  | nil
  | cons (pName : List UInt8) (value : AmfValue) (rest : AmfObject)

end

def AmfValue.isNull : AmfValue → Bool
  | .null => true
  | _ => false

def AmfValue.isInvalid : AmfValue → Bool
  | .invalid => true
  | _ => false

def AmfObject.oNum : AmfObject → Nat
  | .nil => 0
  | .cons _ _ rest => rest.oNum + 1

def amfNumber : UInt8 := 0
def amfBoolean : UInt8 := 1
def amfString : UInt8 := 2
def amfObject : UInt8 := 3
def amfNull : UInt8 := 5
def amfEcmaArray : UInt8 := 8
def amfObjectEnd : Nat := 9
def amfStrictArray : UInt8 := 10
def amfLongString : UInt8 := 12

section Encode

/-- Bytes put where there is room for so many. -/
def store (room : Nat) (bytes : List UInt8) : Call (List UInt8) :=
  if bytes.length ≤ room then .ret bytes else .crash

def amfEncodeInt (n room val : Nat) : Option (List UInt8) :=
  if room < n then none else some (beBytes n val)

def amfEncodeInt16 (room val : Nat) : Option (List UInt8) := amfEncodeInt 2 room val
def amfEncodeInt24 (room val : Nat) : Option (List UInt8) := amfEncodeInt 3 room val
def amfEncodeInt32 (room val : Nat) : Option (List UInt8) := amfEncodeInt 4 room val

/-- There has to be room for a long string whatever its length is. -/
def amfEncodeString (room : Nat) (bv : List UInt8) : Call (Option (List UInt8)) :=
  if (bv.length < 65536 ∧ room < 1 + 2 + bv.length) ∨ room < 1 + 4 + bv.length then return none
  else if bv.length < 65536 then do
    let size ← Call.deref (amfEncodeInt16 (room - 1) bv.length)
    return some (← store room (amfString :: (size ++ bv)))
  else do
    let size ← Call.deref (amfEncodeInt32 (room - 1) bv.length)
    return some (← store room (amfLongString :: (size ++ bv)))

def amfEncodeNumber (room : Nat) (dVal : UInt64) : Call (Option (List UInt8)) :=
  if room < 1 + 8 then return none
  else return some (← store room (amfNumber :: beBytes 8 dVal.toNat))

def amfEncodeBoolean (room : Nat) (bVal : Bool) : Call (Option (List UInt8)) :=
  if room < 2 then return none
  else return some (← store room [amfBoolean, if bVal then 1 else 0])

/-- The name of a property. A null has none. -/
def amfName (pName : List UInt8) (value : AmfValue) : List UInt8 :=
  if ¬value.isNull ∧ pName ≠ [] then beBytes 2 pName.length ++ pName else []

/-! An object is put down by `props`, which puts its properties into the room it is given. -/

def amfEncodeWith (room : Nat) (props : Nat → Call (List UInt8)) : Call (Option (List UInt8)) :=
  if room ≤ 4 then return none
  else do
    let bytes := amfObject :: (← props (room - 1))
    if room - bytes.length ≤ 3 then return none
    else return (amfEncodeInt24 (room - bytes.length) amfObjectEnd).map (bytes ++ ·)

def amfEncodeEcmaArrayWith (room oNum : Nat) (props : Nat → Call (List UInt8)) :
    Call (Option (List UInt8)) :=
  if room ≤ 4 then return none
  else do
    let num ← Call.deref (amfEncodeInt32 (room - 1) oNum)
    let bytes := amfEcmaArray :: (num ++ (← props (room - 5)))
    if room - bytes.length ≤ 3 then return none
    else return (amfEncodeInt24 (room - bytes.length) amfObjectEnd).map (bytes ++ ·)

/-- An array has no end mark. -/
def amfEncodeArrayWith (room oNum : Nat) (props : Nat → Call (List UInt8)) :
    Call (Option (List UInt8)) :=
  if room ≤ 4 then return none
  else do
    let num ← Call.deref (amfEncodeInt32 (room - 1) oNum)
    return some (amfStrictArray :: (num ++ (← props (room - 5))))

mutual

def amfPropEncode (room : Nat) (pName : List UInt8) (value : AmfValue) :
    Call (Option (List UInt8)) :=
  if value.isInvalid then return none
  else if ¬value.isNull ∧ room ≤ pName.length + 2 + 1 then return none
  else do
    let name ← store room (amfName pName value)
    let room := room - name.length
    let bytes ← match value with
      | .number n => amfEncodeNumber room n
      | .boolean b => amfEncodeBoolean room b
      | .string s => amfEncodeString room s
      | .null => pure (if room ≤ 1 then none else some [amfNull])
      | .object o => amfEncodeWith room (amfEncodeProps · o)
      | .ecmaArray o => amfEncodeEcmaArrayWith room o.oNum (amfEncodeProps · o)
      | .strictArray o => amfEncodeArrayWith room o.oNum (amfEncodeProps · o)
      | .date _ _ => pure none
      | .xmlDoc _ => pure none
      | .invalid => pure none
    return bytes.map (name ++ ·)

/-- The first property that cannot be encoded ends the object, and the object is not given up. -/
def amfEncodeProps (room : Nat) (obj : AmfObject) : Call (List UInt8) :=
  match obj with
  | .nil => return []
  | .cons pName value rest => do
    match ← amfPropEncode room pName value with
    | none => return []
    | some bytes => return bytes ++ (← amfEncodeProps (room - bytes.length) rest)

end

def amfEncode (room : Nat) (obj : AmfObject) : Call (Option (List UInt8)) :=
  amfEncodeWith room (amfEncodeProps · obj)

def amfEncodeEcmaArray (room : Nat) (obj : AmfObject) : Call (Option (List UInt8)) :=
  amfEncodeEcmaArrayWith room obj.oNum (amfEncodeProps · obj)

def amfEncodeArray (room : Nat) (obj : AmfObject) : Call (Option (List UInt8)) :=
  amfEncodeArrayWith room obj.oNum (amfEncodeProps · obj)

end Encode

section Decode

/-- `n` bytes at an address. They have to be there. -/
def fetch (n : Nat) (data : List UInt8) : Call (List UInt8) :=
  if n ≤ data.length then .ret (data.take n) else .crash

def amfDecodeInt (n : Nat) (data : List UInt8) : Call Nat := do return beNat (← fetch n data)

def amfDecodeInt16 (data : List UInt8) : Call Nat := amfDecodeInt 2 data
def amfDecodeInt24 (data : List UInt8) : Call Nat := amfDecodeInt 3 data
def amfDecodeInt32 (data : List UInt8) : Call Nat := amfDecodeInt 4 data

/-- A string is where its bytes are, which are not copied. -/
def amfDecodeString (data : List UInt8) : Call (List UInt8) := do
  fetch (← amfDecodeInt16 data) (data.drop 2)

def amfDecodeLongString (data : List UInt8) : Call (List UInt8) := do
  fetch (← amfDecodeInt32 data) (data.drop 4)

def amfDecodeNumber (data : List UInt8) : Call UInt64 := do
  return .ofNat (beNat (← fetch 8 data))

def amfDecodeBoolean (data : List UInt8) : Call Bool := do
  return (← fetch 1 data) != [0]

/-- The name with the number of bytes it takes. -/
def amfDecodeName (data : List UInt8) (nSize : Int) (bDecodeName : Bool) :
    Call (Option (List UInt8 × Nat)) :=
  if bDecodeName then
    if nSize < 4 then return none
    else do
      let nNameSize ← amfDecodeInt16 data
      if nSize - 2 < nNameSize then return none
      else return some (← amfDecodeString data, 2 + nNameSize)
  else return some ([], 0)

/-- Whether the mark comes next that ends an object. -/
def amfEnded (data : List UInt8) (nSize : Int) : Call Bool :=
  if 3 ≤ nSize then do return (← amfDecodeInt24 data) == amfObjectEnd else return false

mutual

/-- A property with the number of bytes it takes. An object of AMF3 is left to that decoder, which
is not modelled: there the model stops. So it does without fuel. -/
def amfPropDecode (fuel : Nat) (data : List UInt8) (nSize : Int) (bDecodeName : Bool) :
    Call (Option (Nat × List UInt8 × AmfValue)) :=
  match fuel with
  | 0 => .blocked
  | fuel + 1 =>
    if nSize = 0 then return none
    else do
      match ← amfDecodeName data nSize bDecodeName with
      | none => return none
      | some (pName, used) =>
        let data := data.drop used
        let nSize := nSize - used
        if nSize = 0 then return none
        else
          let type ← fetch 1 data
          match ← amfValueDecode fuel (beNat type) (data.drop 1) (nSize - 1) with
          | none => return none
          | some (nRes, value) => return some (used + 1 + nRes, pName, value)

/-- What follows the byte of the type. -/
def amfValueDecode (fuel type : Nat) (data : List UInt8) (nSize : Int) :
    Call (Option (Nat × AmfValue)) :=
  match fuel with
  | 0 => .blocked
  | fuel + 1 =>
    match type with
    | 0 =>
      if nSize < 8 then return none else return some (8, .number (← amfDecodeNumber data))
    | 1 =>
      if nSize < 1 then return none else return some (1, .boolean (← amfDecodeBoolean data))
    | 2 => do
      let nStringSize ← amfDecodeInt16 data
      if nSize < nStringSize + 2 then return none
      else return some (2 + nStringSize, .string (← amfDecodeString data))
    | 3 => do
      match ← amfDecode fuel data nSize true with
      | none => return none
      | some (nRes, obj) => return some (nRes, .object obj)
    | 5 => return some (0, .null)
    | 6 => return some (0, .null)
    | 13 => return some (0, .null)
    | 8 => do
      match ← amfDecode fuel (data.drop 4) (nSize - 4) true with
      | none => return none
      | some (nRes, obj) => return some (4 + nRes, .ecmaArray obj)
    | 10 => do
      let nArrayLen ← amfDecodeInt32 data
      let nArrayLen := if nArrayLen < 2 ^ 31 then nArrayLen else 0
      match ← amfDecodeArray fuel (data.drop 4) (nSize - 4) nArrayLen false with
      | none => return none
      | some (nRes, obj) => return some (4 + nRes, .strictArray obj)
    | 11 =>
      if nSize < 10 then return none
      else return some (10, .date (← amfDecodeNumber data) (← amfDecodeInt16 (data.drop 8)))
    | 12 => do
      let nStringSize ← amfDecodeInt32 data
      if nSize < nStringSize + 4 then return none
      else return some (4 + nStringSize, .string (← amfDecodeLongString data))
    | 15 => do
      let nStringSize ← amfDecodeInt32 data
      if nSize < nStringSize + 4 then return none
      else return some (4 + nStringSize, .xmlDoc (← amfDecodeLongString data))
    | 17 => .blocked
    | _ => return none

def amfDecode (fuel : Nat) (data : List UInt8) (nSize : Int) (bDecodeName : Bool) :
    Call (Option (Nat × AmfObject)) :=
  match fuel with
  | 0 => .blocked
  | fuel + 1 =>
    if nSize ≤ 0 then return some (0, .nil)
    else do
      if ← amfEnded data nSize then return some (3, .nil)
      else
        match ← amfPropDecode fuel data nSize bDecodeName with
        | none => return none
        | some (nRes, pName, value) =>
          if nSize - nRes < 0 then return none
          else
            match ← amfDecode fuel (data.drop nRes) (nSize - nRes) bDecodeName with
            | none => return none
            | some (nRest, rest) => return some (nRes + nRest, .cons pName value rest)

def amfDecodeArray (fuel : Nat) (data : List UInt8) (nSize : Int) (nArrayLen : Nat)
    (bDecodeName : Bool) : Call (Option (Nat × AmfObject)) :=
  match fuel with
  | 0 => .blocked
  | fuel + 1 =>
    match nArrayLen with
    | 0 => return some (0, .nil)
    | nArrayLen + 1 =>
      if nSize ≤ 0 then return none
      else do
        match ← amfPropDecode fuel data nSize bDecodeName with
        | none => return none
        | some (nRes, pName, value) =>
          match ← amfDecodeArray fuel (data.drop nRes) (nSize - nRes) nArrayLen bDecodeName with
          | none => return none
          | some (nRest, rest) => return some (nRes + nRest, .cons pName value rest)

end

end Decode

end MetaRtc
