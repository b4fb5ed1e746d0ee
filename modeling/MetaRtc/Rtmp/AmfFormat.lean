import MetaRtc.Rtmp.Amf

/-! # What a decoder reads back

The bytes an AMF value may be written in, and that the decoder finds the value in them, whatever
follows. -/
namespace MetaRtc

open Bytes Exec

/-- The three bytes that end an object. -/
def objectEnd : List UInt8 := beBytes 3 amfObjectEnd

mutual

/-- The bytes are a writing of the value. A short string may be written as a long one, and what an
array says of its own length is not looked at. -/
inductive AmfValue.Writes : AmfValue → List UInt8 → Prop
  | number (n : UInt64) : AmfValue.Writes (.number n) (0 :: beBytes 8 n.toNat)
  | boolean (b : Bool) : AmfValue.Writes (.boolean b) [1, if b then 1 else 0]
  | string {s : List UInt8} (hs : s.length < 2 ^ 16) :
      AmfValue.Writes (.string s) (2 :: (beBytes 2 s.length ++ s))
  | longString {s : List UInt8} (hs : s.length < 2 ^ 32) :
      AmfValue.Writes (.string s) (12 :: (beBytes 4 s.length ++ s))
  | object {o : AmfObject} {bs : List UInt8} (ho : o.Writes bs) :
      AmfValue.Writes (.object o) (3 :: (bs ++ objectEnd))
  | null {type : UInt8} (ht : type = 5 ∨ type = 6 ∨ type = 13) : AmfValue.Writes .null [type]
  | ecmaArray {o : AmfObject} {num bs : List UInt8} (hnum : num.length = 4) (ho : o.Writes bs) :
      AmfValue.Writes (.ecmaArray o) (8 :: (num ++ (bs ++ objectEnd)))
  | strictArray {o : AmfObject} {bs : List UInt8} (hnum : o.oNum < 2 ^ 31)
      (ho : o.WritesElements bs) : AmfValue.Writes (.strictArray o) (10 :: (beBytes 4 o.oNum ++ bs))
  | date (n : UInt64) {offset : Nat} (ho : offset < 2 ^ 16) :
      AmfValue.Writes (.date n offset) (11 :: (beBytes 8 n.toNat ++ beBytes 2 offset))
  | xmlDoc {s : List UInt8} (hs : s.length < 2 ^ 32) :
      AmfValue.Writes (.xmlDoc s) (15 :: (beBytes 4 s.length ++ s))

/-- Properties with their names, of which none is empty. -/
inductive AmfObject.Writes : AmfObject → List UInt8 → Prop
  | nil : AmfObject.Writes .nil []
  | cons {pName xs ys : List UInt8} {value : AmfValue} {rest : AmfObject} (hne : pName ≠ [])
      (hlen : pName.length < 2 ^ 16) (hv : value.Writes xs) (hr : rest.Writes ys) :
      AmfObject.Writes (.cons pName value rest) (beBytes 2 pName.length ++ (pName ++ (xs ++ ys)))

/-- Values without names. -/
inductive AmfObject.WritesElements : AmfObject → List UInt8 → Prop
  | nil : AmfObject.WritesElements .nil []
  | cons {xs ys : List UInt8} {value : AmfValue} {rest : AmfObject} (hv : value.Writes xs)
      (hr : rest.WritesElements ys) : AmfObject.WritesElements (.cons [] value rest) (xs ++ ys)

end

section Fetch

theorem fetch_append (xs ys : List UInt8) : fetch xs.length (xs ++ ys) = .ret xs := by
  simp [fetch]

theorem fetch_append_of_length {n : Nat} {xs : List UInt8} (h : xs.length = n)
    (ys : List UInt8) : fetch n (xs ++ ys) = .ret xs := h ▸ fetch_append xs ys

theorem amfDecodeInt_append (n v : Nat) (tail : List UInt8) :
    amfDecodeInt n (beBytes n v ++ tail) = .ret (v % 256 ^ n) := by
  rw [amfDecodeInt, fetch_append_of_length (beBytes_length n v)]
  simp [beNat_beBytes]

theorem amfDecodeInt16_append {v : Nat} (hv : v < 2 ^ 16) (tail : List UInt8) :
    amfDecodeInt16 (beBytes 2 v ++ tail) = .ret v := by
  rw [amfDecodeInt16, amfDecodeInt_append, Nat.mod_eq_of_lt (by omega)]

theorem amfDecodeInt32_append {v : Nat} (hv : v < 2 ^ 32) (tail : List UInt8) :
    amfDecodeInt32 (beBytes 4 v ++ tail) = .ret v := by
  rw [amfDecodeInt32, amfDecodeInt_append, Nat.mod_eq_of_lt (by omega)]

theorem amfDecodeString_append {s : List UInt8} (hs : s.length < 2 ^ 16) (tail : List UInt8) :
    amfDecodeString (beBytes 2 s.length ++ (s ++ tail)) = .ret s := by
  rw [amfDecodeString, amfDecodeInt16_append hs, Call.ret_bind,
    List.drop_left' (beBytes_length 2 _), fetch_append]

theorem amfDecodeLongString_append {s : List UInt8} (hs : s.length < 2 ^ 32)
    (tail : List UInt8) : amfDecodeLongString (beBytes 4 s.length ++ (s ++ tail)) = .ret s := by
  rw [amfDecodeLongString, amfDecodeInt32_append hs, Call.ret_bind,
    List.drop_left' (beBytes_length 4 _), fetch_append]

theorem amfDecodeNumber_append (n : UInt64) (tail : List UInt8) :
    amfDecodeNumber (beBytes 8 n.toNat ++ tail) = .ret n := by
  rw [amfDecodeNumber, fetch_append_of_length (beBytes_length 8 _), Call.ret_bind,
    beNat_beBytes, Nat.mod_eq_of_lt (by have := n.toNat_lt; omega)]
  simp

end Fetch

section Read

/-- The decoder finds the value behind its type, with what it has of bytes and of fuel. -/
def AmfValue.Read (value : AmfValue) (bs : List UInt8) : Prop :=
  ∃ type rest, bs = type :: rest ∧ ∀ fuel tail, ∀ nSize : Int, 3 * bs.length ≤ fuel →
    rest.length ≤ nSize →
    amfValueDecode fuel type.toNat (rest ++ tail) nSize = .ret (some (rest.length, value))

/-- The decoder finds the properties, up to where `stop` is in front. -/
def AmfObject.Read (obj : AmfObject) (bs : List UInt8) : Prop :=
  ∀ fuel tail, ∀ nSize : Int, 3 * (bs.length + 3) + 2 ≤ fuel → (bs.length + 3 : Nat) ≤ nSize →
    amfDecode fuel (bs ++ (objectEnd ++ tail)) nSize true = .ret (some (bs.length + 3, obj))

def AmfObject.ReadElements (obj : AmfObject) (bs : List UInt8) : Prop :=
  ∀ fuel tail, ∀ nSize : Int, 3 * bs.length + 2 ≤ fuel → bs.length ≤ nSize →
    amfDecodeArray fuel (bs ++ tail) nSize obj.oNum false = .ret (some (bs.length, obj))

variable {value : AmfValue} {obj rest : AmfObject} {bs xs ys pName : List UInt8}

theorem AmfValue.Read.length_pos (h : value.Read bs) : 0 < bs.length := by
  obtain ⟨type, rest, rfl, -⟩ := h
  simp

/-- A type whose reading needs no fuel of its own. -/
theorem AmfValue.Read.leaf {type : UInt8} (h : ∀ fuel tail, ∀ nSize : Int, bs.length ≤ nSize →
      amfValueDecode (fuel + 1) type.toNat (bs ++ tail) nSize = .ret (some (bs.length, value))) :
    value.Read (type :: bs) := by
  refine ⟨type, bs, rfl, fun fuel tail nSize hfuel hsize => ?_⟩
  obtain ⟨fuel, rfl⟩ : ∃ k, fuel = k + 1 := ⟨fuel - 1, by simp at hfuel; omega⟩
  exact h fuel tail nSize hsize

theorem number_read (n : UInt64) : (AmfValue.number n).Read (0 :: beBytes 8 n.toNat) := by
  apply AmfValue.Read.leaf
  intro fuel tail nSize hsize
  rw [beBytes_length] at hsize ⊢
  show (if nSize < 8 then _ else _) = _
  rw [if_neg (by omega), amfDecodeNumber_append]
  rfl

theorem boolean_read (b : Bool) : (AmfValue.boolean b).Read [1, if b then 1 else 0] := by
  apply AmfValue.Read.leaf
  intro fuel tail nSize hsize
  simp only [List.length_singleton, Nat.cast_one] at hsize
  show (if nSize < 1 then _ else _) = _
  rw [if_neg (by omega)]
  cases b <;> rfl

theorem null_read {type : UInt8} (ht : type = 5 ∨ type = 6 ∨ type = 13) :
    AmfValue.null.Read [type] := by
  apply AmfValue.Read.leaf
  intro fuel tail nSize hsize
  obtain rfl | rfl | rfl := ht <;> rfl

theorem string_read (hs : bs.length < 2 ^ 16) :
    (AmfValue.string bs).Read (2 :: (beBytes 2 bs.length ++ bs)) := by
  apply AmfValue.Read.leaf
  intro fuel tail nSize hsize
  simp only [List.length_append, beBytes_length, List.append_assoc] at hsize ⊢
  show (amfDecodeInt16 _ >>= _) = _
  rw [amfDecodeInt16_append hs, Call.ret_bind, if_neg (by omega), amfDecodeString_append hs]
  rfl

theorem longString_read (hs : bs.length < 2 ^ 32) :
    (AmfValue.string bs).Read (12 :: (beBytes 4 bs.length ++ bs)) := by
  apply AmfValue.Read.leaf
  intro fuel tail nSize hsize
  simp only [List.length_append, beBytes_length, List.append_assoc] at hsize ⊢
  show (amfDecodeInt32 _ >>= _) = _
  rw [amfDecodeInt32_append hs, Call.ret_bind, if_neg (by omega), amfDecodeLongString_append hs]
  rfl

theorem xmlDoc_read (hs : bs.length < 2 ^ 32) :
    (AmfValue.xmlDoc bs).Read (15 :: (beBytes 4 bs.length ++ bs)) := by
  apply AmfValue.Read.leaf
  intro fuel tail nSize hsize
  simp only [List.length_append, beBytes_length, List.append_assoc] at hsize ⊢
  show (amfDecodeInt32 _ >>= _) = _
  rw [amfDecodeInt32_append hs, Call.ret_bind, if_neg (by omega), amfDecodeLongString_append hs]
  rfl

theorem date_read (n : UInt64) {offset : Nat} (ho : offset < 2 ^ 16) :
    (AmfValue.date n offset).Read (11 :: (beBytes 8 n.toNat ++ beBytes 2 offset)) := by
  apply AmfValue.Read.leaf
  intro fuel tail nSize hsize
  simp only [List.length_append, beBytes_length, List.append_assoc] at hsize ⊢
  show (if nSize < 10 then _ else _) = _
  rw [if_neg (by omega), amfDecodeNumber_append, Call.ret_bind,
    List.drop_left' (beBytes_length 8 _), amfDecodeInt16_append ho]
  rfl

theorem object_read (h : obj.Read bs) : (AmfValue.object obj).Read (3 :: (bs ++ objectEnd)) := by
  refine ⟨3, _, rfl, fun fuel tail nSize hfuel hsize => ?_⟩
  have hlen : (bs ++ objectEnd).length = bs.length + 3 := by simp [objectEnd]
  rw [List.length_cons, hlen] at hfuel
  rw [hlen] at hsize ⊢
  obtain ⟨fuel, rfl⟩ : ∃ k, fuel = k + 1 := ⟨fuel - 1, by omega⟩
  show (amfDecode fuel _ nSize true >>= _) = _
  rw [List.append_assoc, h fuel tail nSize (by omega) hsize]
  rfl

theorem ecmaArray_read {num : List UInt8} (hnum : num.length = 4) (h : obj.Read bs) :
    (AmfValue.ecmaArray obj).Read (8 :: (num ++ (bs ++ objectEnd))) := by
  refine ⟨8, _, rfl, fun fuel tail nSize hfuel hsize => ?_⟩
  have hlen : (num ++ (bs ++ objectEnd)).length = 4 + (bs.length + 3) := by
    simp [objectEnd, hnum]
  rw [List.length_cons, hlen] at hfuel
  rw [hlen] at hsize ⊢
  obtain ⟨fuel, rfl⟩ : ∃ k, fuel = k + 1 := ⟨fuel - 1, by omega⟩
  show (amfDecode fuel _ (nSize - 4) true >>= _) = _
  rw [List.append_assoc, List.drop_left' hnum, List.append_assoc,
    h fuel tail (nSize - 4) (by omega) (by push_cast at hsize ⊢; omega)]
  rfl

theorem strictArray_read (hnum : obj.oNum < 2 ^ 31) (h : obj.ReadElements bs) :
    (AmfValue.strictArray obj).Read (10 :: (beBytes 4 obj.oNum ++ bs)) := by
  refine ⟨10, _, rfl, fun fuel tail nSize hfuel hsize => ?_⟩
  have hlen : (beBytes 4 obj.oNum ++ bs).length = 4 + bs.length := by simp
  rw [List.length_cons, hlen] at hfuel
  rw [hlen] at hsize ⊢
  obtain ⟨fuel, rfl⟩ : ∃ k, fuel = k + 1 := ⟨fuel - 1, by omega⟩
  show (amfDecodeInt32 _ >>= _) = _
  rw [List.append_assoc, amfDecodeInt32_append (by omega), Call.ret_bind]
  simp only [if_pos hnum]
  rw [List.drop_left' (beBytes_length 4 _),
    h fuel tail (nSize - 4) (by omega) (by push_cast at hsize ⊢; omega)]
  rfl

/-- A property without a name is read as its value. -/
theorem amfPropDecode_element (h : value.Read bs) {fuel : Nat} {nSize : Int}
    (tail : List UInt8) (hfuel : 3 * bs.length + 1 ≤ fuel) (hsize : bs.length ≤ nSize) :
    amfPropDecode fuel (bs ++ tail) nSize false = .ret (some (bs.length, [], value)) := by
  obtain ⟨type, rest, rfl, hread⟩ := h
  obtain ⟨fuel, rfl⟩ : ∃ k, fuel = k + 1 := ⟨fuel - 1, by omega⟩
  rw [List.length_cons] at hfuel hsize
  rw [amfPropDecode, if_neg (by omega)]
  simp only [amfDecodeName, Bool.false_eq_true, if_false, Call.pure_eq, Call.ret_bind,
    List.drop_zero, Nat.cast_zero, sub_zero, List.cons_append]
  rw [if_neg (by omega), show fetch 1 (type :: (rest ++ tail)) = .ret [type] from by simp [fetch],
    Call.ret_bind, show beNat [type] = type.toNat from by simp [beNat], List.drop_one,
    List.tail_cons, hread fuel tail (nSize - 1) (by simp; omega) (by omega)]
  simp [Nat.add_comm]

theorem amfPropDecode_named (h : value.Read bs) {fuel : Nat} {nSize : Int}
    (hlen : pName.length < 2 ^ 16) (hne : pName ≠ []) (tail : List UInt8)
    (hfuel : 3 * bs.length + 1 ≤ fuel) (hsize : (2 + pName.length + bs.length : Nat) ≤ nSize) :
    amfPropDecode fuel (beBytes 2 pName.length ++ (pName ++ (bs ++ tail))) nSize true =
      .ret (some (2 + pName.length + bs.length, pName, value)) := by
  obtain ⟨type, rest, rfl, hread⟩ := h
  obtain ⟨fuel, rfl⟩ : ∃ k, fuel = k + 1 := ⟨fuel - 1, by omega⟩
  have hpos : 0 < pName.length := List.length_pos_of_ne_nil hne
  rw [List.length_cons] at hfuel hsize
  push_cast at hsize
  rw [amfPropDecode, if_neg (by omega)]
  simp only [amfDecodeName, if_true, if_neg (show ¬nSize < 4 by omega),
    amfDecodeInt16_append hlen, Call.ret_bind, if_neg (show ¬nSize - 2 < pName.length by omega),
    amfDecodeString_append hlen, Call.pure_eq]
  rw [if_neg (by push_cast; omega), ← List.append_assoc,
    List.drop_left' (by simp : (beBytes 2 pName.length ++ pName).length = 2 + pName.length),
    List.cons_append, show fetch 1 (type :: (rest ++ tail)) = .ret [type] from by simp [fetch],
    Call.ret_bind, show beNat [type] = type.toNat from by simp [beNat], List.drop_one,
    List.tail_cons, hread fuel tail _ (by simp; omega) (by push_cast; omega)]
  simp only [Call.ret_bind, List.length_cons, Nat.add_assoc, Nat.add_comm 1]

/-- The bytes of a name cannot be taken for the end mark. -/
theorem amfEnded_name (hlen : pName.length < 2 ^ 16) (hne : pName ≠ []) (tail : List UInt8)
    (nSize : Int) :
    amfEnded (beBytes 2 pName.length ++ (pName ++ tail)) nSize = .ret false := by
  obtain ⟨c, cs, rfl⟩ := List.exists_cons_of_ne_nil hne
  have hint : amfDecodeInt24 (beBytes 2 (c :: cs).length ++ (c :: cs ++ tail)) =
      .ret (beNat (beBytes 2 (c :: cs).length ++ [c])) := by
    have hsplit : beBytes 2 (c :: cs).length ++ (c :: cs ++ tail) =
        (beBytes 2 (c :: cs).length ++ [c]) ++ (cs ++ tail) := by simp
    rw [hsplit, amfDecodeInt24, amfDecodeInt, fetch_append_of_length (by simp)]
    rfl
  have hne : beNat (beBytes 2 (c :: cs).length ++ [c]) ≠ amfObjectEnd := by
    rw [beNat_concat, beNat_beBytes, Nat.mod_eq_of_lt (by omega), amfObjectEnd, List.length_cons]
    omega
  rw [amfEnded, hint]
  split
  · simpa using hne
  · rfl

theorem amfEnded_end (tail : List UInt8) {nSize : Int} (hsize : 3 ≤ nSize) :
    amfEnded (objectEnd ++ tail) nSize = .ret true := by
  rw [amfEnded, if_pos hsize, objectEnd, amfDecodeInt24, amfDecodeInt_append]
  rfl

theorem nil_read : AmfObject.nil.Read [] := by
  intro fuel tail nSize hfuel hsize
  obtain ⟨fuel, rfl⟩ : ∃ k, fuel = k + 1 := ⟨fuel - 1, by omega⟩
  simp only [List.length_nil, Nat.zero_add, List.nil_append] at hsize ⊢
  rw [amfDecode, if_neg (by omega), amfEnded_end tail (by omega)]
  rfl

theorem cons_read (hne : pName ≠ []) (hlen : pName.length < 2 ^ 16) (hv : value.Read xs)
    (hr : rest.Read ys) :
    (AmfObject.cons pName value rest).Read (beBytes 2 pName.length ++ (pName ++ (xs ++ ys))) := by
  intro fuel tail nSize hfuel hsize
  have hpos := hv.length_pos
  obtain ⟨fuel, rfl⟩ : ∃ k, fuel = k + 1 := ⟨fuel - 1, by omega⟩
  simp only [List.length_append, beBytes_length] at hfuel hsize ⊢
  push_cast at hsize
  have hdrop : (beBytes 2 pName.length ++ (pName ++ (xs ++ (ys ++ (objectEnd ++ tail))))).drop
      (2 + pName.length + xs.length) = ys ++ (objectEnd ++ tail) := by
    rw [← List.append_assoc, ← List.append_assoc]
    exact List.drop_left' (by simp [Nat.add_assoc])
  simp only [List.append_assoc]
  rw [amfDecode, if_neg (by omega), amfEnded_name hlen hne]
  simp only [Call.ret_bind, Bool.false_eq_true, if_false]
  rw [amfPropDecode_named hv hlen hne _ (by omega) (by push_cast; omega)]
  simp only [Call.ret_bind]
  rw [if_neg (by push_cast; omega), hdrop,
    hr fuel tail _ (by omega) (by push_cast; omega)]
  simp only [Call.ret_bind, Call.pure_eq, Nat.add_assoc]

theorem nil_readElements : AmfObject.nil.ReadElements [] := by
  intro fuel tail nSize hfuel _
  obtain ⟨fuel, rfl⟩ : ∃ k, fuel = k + 1 := ⟨fuel - 1, by omega⟩
  rfl

theorem cons_readElements (hv : value.Read xs) (hr : rest.ReadElements ys) :
    (AmfObject.cons [] value rest).ReadElements (xs ++ ys) := by
  intro fuel tail nSize hfuel hsize
  have hpos := hv.length_pos
  obtain ⟨fuel, rfl⟩ : ∃ k, fuel = k + 1 := ⟨fuel - 1, by omega⟩
  rw [List.length_append] at hfuel hsize ⊢
  push_cast at hsize
  rw [AmfObject.oNum, amfDecodeArray, if_neg (by omega), List.append_assoc,
    amfPropDecode_element hv _ (by omega) (by omega)]
  simp only [Call.ret_bind]
  rw [List.drop_left, hr fuel tail _ (by omega) (by omega)]
  rfl

mutual

/-- **A writing is read back.** -/
theorem AmfValue.Writes.read {value : AmfValue} {bs : List UInt8} (h : value.Writes bs) :
    value.Read bs := by
  cases h with
  | number n => exact number_read n
  | boolean b => exact boolean_read b
  | string hs => exact string_read hs
  | longString hs => exact longString_read hs
  | object ho => exact object_read ho.read
  | null ht => exact null_read ht
  | ecmaArray hnum ho => exact ecmaArray_read hnum ho.read
  | strictArray hnum ho => exact strictArray_read hnum ho.read
  | date n ho => exact date_read n ho
  | xmlDoc hs => exact xmlDoc_read hs

theorem AmfObject.Writes.read {obj : AmfObject} {bs : List UInt8} (h : obj.Writes bs) :
    obj.Read bs := by
  cases h with
  | nil => exact nil_read
  | cons hne hlen hv hr => exact cons_read hne hlen hv.read hr.read

theorem AmfObject.WritesElements.read {obj : AmfObject} {bs : List UInt8}
    (h : obj.WritesElements bs) : obj.ReadElements bs := by
  cases h with
  | nil => exact nil_readElements
  | cons hv hr => exact cons_readElements hv.read hr.read

end

end Read

end MetaRtc
