import MetaRtc.Rtmp.Amf

/-! # Decoding bytes that nobody has checked

The lengths in the bytes may say anything. The decoder reads a length before it asks whether there
is one, up to four bytes behind the end. They do not show in what it returns. -/
namespace MetaRtc

open Bytes Exec

/-- Two buffers with the same bytes up to the size and something behind them. -/
structure SameBytes (nSize : Int) (data data' : List UInt8) : Prop where
  eq : data.take nSize.toNat = data'.take nSize.toNat
  left : nSize.toNat + 4 ≤ data.length
  right : nSize.toNat + 4 ≤ data'.length

section SameBytes

variable {nSize : Int} {data data' : List UInt8}

theorem SameBytes.drop (h : SameBytes nSize data data') {k : Nat} (hk : (k : Int) ≤ nSize) :
    SameBytes (nSize - k) (data.drop k) (data'.drop k) := by
  have hle : (nSize - k).toNat = nSize.toNat - k := by omega
  have hleft := h.left
  have hright := h.right
  refine ⟨?_, by rw [List.length_drop]; omega, by rw [List.length_drop]; omega⟩
  rw [hle, ← List.drop_take, ← List.drop_take, h.eq]

theorem SameBytes.take_eq (h : SameBytes nSize data data') {k : Nat} (hk : (k : Int) ≤ nSize) :
    data.take k = data'.take k := by
  have := congrArg (List.take k) h.eq
  rwa [List.take_take, List.take_take, min_eq_left (by omega)] at this

theorem fetch_of_le {n : Nat} (h : n ≤ data.length) : fetch n data = .ret (data.take n) := if_pos h

/-- What is read inside is the same. -/
theorem SameBytes.fetch (h : SameBytes nSize data data') {k : Nat} (hk : (k : Int) ≤ nSize) :
    ∃ bs, MetaRtc.fetch k data = .ret bs ∧ MetaRtc.fetch k data' = .ret bs := by
  have hleft := h.left
  have hright := h.right
  exact ⟨_, fetch_of_le (by omega), by rw [fetch_of_le (by omega), h.take_eq hk]⟩

theorem SameBytes.amfDecodeInt (h : SameBytes nSize data data') {k : Nat} (hk : (k : Int) ≤ nSize) :
    ∃ v, MetaRtc.amfDecodeInt k data = .ret v ∧ MetaRtc.amfDecodeInt k data' = .ret v := by
  obtain ⟨bs, hbs, hbs'⟩ := h.fetch hk
  exact ⟨beNat bs, by rw [MetaRtc.amfDecodeInt, hbs]; rfl, by rw [MetaRtc.amfDecodeInt, hbs']; rfl⟩

/-- What is read a little behind the end is something. -/
theorem SameBytes.amfDecodeInt_ret (h : SameBytes nSize data data') {k : Nat} (hk : k ≤ 4) :
    (∃ v, MetaRtc.amfDecodeInt k data = .ret v) ∧
      ∃ v, MetaRtc.amfDecodeInt k data' = .ret v := by
  have hleft := h.left
  have hright := h.right
  rw [MetaRtc.amfDecodeInt, MetaRtc.amfDecodeInt, fetch_of_le (by omega), fetch_of_le (by omega)]
  exact ⟨⟨_, rfl⟩, _, rfl⟩

end SameBytes

/-- Nothing, or more bytes than there are. -/
def Over {β : Type} (nSize : Int) : Option (Nat × β) → Prop
  | none => True
  | some r => nSize < r.1

/-- The two calls do the same, or both have passed the end. -/
def ReadAlike {β : Type} (nSize : Int) (x y : Call (Option (Nat × β))) : Prop :=
  (x = y ∧ x ≠ .crash) ∨ ∃ a b, x = .ret a ∧ y = .ret b ∧ Over nSize a ∧ Over nSize b

section ReadAlike

variable {β γ : Type} {nSize : Int}

theorem alike_ret (r : Option (Nat × β)) : ReadAlike nSize (.ret r) (.ret r) := .inl ⟨rfl, by simp⟩

theorem alike_blocked : ReadAlike nSize (.blocked : Call (Option (Nat × β))) .blocked :=
  .inl ⟨rfl, by simp⟩

theorem alike_over {a b : Option (Nat × β)} (ha : Over nSize a) (hb : Over nSize b) :
    ReadAlike nSize (.ret a) (.ret b) := .inr ⟨a, b, rfl, rfl, ha, hb⟩

theorem Over.shift {a : Option (Nat × β)} {k : Nat} (h : Over (nSize - k) a) (g : β → γ) :
    Over nSize (a.map fun r => (k + r.1, g r.2)) := by
  cases a with
  | none => trivial
  | some r =>
    simp only [Over, Option.map_some] at h ⊢
    omega

/-- With `k` bytes in front, behind the end stays behind the end. -/
theorem ReadAlike.shift {x y : Call (Option (Nat × β))} {k : Nat} (h : ReadAlike (nSize - k) x y)
    {f : Option (Nat × β) → Call (Option (Nat × γ))} {g : β → γ}
    (hf : ∀ r, f r = .ret (r.map fun r => (k + r.1, g r.2))) :
    ReadAlike nSize (x >>= f) (y >>= f) := by
  obtain ⟨rfl, hne⟩ | ⟨a, b, rfl, rfl, ha, hb⟩ := h
  · cases x with
    | ret r =>
      rw [Call.ret_bind, hf]
      exact alike_ret _
    | blocked => exact alike_blocked
    | crash => exact absurd rfl hne
  · rw [Call.ret_bind, Call.ret_bind, hf, hf]
    exact alike_over (ha.shift g) (hb.shift g)

end ReadAlike

section Values

/-- An object of at most `n` bytes is decoded to one result. -/
def DecodeAgrees (n : Nat) : Prop :=
  ∀ (nSize : Int) (fuel fuel' : Nat) (data data' : List UInt8) (bDecodeName : Bool),
    nSize.toNat ≤ n → 3 * nSize.toNat + 2 ≤ fuel → 3 * nSize.toNat + 2 ≤ fuel' →
    SameBytes nSize data data' →
    amfDecode fuel data nSize bDecodeName = amfDecode fuel' data' nSize bDecodeName ∧
      amfDecode fuel data nSize bDecodeName ≠ .crash

def ArrayAgrees (n : Nat) : Prop :=
  ∀ (nSize : Int) (fuel fuel' : Nat) (data data' : List UInt8) (nArrayLen : Nat)
    (bDecodeName : Bool), nSize.toNat ≤ n → 3 * nSize.toNat + 2 ≤ fuel →
    3 * nSize.toNat + 2 ≤ fuel' → SameBytes nSize data data' →
    ReadAlike nSize (amfDecodeArray fuel data nSize nArrayLen bDecodeName)
      (amfDecodeArray fuel' data' nSize nArrayLen bDecodeName)

variable {n fuel fuel' : Nat} {nSize : Int} {data data' : List UInt8}

/-- A string, whose length has `k` bytes. -/
theorem alike_string {k : Nat} (hk : k ≤ 4) (hs : SameBytes nSize data data')
    (make : List UInt8 → AmfValue) (decode : List UInt8 → Call (List UInt8))
    (hdecode : ∀ data, decode data = amfDecodeInt k data >>= fun len => fetch len (data.drop k)) :
    ReadAlike nSize
      (amfDecodeInt k data >>= fun len =>
        if nSize < len + k then pure none
        else decode data >>= fun s => pure (some (k + len, make s)))
      (amfDecodeInt k data' >>= fun len =>
        if nSize < len + k then pure none
        else decode data' >>= fun s => pure (some (k + len, make s))) := by
  by_cases hin : (k : Int) ≤ nSize
  · obtain ⟨len, hlen, hlen'⟩ := hs.amfDecodeInt hin
    rw [hdecode, hdecode, hlen, hlen']
    simp only [Call.ret_bind]
    split
    · exact alike_ret none
    · rename_i hsize
      obtain ⟨bs, hbs, hbs'⟩ := (hs.drop hin).fetch (k := len) (by omega)
      rw [hbs, hbs']
      exact alike_ret _
  · obtain ⟨⟨len, hlen⟩, len', hlen'⟩ := hs.amfDecodeInt_ret hk
    rw [hlen, hlen']
    simp only [Call.ret_bind]
    rw [if_pos (by omega), if_pos (by omega)]
    exact alike_ret none

/-- A value that has `k` bytes of its own. -/
theorem alike_fixed {α : Type} {k : Nat} {decode : List UInt8 → Call α}
    (hdecode : (k : Int) ≤ nSize → ∃ v, decode data = .ret v ∧ decode data' = .ret v)
    (f : α → Option (Nat × AmfValue)) :
    ReadAlike nSize (if nSize < k then pure none else decode data >>= fun v => pure (f v))
      (if nSize < k then pure none else decode data' >>= fun v => pure (f v)) := by
  split
  · exact alike_ret none
  · rename_i hsize
    obtain ⟨v, hv, hv'⟩ := hdecode (by omega)
    rw [hv, hv']
    exact alike_ret _

theorem SameBytes.amfDecodeNumber (hs : SameBytes nSize data data') (h : 8 ≤ nSize) :
    ∃ v, MetaRtc.amfDecodeNumber data = .ret v ∧ MetaRtc.amfDecodeNumber data' = .ret v := by
  obtain ⟨bs, hbs, hbs'⟩ := hs.fetch (k := 8) h
  exact ⟨_, by rw [MetaRtc.amfDecodeNumber, hbs]; rfl, by rw [MetaRtc.amfDecodeNumber, hbs']; rfl⟩

theorem SameBytes.amfDecodeBoolean (hs : SameBytes nSize data data') (h : 1 ≤ nSize) :
    ∃ v, MetaRtc.amfDecodeBoolean data = .ret v ∧ MetaRtc.amfDecodeBoolean data' = .ret v := by
  obtain ⟨bs, hbs, hbs'⟩ := hs.fetch (k := 1) h
  exact ⟨_, by rw [MetaRtc.amfDecodeBoolean, hbs]; rfl,
    by rw [MetaRtc.amfDecodeBoolean, hbs']; rfl⟩

theorem alike_date (hs : SameBytes nSize data data') :
    ReadAlike nSize
      (if nSize < 10 then pure none else do
        return some (10, AmfValue.date (← amfDecodeNumber data) (← amfDecodeInt16 (data.drop 8))))
      (if nSize < 10 then pure none else do
        return some (10, AmfValue.date (← amfDecodeNumber data')
          (← amfDecodeInt16 (data'.drop 8)))) := by
  split
  · exact alike_ret none
  · rename_i hsize
    obtain ⟨v, hv, hv'⟩ := hs.amfDecodeNumber (by omega)
    obtain ⟨k, hk, hk'⟩ := (hs.drop (k := 8) (by omega)).amfDecodeInt (k := 2) (by omega)
    rw [hv, hv', amfDecodeInt16, amfDecodeInt16, hk, hk']
    exact alike_ret _

theorem amfDecode_empty (hfuel : 0 < fuel) (hsize : nSize ≤ 0) (bDecodeName : Bool) :
    amfDecode fuel data nSize bDecodeName = .ret (some (0, .nil)) := by
  obtain ⟨fuel, rfl⟩ : ∃ k, fuel = k + 1 := ⟨fuel - 1, by omega⟩
  rw [amfDecode, if_pos hsize]
  rfl

/-- An object that is at the end of its value. -/
theorem alike_object (hdec : DecodeAgrees n) {inner : Int} (hn : inner.toNat ≤ n)
    (hfuel : 3 * inner.toNat + 2 ≤ fuel) (hfuel' : 3 * inner.toNat + 2 ≤ fuel')
    (hs : 0 ≤ inner → SameBytes inner data data')
    {f : Option (Nat × AmfObject) → Call (Option (Nat × AmfValue))}
    (hf : ∀ r, ReadAlike nSize (f r) (f r)) :
    ReadAlike nSize (amfDecode fuel data inner true >>= f)
      (amfDecode fuel' data' inner true >>= f) := by
  by_cases hk : 0 ≤ inner
  · obtain ⟨heq, hne⟩ := hdec inner fuel fuel' _ _ true hn hfuel hfuel' (hs hk)
    rw [← heq]
    cases hx : amfDecode fuel data inner true with
    | ret r => exact hf r
    | blocked => exact alike_blocked
    | crash => exact absurd hx hne
  · rw [amfDecode_empty (by omega) (by omega), amfDecode_empty (by omega) (by omega)]
    exact hf _

theorem amfDecodeArray_empty (hfuel : 0 < fuel) (hsize : nSize ≤ 0) (nArrayLen : Nat)
    (bDecodeName : Bool) :
    amfDecodeArray fuel data nSize nArrayLen bDecodeName =
      .ret (if nArrayLen = 0 then some (0, .nil) else none) := by
  obtain ⟨fuel, rfl⟩ : ∃ k, fuel = k + 1 := ⟨fuel - 1, by omega⟩
  cases nArrayLen with
  | zero => rfl
  | succ k =>
    rw [amfDecodeArray, if_pos hsize]
    rfl

/-- Where the length of the array is behind the end, so is the end of the array. -/
theorem alike_array (harr : ArrayAgrees n) (hn : nSize.toNat ≤ n) (hsize : 0 ≤ nSize)
    (hfuel : 3 * nSize.toNat + 2 ≤ fuel) (hfuel' : 3 * nSize.toNat + 2 ≤ fuel')
    (hs : SameBytes nSize data data') (count : Nat → Nat) :
    ReadAlike nSize
      (amfDecodeInt32 data >>= fun len =>
        amfDecodeArray fuel (data.drop 4) (nSize - 4) (count len) false >>= fun r => match r with
          | none => pure none
          | some (nRes, obj) => pure (some (4 + nRes, AmfValue.strictArray obj)))
      (amfDecodeInt32 data' >>= fun len =>
        amfDecodeArray fuel' (data'.drop 4) (nSize - 4) (count len) false >>= fun r => match r with
          | none => pure none
          | some (nRes, obj) => pure (some (4 + nRes, AmfValue.strictArray obj))) := by
  by_cases hin : 4 ≤ nSize
  · obtain ⟨len, hlen, hlen'⟩ := hs.amfDecodeInt (k := 4) hin
    rw [amfDecodeInt32, amfDecodeInt32, hlen, hlen']
    exact (harr (nSize - 4) fuel fuel' _ _ (count len) false (by omega) (by omega) (by omega)
      (hs.drop (k := 4) hin)).shift (k := 4) (g := AmfValue.strictArray) fun r => by
        cases r <;> rfl
  · obtain ⟨⟨len, hlen⟩, len', hlen'⟩ := hs.amfDecodeInt_ret (k := 4) le_rfl
    rw [amfDecodeInt32, amfDecodeInt32, hlen, hlen']
    simp only [Call.ret_bind]
    rw [amfDecodeArray_empty (by omega) (by omega), amfDecodeArray_empty (by omega) (by omega)]
    have hover : ∀ len, Over (nSize - (4 : Nat))
        (if len = 0 then some (0, AmfObject.nil) else none) := by
      intro len
      split
      · simp only [Over]
        omega
      · trivial
    exact (alike_over (hover _) (hover _)).shift (k := 4) (g := AmfValue.strictArray) fun r => by
      cases r <;> rfl

theorem amfValueDecode_agrees (hdec : DecodeAgrees n) (harr : ArrayAgrees n)
    (hn : nSize.toNat ≤ n) (hsize : 0 ≤ nSize) (hfuel : 3 * nSize.toNat + 3 ≤ fuel)
    (hfuel' : 3 * nSize.toNat + 3 ≤ fuel') (hs : SameBytes nSize data data') (type : Nat) :
    ReadAlike nSize (amfValueDecode fuel type data nSize)
      (amfValueDecode fuel' type data' nSize) := by
  obtain ⟨fuel, rfl⟩ : ∃ k, fuel = k + 1 := ⟨fuel - 1, by omega⟩
  obtain ⟨fuel', rfl⟩ : ∃ k, fuel' = k + 1 := ⟨fuel' - 1, by omega⟩
  rw [amfValueDecode.eq_def, amfValueDecode.eq_def (fuel' + 1)]
  dsimp only
  split
  · exact alike_fixed (k := 8) (fun h => hs.amfDecodeNumber h) fun v => some (8, .number v)
  · exact alike_fixed (k := 1) (fun h => hs.amfDecodeBoolean h) fun v => some (1, .boolean v)
  · exact alike_string (by omega) hs .string amfDecodeString fun _ => rfl
  · exact alike_object hdec hn (by omega) (by omega) (fun _ => hs) fun r => by
      cases r <;> exact alike_ret _
  · exact alike_ret _
  · exact alike_ret _
  · exact alike_ret _
  · exact alike_object hdec (by omega) (by omega) (by omega)
      (fun h => hs.drop (k := 4) (by omega)) fun r => by cases r <;> exact alike_ret _
  · exact alike_array harr hn hsize (by omega) (by omega) hs
      fun len => if len < 2 ^ 31 then len else 0
  · exact alike_date hs
  · exact alike_string (by omega) hs .string amfDecodeLongString fun _ => rfl
  · exact alike_string (by omega) hs .xmlDoc amfDecodeLongString fun _ => rfl
  · exact alike_blocked
  · exact alike_ret _

theorem amfDecodeName_agrees (hs : SameBytes nSize data data') (bDecodeName : Bool) :
    ∃ r, amfDecodeName data nSize bDecodeName = .ret r ∧
      amfDecodeName data' nSize bDecodeName = .ret r ∧
      ∀ pName used, r = some (pName, used) → 0 < nSize → (used : Int) ≤ nSize := by
  rw [amfDecodeName, amfDecodeName]
  cases bDecodeName with
  | false =>
    refine ⟨_, rfl, rfl, ?_⟩
    rintro _ _ ⟨rfl, rfl⟩ hpos
    exact hpos.le
  | true =>
    simp only [if_true]
    split
    · exact ⟨none, rfl, rfl, by simp⟩
    · rename_i hfour
      obtain ⟨len, hlen, hlen'⟩ := hs.amfDecodeInt (k := 2) (by omega)
      rw [amfDecodeInt16, amfDecodeInt16, hlen, hlen']
      simp only [Call.ret_bind]
      split
      · exact ⟨none, rfl, rfl, by simp⟩
      · rename_i hname
        obtain ⟨bs, hbs, hbs'⟩ := (hs.drop (k := 2) (by omega)).fetch (k := len) (by omega)
        refine ⟨some (bs, 2 + len), ?_, ?_, ?_⟩
        · simp only [amfDecodeString, amfDecodeInt16, hlen, Call.ret_bind, hbs, Call.pure_eq]
        · simp only [amfDecodeString, amfDecodeInt16, hlen', Call.ret_bind, hbs', Call.pure_eq]
        · rintro _ _ ⟨rfl, rfl⟩ _
          omega

/-- A property takes its type at least. -/
def Positive {β : Type} (r : Option (Nat × β)) : Prop := ∀ p ∈ r, 0 < p.1

theorem amfPropDecode_positive (fuel : Nat) (data : List UInt8) (nSize : Int) (bDecodeName : Bool)
    {r : Option (Nat × List UInt8 × AmfValue)}
    (h : amfPropDecode fuel data nSize bDecodeName = .ret r) : Positive r := by
  cases fuel with
  | zero => cases h
  | succ fuel =>
    rw [amfPropDecode] at h
    split at h
    · cases h
      simp [Positive]
    · obtain ⟨name, -, h⟩ := Call.bind_eq_ret.mp h
      split at h
      · cases h
        simp [Positive]
      · dsimp only at h
        split at h
        · cases h
          simp [Positive]
        · obtain ⟨type, -, h⟩ := Call.bind_eq_ret.mp h
          obtain ⟨value, -, h⟩ := Call.bind_eq_ret.mp h
          split at h
          · cases h
            simp [Positive]
          · cases h
            simp [Positive]

theorem amfPropDecode_agrees (hdec : ∀ m < n, DecodeAgrees m) (harr : ∀ m < n, ArrayAgrees m)
    (hn : nSize.toNat ≤ n) (hsize : 0 < nSize) (hfuel : 3 * nSize.toNat + 1 ≤ fuel)
    (hfuel' : 3 * nSize.toNat + 1 ≤ fuel') (hs : SameBytes nSize data data')
    (bDecodeName : Bool) :
    ReadAlike nSize (amfPropDecode fuel data nSize bDecodeName)
      (amfPropDecode fuel' data' nSize bDecodeName) := by
  obtain ⟨fuel, rfl⟩ : ∃ k, fuel = k + 1 := ⟨fuel - 1, by omega⟩
  obtain ⟨fuel', rfl⟩ : ∃ k, fuel' = k + 1 := ⟨fuel' - 1, by omega⟩
  obtain ⟨r, hr, hr', hused⟩ := amfDecodeName_agrees hs bDecodeName
  rw [amfPropDecode, amfPropDecode, if_neg (by omega), if_neg (by omega), hr, hr']
  simp only [Call.ret_bind]
  split
  · exact alike_ret none
  · rename_i pName used
    have hle := hused pName used rfl hsize
    split
    · exact alike_ret none
    · rename_i hzero
      have hs' := hs.drop hle
      obtain ⟨type, htype, htype'⟩ := hs'.fetch (k := 1) (by omega)
      rw [htype, htype']
      have hvalue : ReadAlike (nSize - used - 1)
          (amfValueDecode fuel (beNat type) ((data.drop used).drop 1) (nSize - used - 1))
          (amfValueDecode fuel' (beNat type) ((data'.drop used).drop 1) (nSize - used - 1)) :=
        amfValueDecode_agrees (hdec (n - 1) (by omega)) (harr (n - 1) (by omega)) (by omega)
          (by omega) (by omega) (by omega) (hs'.drop (k := 1) (by omega)) (beNat type)
      rw [sub_sub] at hvalue ⊢
      exact hvalue.shift (k := used + 1) (g := fun value => (pName, value)) fun r => by
        cases r <;> rfl

theorem amfEnded_agrees (hs : SameBytes nSize data data') :
    ∃ b, amfEnded data nSize = .ret b ∧ amfEnded data' nSize = .ret b := by
  rw [amfEnded, amfEnded]
  split
  · rename_i hthree
    obtain ⟨v, hv, hv'⟩ := hs.amfDecodeInt (k := 3) hthree
    exact ⟨_, by rw [amfDecodeInt24, hv]; rfl, by rw [amfDecodeInt24, hv']; rfl⟩
  · exact ⟨false, rfl, rfl⟩

theorem Over.lt {β : Type} {nRes : Nat} {r : β} (h : Over nSize (some (nRes, r))) :
    nSize - nRes < 0 := by
  simp only [Over] at h
  omega

/-- A property that passes the end is an error of its object. -/
theorem amfDecode_over {bDecodeName : Bool} {r : Option (Nat × List UInt8 × AmfValue)}
    (hsize : 0 < nSize) (hended : amfEnded data nSize = .ret false)
    (hprop : amfPropDecode fuel data nSize bDecodeName = .ret r) (hover : Over nSize r) :
    amfDecode (fuel + 1) data nSize bDecodeName = .ret none := by
  rw [amfDecode, if_neg (by omega), hended, Call.ret_bind, if_neg (by simp), hprop]
  cases r with
  | none => rfl
  | some p => exact if_pos hover.lt

/-- An array may end with one. -/
theorem amfDecodeArray_over {bDecodeName : Bool} {r : Option (Nat × List UInt8 × AmfValue)}
    (hsize : 0 < nSize) (hfuel : 0 < fuel)
    (hprop : amfPropDecode fuel data nSize bDecodeName = .ret r) (hover : Over nSize r)
    (nArrayLen : Nat) :
    ∃ a, amfDecodeArray (fuel + 1) data nSize (nArrayLen + 1) bDecodeName = .ret a ∧
      Over nSize a := by
  rw [amfDecodeArray, if_neg (by omega), hprop]
  cases r with
  | none => exact ⟨none, rfl, trivial⟩
  | some p =>
    obtain ⟨nRes, pName, value⟩ := p
    have hlt := hover.lt
    simp only [Call.ret_bind, amfDecodeArray_empty hfuel hlt.le]
    cases nArrayLen with
    | zero => exact ⟨_, rfl, by simp only [Over]; omega⟩
    | succ k => exact ⟨none, rfl, trivial⟩

theorem decodeAgrees_step (hdec : ∀ m < n, DecodeAgrees m) (harr : ∀ m < n, ArrayAgrees m) :
    DecodeAgrees n := by
  intro nSize fuel fuel' data data' bDecodeName hn hfuel hfuel' hs
  by_cases hsize : nSize ≤ 0
  · rw [amfDecode_empty (by omega) hsize, amfDecode_empty (by omega) hsize]
    simp
  · obtain ⟨fuel, rfl⟩ : ∃ k, fuel = k + 1 := ⟨fuel - 1, by omega⟩
    obtain ⟨fuel', rfl⟩ : ∃ k, fuel' = k + 1 := ⟨fuel' - 1, by omega⟩
    obtain ⟨ended, hended, hended'⟩ := amfEnded_agrees hs
    have hprop : ReadAlike nSize (amfPropDecode fuel data nSize bDecodeName)
        (amfPropDecode fuel' data' nSize bDecodeName) :=
      amfPropDecode_agrees hdec harr hn (by omega) (by omega) (by omega) hs bDecodeName
    cases ended with
    | true =>
      rw [amfDecode, amfDecode, if_neg hsize, if_neg hsize, hended, hended']
      simp
    | false =>
      obtain ⟨heq, hne⟩ | ⟨a, b, ha, hb, haover, hbover⟩ := hprop
      · rw [amfDecode, amfDecode, if_neg hsize, if_neg hsize, hended, hended', ← heq]
        simp only [Call.ret_bind, Bool.false_eq_true, if_false]
        cases hx : amfPropDecode fuel data nSize bDecodeName with
        | blocked => simp
        | crash => exact absurd hx hne
        | ret r =>
          have hpos := amfPropDecode_positive fuel data nSize bDecodeName hx
          cases r with
          | none => simp
          | some p =>
            obtain ⟨nRes, pName, value⟩ := p
            have hpos' : 0 < nRes := hpos _ rfl
            simp only [Call.ret_bind]
            split
            · simp
            · obtain ⟨hrest, hnot⟩ := hdec (n - 1) (by omega) (nSize - nRes) fuel fuel' _ _
                bDecodeName (by omega) (by omega) (by omega) (hs.drop (k := nRes) (by omega))
              rw [← hrest]
              refine ⟨rfl, Call.bind_ne_crash hnot fun r _ => ?_⟩
              cases r <;> simp
      · rw [amfDecode_over (by omega) hended ha haover, amfDecode_over (by omega) hended' hb hbover]
        simp

theorem arrayAgrees_step (hdec : ∀ m < n, DecodeAgrees m) (harr : ∀ m < n, ArrayAgrees m) :
    ArrayAgrees n := by
  intro nSize fuel fuel' data data' nArrayLen bDecodeName hn hfuel hfuel' hs
  by_cases hsize : nSize ≤ 0
  · rw [amfDecodeArray_empty (by omega) hsize, amfDecodeArray_empty (by omega) hsize]
    exact alike_ret _
  · obtain ⟨fuel, rfl⟩ : ∃ k, fuel = k + 1 := ⟨fuel - 1, by omega⟩
    obtain ⟨fuel', rfl⟩ : ∃ k, fuel' = k + 1 := ⟨fuel' - 1, by omega⟩
    cases nArrayLen with
    | zero => exact alike_ret _
    | succ nArrayLen =>
      have hprop : ReadAlike nSize (amfPropDecode fuel data nSize bDecodeName)
          (amfPropDecode fuel' data' nSize bDecodeName) :=
        amfPropDecode_agrees hdec harr hn (by omega) (by omega) (by omega) hs bDecodeName
      obtain ⟨heq, hne⟩ | ⟨a, b, ha, hb, haover, hbover⟩ := hprop
      · rw [amfDecodeArray, amfDecodeArray, if_neg hsize, if_neg hsize, ← heq]
        cases hx : amfPropDecode fuel data nSize bDecodeName with
        | blocked => exact alike_blocked
        | crash => exact absurd hx hne
        | ret r =>
          have hpos := amfPropDecode_positive fuel data nSize bDecodeName hx
          cases r with
          | none => exact alike_ret none
          | some p =>
            obtain ⟨nRes, pName, value⟩ := p
            have hpos' : 0 < nRes := hpos _ rfl
            simp only [Call.ret_bind]
            by_cases hin : (nRes : Int) ≤ nSize
            · exact (harr (n - 1) (by omega) (nSize - nRes) fuel fuel' _ _ nArrayLen bDecodeName
                (by omega) (by omega) (by omega) (hs.drop hin)).shift
                (g := AmfObject.cons pName value) fun r => by cases r <;> rfl
            · rw [amfDecodeArray_empty (by omega) (by omega),
                amfDecodeArray_empty (by omega) (by omega)]
              cases nArrayLen <;> exact alike_ret _
      · obtain ⟨a', haeq, ha'⟩ :=
          amfDecodeArray_over (by omega) (by omega) ha haover nArrayLen
        obtain ⟨b', hbeq, hb'⟩ :=
          amfDecodeArray_over (by omega) (by omega) hb hbover nArrayLen
        rw [haeq, hbeq]
        exact alike_over ha' hb'

theorem decode_array_agrees (n : Nat) : DecodeAgrees n ∧ ArrayAgrees n := by
  induction n using Nat.strong_induction_on with
  | _ n ih =>
    have hdec : ∀ m < n, DecodeAgrees m := fun m hm => (ih m hm).1
    have harr : ∀ m < n, ArrayAgrees m := fun m hm => (ih m hm).2
    exact ⟨decodeAgrees_step hdec harr, arrayAgrees_step hdec harr⟩

end Values

end MetaRtc
