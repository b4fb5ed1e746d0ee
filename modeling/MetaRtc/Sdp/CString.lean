import MetaRtc.Lib.Exec
import MetaRtc.Lib.Tokens
import Mathlib.Tactic.Ring

/-! # The strings of the session descriptions

A C string is its bytes up to the NUL. -/
namespace MetaRtc

open Exec Tokens

abbrev CStr := List UInt8

/-- A literal of the source. -/
def lit (s : String) : CStr := s.toList.map Char.toUInt8

def LF : UInt8 := 10
def CR : UInt8 := 13
def space : UInt8 := 32
def colon : UInt8 := 58
def slash : UInt8 := 47

def kCRLF : CStr := [CR, LF]

/-- The tokens a split leaves; a text of separators alone leaves none. -/
def cstrSplit (src : CStr) (delim : UInt8) : List CStr := tokens delim src

/-- Copy a string to an array of `size` bytes, which has to hold its NUL as well. -/
def strcpy (size : Nat) (src : CStr) : Call CStr :=
  if src.length < size then .ret src else .crash

theorem strcpy_eq_ret {size : Nat} {src s : CStr} :
    strcpy size src = .ret s ↔ src.length < size ∧ src = s := by
  unfold strcpy
  split <;> simp [*]

/-- Copy bytes to an array of `size` zero bytes. One filled to its end holds no string. -/
def memcpyTo (size : Nat) (src : CStr) : Call CStr :=
  if src.length ≤ size then .ret src else .crash

theorem memcpyTo_eq_ret {size : Nat} {src s : CStr} :
    memcpyTo size src = .ret s ↔ src.length ≤ size ∧ src = s := by
  unfold memcpyTo
  split <;> simp [*]

theorem strcpy_returns {size : Nat} {src : CStr} {α : Type} {f : CStr → Call α} :
    (∃ a, (strcpy size src >>= f) = .ret a) ↔ src.length < size ∧ ∃ a, f src = .ret a :=
  guarded_returns (fun h => if_pos h) fun h => if_neg h

theorem memcpyTo_returns {size : Nat} {src : CStr} {α : Type} {f : CStr → Call α} :
    (∃ a, (memcpyTo size src >>= f) = .ret a) ↔ src.length ≤ size ∧ ∃ a, f src = .ret a :=
  guarded_returns (fun h => if_pos h) fun h => if_neg h

/-- Read to the NUL of an array of `size` bytes, the first of which are `bs`. -/
def readTo (size : Nat) (bs : CStr) : Call CStr := strcpy size bs

def isspace (b : UInt8) : Bool := b == 32 || (9 ≤ b && b ≤ 13)
def isdigit (b : UInt8) : Bool := 48 ≤ b && b ≤ 57

def digitsOf (s : CStr) : CStr :=
  match s.dropWhile isspace with
  | [] => []
  | b :: rest => if b = 43 ∨ b = 45 then rest else b :: rest

def isNegative (s : CStr) : Bool := (s.dropWhile isspace).head? == some 45

/-- The value of the leading decimal number, zero without one, at most what the type holds. -/
def atol (s : CStr) : Int64 :=
  let n : Nat := ((digitsOf s).takeWhile isdigit).foldl (fun n b => n * 10 + (b.toNat - 48)) 0
  let v : Int := if isNegative s then -n else n
  .ofInt (max (-2 ^ 63) (min (2 ^ 63 - 1) v))

def atoi (s : CStr) : Int32 := (atol s).toInt32

/-- The number in an array of 32 bytes, which may be full where the number ends in it. -/
def atoiIn (intstr : CStr) : Call Int32 :=
  if intstr.length < 32 ∨ (digitsOf intstr).dropWhile isdigit ≠ [] then .ret (atoi intstr)
  else .crash

/-- The number before a separator, copied to such an array first. -/
def intstrValue (s : CStr) : Call Int32 := do
  atoiIn (← memcpyTo 32 s)

/-- The digits fit in the array and end before or with a NUL in it. -/
def NumberFits (s : CStr) : Prop :=
  s.length ≤ 32 ∧ (s.length < 32 ∨ (digitsOf s).dropWhile isdigit ≠ [])

theorem intstrValue_returns {s : CStr} {α : Type} {f : Int32 → Call α} :
    (∃ a, (intstrValue s >>= f) = .ret a) ↔ NumberFits s ∧ ∃ a, f (atoi s) = .ret a := by
  unfold intstrValue NumberFits
  rw [Call.bind_assoc, memcpyTo_returns, and_assoc]
  exact and_congr_right fun _ => guarded_returns (fun h => if_pos h) fun h => if_neg h

theorem takeWhile_digit_cr (s : CStr) : (s ++ [CR]).takeWhile isdigit = s.takeWhile isdigit := by
  have hcr : [CR].takeWhile isdigit = [] := by decide
  rw [List.takeWhile_append, hcr, List.append_nil]
  split
  · rename_i hall
    exact ((List.takeWhile_prefix isdigit).eq_of_length hall).symm
  · rfl

/-- A carriage return behind a number is space to the conversion. -/
theorem atoi_cr (s : CStr) : atoi (s ++ [CR]) = atoi s := by
  have hcr : [CR].dropWhile isspace = [] := by decide
  have hdrop := @List.dropWhile_append _ isspace s [CR]
  have hdigits : (digitsOf (s ++ [CR])).takeWhile isdigit = (digitsOf s).takeWhile isdigit := by
    unfold digitsOf
    rw [hdrop]
    cases hs : s.dropWhile isspace with
    | nil => simp only [List.isEmpty_nil, if_true, hcr]
    | cons b rest =>
      simp only [List.isEmpty_cons, Bool.false_eq_true, if_false, List.cons_append]
      split
      · exact takeWhile_digit_cr rest
      · exact takeWhile_digit_cr (b :: rest)
  have hsign : isNegative (s ++ [CR]) = isNegative s := by
    unfold isNegative
    rw [hdrop]
    cases hs : s.dropWhile isspace with
    | nil => simp only [List.isEmpty_nil, if_true, hcr]
    | cons b rest => rfl
  simp only [atoi, atol, hdigits, hsign]

def decimal (n : Nat) : CStr := (Nat.toDigits 10 n).map Char.toUInt8

theorem digit_toUInt8 {c : Char} (h : c.isDigit = true) :
    c.toUInt8.toNat = c.toNat ∧ isdigit c.toUInt8 = true := by
  have hrange := Char.isDigit_iff_toNat.mp h
  simp only [Char.reduceToNat] at hrange
  have hbyte : c.toUInt8.toNat = c.toNat := by
    rw [Char.toUInt8, UInt32.toNat_toUInt8]
    exact Nat.mod_eq_of_lt (Nat.lt_of_le_of_lt hrange.2 (by decide))
  refine ⟨hbyte, ?_⟩
  simp only [isdigit, Bool.and_eq_true, decide_eq_true_eq, UInt8.le_iff_toNat_le, hbyte]
  exact hrange

theorem decimal_digits (n : Nat) : ∀ b ∈ decimal n, isdigit b = true := by
  intro b hb
  obtain ⟨c, hc, rfl⟩ := List.mem_map.mp hb
  exact (digit_toUInt8 (Nat.isDigit_of_mem_toDigits (by decide) (by decide) hc)).2

/-- The digits of a number are read as that number. -/
theorem decimal_value (n : Nat) :
    (decimal n).foldl (fun n b => n * 10 + (b.toNat - 48)) 0 = n := by
  have hread : ∀ (cs : List Char) (k : Nat), (∀ c ∈ cs, c.isDigit = true) →
      (cs.map Char.toUInt8).foldl (fun n b => n * 10 + (b.toNat - 48)) k =
        Nat.ofDigitChars 10 cs k := by
    intro cs k hcs
    induction cs generalizing k with
    | nil => rw [Nat.ofDigitChars_nil]; rfl
    | cons c cs ih =>
      obtain ⟨hc, hcs⟩ := List.forall_mem_cons.mp hcs
      rw [List.map_cons, List.foldl_cons, ih _ hcs, Nat.ofDigitChars_cons, (digit_toUInt8 hc).1,
        Nat.mul_comm k 10]
      rfl
  rw [decimal, hread _ _ fun c hc => Nat.isDigit_of_mem_toDigits (by decide) (by decide) hc]
  exact Nat.ofDigitChars_ten_toDigits

theorem decimal_head (n : Nat) : ∃ b bs, decimal n = b :: bs ∧ isdigit b = true := by
  cases h : decimal n with
  | nil => exact absurd (List.map_eq_nil_iff.mp h) Nat.toDigits_ne_nil
  | cons b bs => exact ⟨b, bs, rfl, decimal_digits n b (h ▸ List.mem_cons_self)⟩

theorem takeWhile_decimal {rest : CStr} (hrest : ∀ b ∈ rest.head?, isdigit b = false) (n : Nat) :
    (decimal n ++ rest).takeWhile isdigit = decimal n := by
  have hend : rest.takeWhile isdigit = [] := by
    cases rest with
    | nil => rfl
    | cons b rest => exact List.takeWhile_cons_of_neg (by simp [hrest b rfl])
  rw [List.takeWhile_append_of_pos (decimal_digits n), hend, List.append_nil]

/-- A number is read behind spaces, up to whatever is no digit. -/
theorem atoi_decimal {sp rest : CStr} (hsp : ∀ b ∈ sp, isspace b = true)
    (hrest : ∀ b ∈ rest.head?, isdigit b = false) {n : Nat} (hn : n < 2 ^ 31) :
    atoi (sp ++ (decimal n ++ rest)) = .ofNat n := by
  obtain ⟨b, bs, hb, hdigit⟩ := decimal_head n
  have hplain : ¬isspace b = true ∧ ¬(b = 43 ∨ b = 45) := by
    simp only [isdigit, isspace, Bool.and_eq_true, Bool.or_eq_true, decide_eq_true_eq,
      beq_iff_eq, UInt8.le_iff_toNat_le, ← UInt8.toNat_inj, UInt8.reduceToNat] at hdigit ⊢
    omega
  have hdrop : (sp ++ (decimal n ++ rest)).dropWhile isspace = decimal n ++ rest := by
    rw [List.dropWhile_append_of_pos hsp, hb]
    exact List.dropWhile_cons_of_neg hplain.1
  have hdigits : digitsOf (sp ++ (decimal n ++ rest)) = decimal n ++ rest := by
    unfold digitsOf
    rw [hdrop, hb]
    exact if_neg hplain.2
  have hsign : isNegative (sp ++ (decimal n ++ rest)) = false := by
    unfold isNegative
    rw [hdrop, hb]
    simpa using fun h => hplain.2 (.inr h)
  unfold atoi atol
  rw [hdigits, hsign, takeWhile_decimal hrest, decimal_value]
  have hclamp : max (-2 ^ 63) (min (2 ^ 63 - 1) (n : Int)) = n := by omega
  simp only [Bool.false_eq_true, if_false, hclamp, Int64.ofInt_eq_ofNat]
  exact Int64.toInt32_ofNat'

/-- `%d` and `PRId64`. -/
def printInt (v : Int) : CStr := if v < 0 then 45 :: decimal v.natAbs else decimal v.natAbs

def itoa (num : Int32) : CStr := printInt num.toInt

end MetaRtc
