import Mathlib.Data.List.Basic
import Mathlib.Data.Nat.Bits
import Mathlib.Tactic.Common
import Mathlib.Tactic.Ring

/-! # Bytes in memory and in network order -/
namespace Bytes

/-- The bytes from some address on. Nothing says where an object ends: that is
for the code that reads it. -/
abbrev Mem := Nat → UInt8

/-- The `n` bytes at `p` read as a big-endian number. -/
def Mem.be (m : Mem) (p : Nat) : Nat → Nat
  | 0 => 0
  | n + 1 => m.be p n * 256 + (m (p + n)).toNat

def Mem.slice (m : Mem) (p : Nat) : Nat → List UInt8
  | 0 => []
  | n + 1 => m p :: m.slice (p + 1) n

/-- Copy bytes to an address, as `memcpy` does. -/
def Mem.write (m : Mem) (p : Nat) (bs : List UInt8) : Mem := fun i =>
  if p ≤ i then bs.getD (i - p) (m i) else m i

def ofList (bs : List UInt8) : Mem := fun i => bs.getD i 0

/-- A big-endian number of bytes. -/
def beNat : List UInt8 → Nat
  | [] => 0
  | b :: bs => b.toNat * 256 ^ bs.length + beNat bs

/-- The `n` low bytes of a number, the highest first. -/
def beBytes : Nat → Nat → List UInt8
  | 0, _ => []
  | n + 1, v => UInt8.ofNat (v / 256 ^ n) :: beBytes n v

attribute [local simp] Mem.be Mem.slice beNat beBytes

-- Without it all 256 bytes would be tried, and not those of the list.
instance decidableForallMem (bs : List UInt8) (P : UInt8 → Prop) [DecidablePred P] :
    Decidable (∀ b ∈ bs, P b) :=
  List.decidableBAll P bs

/-- What holds of the bytes below a bound, tried one by one, holds of every such byte. -/
theorem forall_byte {P : UInt8 → Prop} (k : Nat) (h : ∀ n < k, P (UInt8.ofNat n)) :
    ∀ b : UInt8, b.toNat < k → P b := by
  intro b hb
  have hn := h b.toNat hb
  rwa [UInt8.ofNat_toNat] at hn

theorem forall_bytes {P : UInt8 → Prop} (h : ∀ n < 256, P (UInt8.ofNat n)) (b : UInt8) : P b :=
  forall_byte 256 h b b.toNat_lt

@[simp] theorem beBytes_length (n v : Nat) : (beBytes n v).length = n := by
  induction n with
  | zero => rfl
  | succ n ih => simp [ih]

theorem beNat_beBytes (n v : Nat) : beNat (beBytes n v) = v % 256 ^ n := by
  induction n with
  | zero => simp [Nat.mod_one]
  | succ n ih =>
    have hb : (UInt8.ofNat (v / 256 ^ n)).toNat = v / 256 ^ n % 256 := by simp
    simp only [beBytes, beNat, beBytes_length, ih, hb]
    rw [Nat.pow_succ, Nat.mod_mul, Nat.mul_comm, Nat.add_comm]

theorem beNat_concat (bs : List UInt8) (b : UInt8) :
    beNat (bs ++ [b]) = beNat bs * 256 + b.toNat := by
  induction bs with
  | nil => simp
  | cons c cs ih =>
    simp only [List.cons_append, beNat, ih, List.length_append, List.length_singleton,
      Nat.pow_succ]
    ring

theorem beNat_lt (bs : List UInt8) : beNat bs < 256 ^ bs.length := by
  induction bs with
  | nil => decide
  | cons b bs ih =>
    have hb := Nat.mul_le_mul_right (256 ^ bs.length) (Nat.le_of_lt_succ b.toNat_lt)
    rw [beNat, List.length_cons, Nat.pow_succ]
    omega

/-- Whatever is above the bytes that are taken is lost. -/
theorem beBytes_high (n k v : Nat) : beBytes n (k * 256 ^ n + v) = beBytes n v := by
  induction n generalizing k with
  | zero => rfl
  | succ n ih =>
    have hsplit : k * 256 ^ (n + 1) + v = k * 256 * 256 ^ n + v := by
      rw [Nat.pow_succ]
      ring
    have hbyte : UInt8.ofNat (k * 256 + v / 256 ^ n) = UInt8.ofNat (v / 256 ^ n) := by
      rw [← UInt8.toNat_inj]
      simp
    rw [beBytes, beBytes, hsplit, ih, Nat.add_comm,
      Nat.add_mul_div_right _ _ (Nat.pow_pos (by decide)), Nat.add_comm, hbyte]

/-- Bytes are those of the number they make. -/
theorem beBytes_beNat (bs : List UInt8) : beBytes bs.length (beNat bs) = bs := by
  induction bs with
  | nil => rfl
  | cons b bs ih =>
    have hdiv : (b.toNat * 256 ^ bs.length + beNat bs) / 256 ^ bs.length = b.toNat := by
      rw [Nat.add_comm, Nat.add_mul_div_right _ _ (Nat.pow_pos (by decide)),
        Nat.div_eq_of_lt (beNat_lt bs), Nat.zero_add]
    rw [List.length_cons, beNat, beBytes, hdiv, beBytes_high, ih, UInt8.ofNat_toNat]

theorem Mem.be_lt (m : Mem) (p n : Nat) : m.be p n < 256 ^ n := by
  induction n with
  | zero => simp
  | succ n ih =>
    have hb := (m (p + n)).toNat_lt
    simp only [Mem.be, Nat.pow_succ]
    omega

@[simp] theorem Mem.slice_length (m : Mem) (p n : Nat) : (m.slice p n).length = n := by
  induction n generalizing p with
  | zero => rfl
  | succ n ih => simp [ih]

theorem Mem.slice_getElem? (m : Mem) (p n i : Nat) :
    (m.slice p n)[i]? = if i < n then some (m (p + i)) else none := by
  induction n generalizing p i with
  | zero => simp
  | succ n ih =>
    cases i with
    | zero => simp
    | succ i => simp [ih, Nat.add_right_comm p 1 i, Nat.add_assoc]

theorem Mem.slice_append (m : Mem) (p a b : Nat) :
    m.slice p (a + b) = m.slice p a ++ m.slice (p + a) b := by
  induction a generalizing p with
  | zero => simp
  | succ a ih =>
    rw [Nat.succ_add]
    simp only [Mem.slice, List.cons_append, ih]
    rw [show p + 1 + a = p + (a + 1) by omega]

theorem Mem.drop_slice (m : Mem) (p n k : Nat) : (m.slice p n).drop k = m.slice (p + k) (n - k) := by
  by_cases hk : k ≤ n
  · obtain ⟨j, rfl⟩ := Nat.exists_eq_add_of_le hk
    rw [Mem.slice_append, List.drop_left' (by simp), Nat.add_sub_cancel_left]
  · rw [List.drop_eq_nil_of_le (by simp; omega), Nat.sub_eq_zero_of_le (by omega)]
    rfl

/-- Bytes known as a sequence of two parts are known part by part. -/
theorem Mem.slice_parts {m : Mem} {p n : Nat} {xs ys : List UInt8} (h : m.slice p n = xs ++ ys) :
    m.slice p xs.length = xs ∧ m.slice (p + xs.length) ys.length = ys := by
  have hn : n = xs.length + ys.length := by
    rw [← m.slice_length p n, h, List.length_append]
  rw [hn, m.slice_append] at h
  exact List.append_inj h (m.slice_length _ _)

theorem Mem.slice_getD (m : Mem) (p : Nat) {n i : Nat} (h : i < n) (b : UInt8) :
    (m.slice p n).getD i b = m (p + i) := by
  rw [List.getD_eq_getElem?_getD, Mem.slice_getElem?, if_pos h, Option.getD_some]

theorem slice_ofList (bs : List UInt8) : (ofList bs).slice 0 bs.length = bs := by
  apply List.ext_getElem?
  intro i
  rw [Mem.slice_getElem?, Nat.zero_add]
  split
  · rename_i hi
    simp [ofList, hi]
  · rename_i hi
    rw [List.getElem?_eq_none (by omega)]

theorem Mem.slice_congr {m k : Mem} {p n : Nat} (h : ∀ i, p ≤ i → i < p + n → m i = k i) :
    m.slice p n = k.slice p n := by
  induction n generalizing p with
  | zero => rfl
  | succ n ih =>
    simp only [Mem.slice]
    rw [h p (by omega) (by omega), ih fun i hl hr => h i (by omega) (by omega)]

theorem Mem.be_eq_beNat (m : Mem) (p n : Nat) : m.be p n = beNat (m.slice p n) := by
  induction n with
  | zero => rfl
  | succ n ih =>
    have hlast : m.slice p (n + 1) = m.slice p n ++ [m (p + n)] := m.slice_append p n 1
    rw [hlast, beNat_concat, ← ih, Mem.be]

theorem Mem.be_of_slice {m : Mem} {p n v : Nat} (h : m.slice p n = beBytes n v) :
    m.be p n = v % 256 ^ n := by
  rw [Mem.be_eq_beNat, h, beNat_beBytes]

theorem Mem.be_one (m : Mem) (p : Nat) : m.be p 1 = (m p).toNat := by simp

theorem Mem.write_outside (m : Mem) (p : Nat) (bs : List UInt8) {i : Nat}
    (h : i < p ∨ p + bs.length ≤ i) : m.write p bs i = m i := by
  simp only [Mem.write]
  split
  · rw [List.getD_eq_getElem?_getD, List.getElem?_eq_none (by omega), Option.getD_none]
  · rfl

theorem Mem.slice_write_disjoint (m : Mem) (p : Nat) (bs : List UInt8) {q n : Nat}
    (h : q + n ≤ p ∨ p + bs.length ≤ q) : (m.write p bs).slice q n = m.slice q n :=
  Mem.slice_congr fun _ hl hr => m.write_outside p bs (by omega)

theorem Mem.slice_write (m : Mem) (p : Nat) (bs : List UInt8) :
    (m.write p bs).slice p bs.length = bs := by
  apply List.ext_getElem?
  intro i
  rw [Mem.slice_getElem?]
  split
  · rename_i hi
    simp [Mem.write, hi]
  · rename_i hi
    rw [List.getElem?_eq_none (by omega)]

@[simp] theorem Mem.write_nil (m : Mem) (p : Nat) : m.write p [] = m := by
  funext i
  simp [Mem.write]

theorem Mem.write_append (m : Mem) (p : Nat) (xs ys : List UInt8) :
    (m.write p xs).write (p + xs.length) ys = m.write p (xs ++ ys) := by
  funext i
  simp only [Mem.write, List.getD_eq_getElem?_getD]
  by_cases hi : p + xs.length ≤ i
  · have hout : xs[i - p]? = none := List.getElem?_eq_none (by omega)
    rw [if_pos hi, if_pos (by omega), hout, if_pos (by omega),
      List.getElem?_append_right (by omega), Nat.sub_sub, Option.getD_none]
  · rw [if_neg hi]
    split
    · rw [List.getElem?_append_left (by omega)]
    · rfl

/-- Numbers one after the other, each with its size. -/
def fieldBytes (fields : List (Nat × Nat)) : List UInt8 := fields.flatMap fun f => beBytes f.1 f.2

def Mem.Fields (m : Mem) : Nat → List (Nat × Nat) → Prop
  | _, [] => True
  | p, (n, v) :: fields => m.be p n = v % 256 ^ n ∧ m.Fields (p + n) fields

theorem Mem.fields_of_slice {m : Mem} {p n : Nat} {fields : List (Nat × Nat)} {rest : List UInt8}
    (h : m.slice p n = fieldBytes fields ++ rest) : m.Fields p fields := by
  induction fields generalizing p n with
  | nil => trivial
  | cons f fields ih =>
    rw [fieldBytes, List.flatMap_cons, List.append_assoc] at h
    obtain ⟨hone, hrest⟩ := Mem.slice_parts h
    rw [beBytes_length] at hone hrest
    exact ⟨Mem.be_of_slice hone, ih hrest⟩

end Bytes
