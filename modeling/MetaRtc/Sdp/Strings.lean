import MetaRtc.Lib.Area
import MetaRtc.Lib.Occurrences
import MetaRtc.Sdp.Candidates

/-! # The comparison and the replacement of strings

Both hold lengths as `int32_t`, and the comparison that of its first string only. -/
namespace MetaRtc

open Exec Bytes Occurrences

section Held

/-! What an `int32_t` holds of a length. -/

variable {n : Nat}

theorem held_eq (h : n < 2 ^ 31) : (Int32.ofNat n).toInt = n := by
  rw [Int32.toInt_ofNat', Int.bmod_def]
  simp only [Int32.size]
  omega

theorem held_le (h : 2 ^ 31 ≤ n) : (Int32.ofNat n).toInt ≤ n - 2 ^ 32 := by
  rw [Int32.toInt_ofNat', Int.bmod_def]
  simp only [Int32.size]
  omega

end Held

section Compare

/-- Tell a difference, which the NUL behind the second string makes too. -/
def strcmpOver : CStr → CStr → Int32
  | [], _ => 0
  | _ :: _, [] => 1
  | a :: str1, b :: str2 => if tolower a ≠ tolower b then 1 else strcmpOver str1 str2

/-- The characters of the first string that the loop comes to. -/
def compared (str1 : CStr) : CStr := str1.take (Int32.ofNat str1.length).toInt.toNat

def yangStrcmpLong (str1 str2 : CStr) : Int32 := strcmpOver (compared str1) str2

def SameLetters (a b : CStr) : Prop := a.map tolower = b.map tolower

instance (a b : CStr) : Decidable (SameLetters a b) := by
  unfold SameLetters
  infer_instance

/-- What is compared begins the other string, and yet they differ. -/
def MatchesShort (a b : CStr) : Prop :=
  (compared a).map tolower <+: b.map tolower ∧ ¬SameLetters a b

theorem strcmpOver_eq_zero {a b : CStr} :
    strcmpOver a b = 0 ↔ a.map tolower <+: b.map tolower := by
  induction a generalizing b with
  | nil => simp [strcmpOver]
  | cons x a ih =>
    cases b with
    | nil => simp [strcmpOver]
    | cons y b =>
      rw [strcmpOver, List.map_cons, List.map_cons, List.cons_prefix_cons]
      split
      · rename_i hxy
        simp [hxy]
      · rename_i hxy
        rw [ih, and_iff_right (not_not.mp hxy)]

theorem compared_start (a : CStr) : compared a <+: a := List.take_prefix _ _

theorem compared_eq {a : CStr} (h : a.length < 2 ^ 31) : compared a = a := by
  rw [compared, held_eq h]
  exact List.take_of_length_le (by simp)

/-- For strings as short as those of a description the two models are one. -/
theorem yangStrcmp_eq {a : CStr} (h : a.length < 2 ^ 31) (b : CStr) :
    yangStrcmp a b = true ↔ yangStrcmpLong a b = 0 := by
  rw [yangStrcmpLong, strcmpOver_eq_zero, compared_eq h, yangStrcmp, List.isPrefixOf_iff_prefix]

theorem strcmp_same {a b : CStr} (h : SameLetters a b) : yangStrcmpLong a b = 0 := by
  rw [yangStrcmpLong, strcmpOver_eq_zero, ← h]
  exact (compared_start a).map tolower

theorem strcmp_iff_unless_short (a b : CStr) :
    (yangStrcmpLong a b = 0 ↔ SameLetters a b) ↔ ¬MatchesShort a b := by
  rw [MatchesShort, ← strcmpOver_eq_zero]
  constructor
  · rintro hiff ⟨hzero, hdiffer⟩
    exact hdiffer (hiff.mp hzero)
  · intro hnot
    constructor
    · intro hzero
      by_contra hdiffer
      exact hnot ⟨hzero, hdiffer⟩
    · exact strcmp_same

/-- A payload named by one letter is taken for the codec that begins with it, and a section
without a type for one of audio. -/
theorem strcmp_first_letter :
    ¬(yangStrcmpLong (lit "o") (lit "opus") = 0 ↔ SameLetters (lit "o") (lit "opus")) ∧
    ¬(yangStrcmpLong [] (lit "audio") = 0 ↔ SameLetters [] (lit "audio")) ∧
    (remoteAudioPayload {} { payloadType := 111, encodingName := lit "o" }).encode = .opus := by
  refine ⟨?_, ?_, ?_⟩
  · decide +kernel
  · decide +kernel
  · decide +kernel

end Compare

section Replace

/-! The destination is an object of its own. -/

/-- `memcpy` behind what is written, which touches nothing when there are no bytes. -/
def memcpyAt (dst : Area) (dstlen : Int32) (bs : CStr) : Call Area :=
  if bs = [] then .ret dst
  else if dstlen < 0 then .crash
  else dst.write dstlen.toInt.toNat bs

def copyBehind (s : Area × Int32) (bs : CStr) : Call (Area × Int32) := do
  return (← memcpyAt s.1 s.2 bs, s.2 + .ofNat bs.length)

section Code

variable (str macth rep : CStr)

/-- As much of the replacement as its length that is held lets copy. -/
def heldRep : CStr := rep.take (Int32.ofNat rep.length).toInt.toNat

def origlen : Int := (Int32.ofNat macth.length).toInt

/-- The loop from an occurrence at `p1` on. Only where the length that is held of the word is
not positive may as many passes as there are characters be too few: it is found at the same place
again then, without end. -/
def replaceLoop : Nat → Nat → Area × Int32 → Call Area
  | 0, _, _ => .blocked
  | fuel + 1, p1, s =>
    let next := p1 + origlen macth
    if next < 0 then .crash
    else
      let rest := str.drop next.toNat
      match find macth rest with
      | some gap => do
        let s ← copyBehind s (rest.take gap)
        let s ← copyBehind s (heldRep rep)
        replaceLoop fuel (next.toNat + gap) s
      | none => memcpyAt s.1 s.2 rest

/-- A negative length is a size that no object has. -/
def copyFirst (dstlen : Int32) (dst : Area) : Call Area :=
  if dstlen < 0 then .crash else dst.write 0 (str.take dstlen.toInt.toNat)

def yangCstrReplace (dst : Area) : Call Area :=
  match find macth str with
  | none => dst.write 0 (str ++ [0])
  | some p => do
    let dst ← copyFirst str (.ofNat p) dst
    let s ← copyBehind (dst, .ofNat p) (heldRep rep)
    replaceLoop str macth rep (str.length + 1) p s

end Code

def copyAll (s : Area × Int32) (ps : List CStr) : Call Area := do
  return (← ps.foldlM copyBehind s).1

/-- Each piece with characters begins where an `int32_t` still counts. -/
def Placed : Nat → List CStr → Prop
  | _, [] => True
  | pos, p :: ps => (p ≠ [] → pos < 2 ^ 31) ∧ Placed (pos + p.length) ps

instance decidablePlaced : ∀ pos ps, Decidable (Placed pos ps)
  | _, [] => .isTrue trivial
  | pos, p :: ps =>
    @instDecidableAnd _ _ inferInstance (decidablePlaced (pos + p.length) ps)

def ZeroFrom (dst : Area) (n : Nat) : Prop := ∀ i, n ≤ i → i < dst.room → dst.data i = 0

variable {dst d : Area} {ps : List CStr} {p : CStr} {pos n : Nat} {s : Area × Int32}

theorem zeroFrom_mono (h : ZeroFrom dst n) {k : Nat} (hk : n ≤ k) : ZeroFrom dst k :=
  fun i hi hroom => h i (hk.trans hi) hroom

theorem copyAll_nil : copyAll s [] = .ret s.1 := rfl

theorem copyAll_cons : copyAll s (p :: ps) = copyBehind s p >>= fun s => copyAll s ps := by
  simp only [copyAll, List.foldlM_cons, Call.bind_assoc]

theorem copyAll_last (s : Area × Int32) (p : CStr) : copyAll s [p] = memcpyAt s.1 s.2 p := by
  rw [copyAll_cons, copyBehind, Call.bind_assoc]
  cases memcpyAt s.1 s.2 p <;> rfl

theorem copyBehind_nil (s : Area × Int32) : copyBehind s [] = .ret s := by
  simp [copyBehind, memcpyAt]

/-- A piece that counts, and one that does not. -/
theorem copyBehind_placed (hp : p ≠ []) (hat : pos < 2 ^ 31) (hroom : pos + p.length ≤ dst.room) :
    copyBehind (dst, .ofNat pos) p =
      .ret ({ dst with data := dst.data.write pos p }, .ofNat (pos + p.length)) := by
  have hheld := held_eq hat
  have hsign : ¬Int32.ofNat pos < 0 := by
    rw [Int32.lt_iff_toInt_lt, hheld]
    simp
  simp only [copyBehind, memcpyAt, if_neg hp, if_neg hsign, hheld, Int.toNat_natCast,
    Area.write_inside hroom, Call.ret_bind, Call.pure_eq, Int32.ofNat_add]

/-- Where a piece is written: never too far on, and far too early once the count has wrapped. -/
theorem copyBehind_ret {t : Area × Int32} (h : copyBehind (dst, .ofNat pos) p = .ret t) :
    ∃ w ≤ pos, (p ≠ [] → 2 ^ 31 ≤ pos → w + 2 ^ 32 ≤ pos) ∧
      t = ({ dst with data := dst.data.write w p }, .ofNat (pos + p.length)) := by
  by_cases hp : p = []
  · rw [hp, copyBehind_nil] at h
    exact ⟨pos, Nat.le_refl _, fun hnot => absurd hp hnot, by simpa [hp] using h.symm⟩
  · simp only [copyBehind, memcpyAt, if_neg hp] at h
    split at h
    · exact nomatch h
    · rename_i hsign
      rw [Int32.lt_iff_toInt_lt] at hsign
      obtain ⟨d, hd, hrest⟩ := Call.bind_eq_ret.mp h
      obtain ⟨-, rfl⟩ := Area.write_eq_ret.mp hd
      refine ⟨(Int32.ofNat pos).toInt.toNat, ?_, ?_, ?_⟩
      · by_cases hat : pos < 2 ^ 31
        · simp [held_eq hat]
        · have := held_le (Nat.le_of_not_lt hat)
          omega
      · intro _ hat
        have := held_le hat
        rw [show (0 : Int32).toInt = 0 from rfl] at hsign
        omega
      · rw [Int32.ofNat_add]
        exact (Call.ret.inj hrest).symm

theorem zeroFrom_write {w : Nat} (h : ZeroFrom dst n) (hn : w + p.length ≤ n) :
    ZeroFrom { dst with data := dst.data.write w p } n := by
  intro i hi hroom
  rw [← h i hi hroom]
  exact dst.data.write_outside w p (.inr (hn.trans hi))

/-- Behind the end of all pieces nothing is written. -/
theorem copyAll_zeroFrom (h : copyAll (dst, .ofNat pos) ps = .ret d) (hzero : ZeroFrom dst pos) :
    d.room = dst.room ∧ ZeroFrom d (pos + ps.flatten.length) := by
  induction ps generalizing dst pos with
  | nil =>
    cases h
    exact ⟨rfl, hzero⟩
  | cons p ps ih =>
    rw [copyAll_cons] at h
    obtain ⟨t, ht, hrest⟩ := Call.bind_eq_ret.mp h
    obtain ⟨w, hw, -, rfl⟩ := copyBehind_ret ht
    have hone := zeroFrom_write (zeroFrom_mono hzero (Nat.le_add_right pos p.length))
      (Nat.add_le_add_right hw p.length)
    obtain ⟨hroom, hbehind⟩ := ih hrest hone
    rw [List.flatten_cons, List.length_append, ← Nat.add_assoc]
    exact ⟨hroom, hbehind⟩

theorem copyAll_placed (h : Placed pos ps) (hroom : pos + ps.flatten.length ≤ dst.room) :
    copyAll (dst, .ofNat pos) ps =
      .ret { dst with data := dst.data.write pos ps.flatten } := by
  induction ps generalizing dst pos with
  | nil => simp [copyAll_nil]
  | cons p ps ih =>
    obtain ⟨hp, hps⟩ := h
    rw [List.flatten_cons, List.length_append] at hroom
    rw [copyAll_cons, List.flatten_cons]
    by_cases hnil : p = []
    · subst hnil
      rw [copyBehind_nil, Call.ret_bind]
      exact ih hps (by simpa using hroom)
    · have hrest : pos + p.length + ps.flatten.length ≤ dst.room := by omega
      have hone : pos + p.length ≤ dst.room := by omega
      rw [copyBehind_placed hnil (hp hnil) hone, Call.ret_bind, ← Mem.write_append]
      exact ih hps hrest

theorem copyAll_empty (h : ps.flatten = []) : copyAll s ps = .ret s.1 := by
  induction ps with
  | nil => rfl
  | cons p ps ih =>
    rw [List.flatten_cons, List.append_eq_nil_iff] at h
    rw [copyAll_cons, h.1, copyBehind_nil, Call.ret_bind]
    exact ih h.2

theorem placed_empty (h : ps.flatten = []) : Placed pos ps := by
  induction ps generalizing pos with
  | nil => trivial
  | cons p ps ih =>
    rw [List.flatten_cons, List.append_eq_nil_iff] at h
    exact ⟨fun hp => absurd h.1 hp, ih h.2⟩

theorem placed_lt (h : Placed pos ps) (hps : ps.flatten ≠ []) : pos < 2 ^ 31 := by
  induction ps generalizing pos with
  | nil => exact absurd rfl hps
  | cons p ps ih =>
    by_cases hp : p = []
    · subst hp
      exact ih h.2 hps
    · exact h.1 hp

/-- The last character of a piece that is written too early is missing. -/
theorem copyAll_misplaced (hplaced : ¬Placed pos ps) (h : copyAll (dst, .ofNat pos) ps = .ret d)
    (hzero : ZeroFrom dst pos) :
    0 < ps.flatten.length ∧ ZeroFrom d (pos + ps.flatten.length - 1) := by
  induction ps generalizing dst pos with
  | nil => exact absurd trivial hplaced
  | cons p ps ih =>
    rw [copyAll_cons] at h
    obtain ⟨t, ht, hrest⟩ := Call.bind_eq_ret.mp h
    obtain ⟨w, hw, hwrap, rfl⟩ := copyBehind_ret ht
    have hone := zeroFrom_write (zeroFrom_mono hzero (Nat.le_add_right pos p.length))
      (Nat.add_le_add_right hw p.length)
    rw [List.flatten_cons, List.length_append]
    by_cases hps : Placed (pos + p.length) ps
    · have hthis : p ≠ [] ∧ 2 ^ 31 ≤ pos := by
        by_contra hnot
        exact hplaced ⟨fun hp => by_contra fun hat => hnot ⟨hp, Nat.le_of_not_lt hat⟩, hps⟩
      have hpos := List.length_pos_of_ne_nil hthis.1
      by_cases hempty : ps.flatten = []
      · rw [copyAll_empty hempty] at hrest
        cases hrest
        rw [hempty, List.length_nil, Nat.add_zero]
        have := hwrap hthis.1 hthis.2
        exact ⟨hpos, zeroFrom_write (zeroFrom_mono hzero (by omega)) (by omega)⟩
      · exact absurd (placed_lt hps hempty) (by omega)
    · obtain ⟨hlen, hbehind⟩ := ih hps hrest hone
      rw [← Nat.add_assoc]
      exact ⟨by omega, hbehind⟩

section Loop

variable {str macth rep : CStr} {p1 : Nat}

theorem origlen_eq (h : macth.length < 2 ^ 31) : origlen macth = macth.length := held_eq h

theorem heldRep_eq (h : rep.length < 2 ^ 31) : heldRep rep = rep := by
  rw [heldRep, held_eq h]
  exact List.take_of_length_le (by simp)

theorem heldRep_length_lt (h : 2 ^ 31 ≤ rep.length) : (heldRep rep).length < rep.length := by
  have := held_le h
  rw [heldRep, List.length_take]
  omega

/-- From an occurrence on the loop writes the parts behind it, with the replacement between. -/
theorem replaceLoop_eq (hm : macth ≠ []) (hlen : macth.length < 2 ^ 31) {fuel : Nat}
    (hp1 : p1 + macth.length ≤ str.length) (hfuel : str.length < fuel + (p1 + macth.length)) :
    replaceLoop str macth rep fuel p1 s =
      copyAll s ((parts macth (str.drop (p1 + macth.length))).intersperse (heldRep rep)) := by
  have hpos := List.length_pos_of_ne_nil hm
  induction fuel generalizing p1 s with
  | zero => omega
  | succ fuel ih =>
    have hnext : ((p1 : Int) + origlen macth).toNat = p1 + macth.length := by
      rw [origlen_eq hlen]
      omega
    have hsign : ¬(p1 : Int) + origlen macth < 0 := by
      rw [origlen_eq hlen]
      omega
    rw [replaceLoop, if_neg hsign, hnext]
    cases hfind : find macth (str.drop (p1 + macth.length)) with
    | none =>
      simp only [hfind, parts_none hfind, List.intersperse_singleton, copyAll_last]
    | some gap =>
      have hin := find_le hm hfind
      rw [List.length_drop] at hin
      rw [parts_some hm hfind, intersperse_cons (parts_ne_nil _), copyAll_cons,
        List.drop_drop, show p1 + macth.length + (gap + macth.length) =
          p1 + macth.length + gap + macth.length by omega]
      simp only [hfind]
      congr 1
      funext t
      rw [copyAll_cons]
      congr 1
      funext u
      exact ih (by omega) (by omega)

/-- A word whose length is held as a negative one is found again where it was. -/
theorem replaceLoop_stuck (hm : macth ≠ []) (hlen : 2 ^ 31 ≤ macth.length)
    (hbound : macth.length < 2 ^ 32) (hfind : find macth str = some p1) (fuel : Nat) :
    replaceLoop str macth rep fuel p1 s ≠ .ret d := by
  have horig : origlen macth < 0 := by
    have := held_le hlen
    unfold origlen
    omega
  induction fuel generalizing s with
  | zero => exact nofun
  | succ fuel ih =>
    rw [replaceLoop]
    split
    · exact nofun
    · rename_i hsign
      obtain ⟨m, hm'⟩ : ∃ m : Nat, (p1 : Int) + origlen macth = m := ⟨_, (Int.toNat_of_nonneg (by omega)).symm⟩
      have hagain := find_drop hm hfind (show m ≤ p1 by omega)
      simp only [hm', Int.toNat_natCast, hagain, Nat.add_sub_cancel' (show m ≤ p1 by omega)]
      intro hret
      obtain ⟨t, -, hret⟩ := Call.bind_eq_ret.mp hret
      obtain ⟨u, -, hret⟩ := Call.bind_eq_ret.mp hret
      exact ih hret

end Loop

section Whole

variable {str macth rep : CStr}

/-- What is written behind the text before the first occurrence. -/
def behindFirst (str macth rep : CStr) (p : Nat) : List CStr :=
  rep :: (parts macth (str.drop (p + macth.length))).intersperse rep

/-- The lengths and the places of all that is written are such as an `int32_t` holds. -/
def ReplaceFits (str macth rep : CStr) : Prop :=
  ∀ p, find macth str = some p → macth.length < 2 ^ 31 ∧ rep.length < 2 ^ 31 ∧ p < 2 ^ 31 ∧
    Placed p (behindFirst str macth rep p)

/-- The destination holds the text with the occurrences replaced, and a NUL behind it. -/
def Replaces (str macth rep : CStr) (dst : Area) : Prop :=
  ∃ d, yangCstrReplace str macth rep dst = .ret d ∧
    d.data.slice 0 ((replaceAll macth rep str).length + 1) = replaceAll macth rep str ++ [0]

theorem replaceAll_first (hm : macth ≠ []) {p : Nat} (h : find macth str = some p) :
    replaceAll macth rep str = str.take p ++ (behindFirst str macth rep p).flatten := by
  rw [replaceAll_some hm h, List.append_assoc]
  rfl

theorem replaceAll_length (hm : macth ≠ []) {p : Nat} (h : find macth str = some p) :
    (replaceAll macth rep str).length = p + (behindFirst str macth rep p).flatten.length := by
  have := find_le hm h
  rw [replaceAll_first hm h, List.length_append, List.length_take, Nat.min_eq_left (by omega)]

theorem copyFirst_held {p : Nat} (hp : p < 2 ^ 31) (hroom : p ≤ dst.room) :
    copyFirst str (.ofNat p) dst = .ret { dst with data := dst.data.write 0 (str.take p) } := by
  have hheld := held_eq hp
  have hsign : ¬Int32.ofNat p < 0 := by
    rw [Int32.lt_iff_toInt_lt, hheld]
    simp
  have hlen : 0 + (str.take p).length ≤ dst.room := by
    rw [List.length_take]
    omega
  rw [copyFirst, if_neg hsign, hheld, Int.toNat_natCast, Area.write_inside hlen]

/-- What is copied first ends with the first occurrence, and before it where its length wraps. -/
theorem copyFirst_ret {p : Nat} {d₁ : Area} (h : copyFirst str (.ofNat p) dst = .ret d₁)
    (hzero : ZeroFrom dst 0) :
    d₁.room = dst.room ∧ ZeroFrom d₁ p ∧ (2 ^ 31 ≤ p → ZeroFrom d₁ (p - 1)) := by
  unfold copyFirst at h
  split at h
  · exact nomatch h
  · rename_i hsign
    obtain ⟨-, rfl⟩ := Area.write_eq_ret.mp h
    have hlen := List.length_take_le (Int32.ofNat p).toInt.toNat str
    refine ⟨rfl, zeroFrom_write (zeroFrom_mono hzero (Nat.zero_le p)) ?_, ?_⟩
    · by_cases hp : p < 2 ^ 31
      · have := held_eq hp
        omega
      · have := held_le (Nat.le_of_not_lt hp)
        omega
    · intro hp
      have := held_le hp
      exact zeroFrom_write (zeroFrom_mono hzero (Nat.zero_le _)) (by omega)

theorem yangCstrReplace_eq (hm : macth ≠ []) (hlen : macth.length < 2 ^ 31) {p : Nat}
    (h : find macth str = some p) :
    yangCstrReplace str macth rep dst = copyFirst str (.ofNat p) dst >>= fun d₁ =>
      copyAll (d₁, .ofNat p) (behindFirst str macth (heldRep rep) p) := by
  have hin := find_le hm h
  simp only [yangCstrReplace, h, behindFirst, copyAll_cons]
  congr 1
  funext d₁
  congr 1
  funext s
  exact replaceLoop_eq hm hlen hin (by omega)

theorem slice_written {out : CStr} (hzero : ZeroFrom dst 0) (hroom : out.length < dst.room) :
    (dst.data.write 0 out).slice 0 (out.length + 1) = out ++ [0] := by
  have hnul : (dst.data.write 0 out) out.length = 0 := by
    rw [Mem.write_outside _ _ _ (.inr (by omega))]
    exact hzero _ (Nat.zero_le _) hroom
  rw [Mem.slice_append, Mem.slice_write, Nat.zero_add]
  simp only [Mem.slice, hnul]

theorem replaces_of_fits (hm : macth ≠ []) (hzero : ZeroFrom dst 0)
    (hroom : (replaceAll macth rep str).length < dst.room) (hfits : ReplaceFits str macth rep) :
    Replaces str macth rep dst := by
  cases hfind : find macth str with
  | none =>
    rw [replaceAll_none hfind] at hroom
    have hlen : 0 + (str ++ [0]).length ≤ dst.room := by
      rw [List.length_append, List.length_singleton]
      omega
    refine ⟨_, by simp only [yangCstrReplace, hfind]; exact Area.write_inside hlen, ?_⟩
    have hslice := Mem.slice_write dst.data 0 (str ++ [0])
    rw [List.length_append] at hslice
    rw [replaceAll_none hfind]
    exact hslice
  | some p =>
    obtain ⟨hmlen, hrep, hp, hplaced⟩ := hfits p hfind
    have hlen := @replaceAll_length _ _ rep hm p hfind
    have hin := find_le hm hfind
    have htake : (str.take p).length = p := by
      rw [List.length_take]
      omega
    have hdata : (dst.data.write 0 (str.take p)).write p (behindFirst str macth rep p).flatten =
        dst.data.write 0 (replaceAll macth rep str) := by
      have happend := dst.data.write_append 0 (str.take p) (behindFirst str macth rep p).flatten
      rwa [htake, Nat.zero_add, ← replaceAll_first hm hfind] at happend
    refine ⟨{ dst with data := dst.data.write 0 (replaceAll macth rep str) }, ?_,
      slice_written hzero hroom⟩
    have hfirst : copyFirst str (.ofNat p) dst = _ := copyFirst_held hp (by omega)
    rw [yangCstrReplace_eq hm hmlen hfind, heldRep_eq hrep, hfirst, Call.ret_bind, ← hdata]
    have hfit : p + (behindFirst str macth rep p).flatten.length ≤ dst.room := by omega
    exact copyAll_placed hplaced hfit

theorem last_missing {out : CStr} (hnul : (0 : UInt8) ∉ out) (hpos : 0 < out.length)
    (hroom : out.length < d.room) (hslice : d.data.slice 0 (out.length + 1) = out ++ [0]) :
    ¬ZeroFrom d (out.length - 1) := by
  intro hzero
  have hlast := hzero (out.length - 1) (Nat.le_refl _) (by omega)
  have hget := d.data.slice_getElem? 0 (out.length + 1) (out.length - 1)
  rw [hslice, if_pos (by omega), List.getElem?_append_left (by omega), Nat.zero_add, hlast] at hget
  exact hnul (List.mem_of_getElem? hget)

theorem intersperse_length_le {r r' : CStr} (h : r.length ≤ r'.length) (ps : List CStr) :
    (ps.intersperse r).flatten.length ≤ (ps.intersperse r').flatten.length := by
  induction ps with
  | nil => exact Nat.le_refl _
  | cons p ps ih =>
    by_cases hps : ps = []
    · simp [hps]
    · rw [intersperse_cons hps, intersperse_cons hps]
      simp only [List.flatten_cons, List.length_append]
      omega

theorem behindFirst_shorter {p : Nat} (hlong : ¬rep.length < 2 ^ 31) :
    (behindFirst str macth (heldRep rep) p).flatten.length <
      (behindFirst str macth rep p).flatten.length := by
  have hshort := heldRep_length_lt (Nat.le_of_not_lt hlong)
  have hrest := intersperse_length_le (Nat.le_of_lt hshort)
    (parts macth (str.drop (p + macth.length)))
  simp only [behindFirst, List.flatten_cons, List.length_append]
  omega

theorem fits_of_replaces (hm : macth ≠ []) (hlen : macth.length < 2 ^ 32) (hstr : (0 : UInt8) ∉ str)
    (hrep : (0 : UInt8) ∉ rep) (hzero : ZeroFrom dst 0)
    (hroom : (replaceAll macth rep str).length < dst.room)
    (hreplaces : Replaces str macth rep dst) : ReplaceFits str macth rep := by
  intro p hfind
  obtain ⟨d, hret, hslice⟩ := hreplaces
  have hnul : (0 : UInt8) ∉ replaceAll macth rep str := by
    intro hmem
    rcases mem_replaceAll hmem with hmem | hmem
    · exact hstr hmem
    · exact hrep hmem
  have hmlen : macth.length < 2 ^ 31 := by
    by_contra hlong
    rw [yangCstrReplace] at hret
    simp only [hfind] at hret
    obtain ⟨d₁, -, hret⟩ := Call.bind_eq_ret.mp hret
    obtain ⟨s, -, hret⟩ := Call.bind_eq_ret.mp hret
    exact replaceLoop_stuck hm (Nat.le_of_not_lt hlong) hlen hfind _ hret
  rw [yangCstrReplace_eq hm hmlen hfind] at hret
  obtain ⟨d₁, hfirst, hret⟩ := Call.bind_eq_ret.mp hret
  obtain ⟨hsize, hzero₁, hwrap⟩ := copyFirst_ret hfirst hzero
  have hwhole := @replaceAll_length _ _ rep hm p hfind
  obtain ⟨hsize', hbehind⟩ := copyAll_zeroFrom hret hzero₁
  have hmissing := fun hpos => last_missing hnul hpos (by omega) hslice
  have hreplen : rep.length < 2 ^ 31 := by
    by_contra hlong
    have hshort : (behindFirst str macth (heldRep rep) p).flatten.length <
        (behindFirst str macth rep p).flatten.length := behindFirst_shorter hlong
    exact hmissing (by omega) (zeroFrom_mono hbehind (by omega))
  rw [heldRep_eq hreplen] at hret
  refine ⟨hmlen, hreplen, ?_⟩
  by_cases hplaced : Placed p (behindFirst str macth rep p)
  · refine ⟨?_, hplaced⟩
    by_contra hp
    by_cases hempty : (behindFirst str macth rep p).flatten = []
    · rw [copyAll_empty hempty] at hret
      cases hret
      rw [hempty, List.length_nil, Nat.add_zero] at hwhole
      exact hmissing (by omega) (hwhole ▸ hwrap (Nat.le_of_not_lt hp))
    · exact hp (placed_lt hplaced hempty)
  · obtain ⟨hpos, hlast⟩ := copyAll_misplaced hplaced hret hzero₁
    exact absurd (hwhole ▸ hlast) (hmissing (by omega))

/-- The replacement is right where all it counts is held, and for every word that an
`int32_t` does not take for a shorter one only there. -/
theorem replaces_iff_fits (str macth rep : CStr) (dst : Area) (hm : macth ≠ [])
    (hstr : (0 : UInt8) ∉ str) (hrep : (0 : UInt8) ∉ rep) (hzero : ZeroFrom dst 0)
    (hroom : (replaceAll macth rep str).length < dst.room) :
    (ReplaceFits str macth rep → Replaces str macth rep dst) ∧
    (macth.length < 2 ^ 32 → (Replaces str macth rep dst ↔ ReplaceFits str macth rep)) :=
  ⟨replaces_of_fits hm hzero hroom, fun hlen =>
    ⟨fits_of_replaces hm hlen hstr hrep hzero hroom, replaces_of_fits hm hzero hroom⟩⟩

/-- One occurrence right behind the other. -/
theorem replaces_adjacent :
    Replaces (lit "aabaabaa") (lit "aab") (lit "x") ⟨fun _ => 0, 5⟩ := by
  have hfits : ReplaceFits (lit "aabaabaa") (lit "aab") (lit "x") := by
    intro p hp
    obtain rfl : 0 = p := Option.some.inj hp
    decide +kernel
  exact (replaces_iff_fits (lit "aabaabaa") (lit "aab") (lit "x") ⟨fun _ => 0, 5⟩ (by decide)
    (by decide) (by decide) (fun _ _ _ => rfl) (by decide)).1 hfits

/-- A replacement of two to the 31st characters is held as one of a negative length and left out. -/
theorem replaces_long_replacement :
    (replaceAll (lit "a") (List.replicate (2 ^ 31) 98) (lit "a")).length < 2 ^ 31 + 1 ∧
    ¬Replaces (lit "a") (lit "a") (List.replicate (2 ^ 31) 98) ⟨fun _ => 0, 2 ^ 31 + 1⟩ := by
  have hparts : parts (lit "a") (lit "a") = [[], []] := by decide
  have hroom : (replaceAll (lit "a") (List.replicate (2 ^ 31) 98) (lit "a")).length <
      2 ^ 31 + 1 := by
    rw [replaceAll, hparts, List.intercalate, List.intersperse_cons_cons,
      List.intersperse_singleton, List.flatten_cons, List.flatten_cons, List.length_append,
      List.length_append, List.length_replicate]
    decide
  refine ⟨hroom, ?_⟩
  intro hreplaces
  have hnul : (0 : UInt8) ∉ List.replicate (2 ^ 31) (98 : UInt8) := by
    intro hmem
    exact absurd (List.eq_of_mem_replicate hmem) (by decide)
  have hfits := fits_of_replaces (by decide) (by decide) (by decide) hnul (fun _ _ _ => rfl) hroom
    hreplaces
  have hlen := (hfits 0 (by decide)).2.1
  rw [List.length_replicate] at hlen
  exact absurd hlen (Nat.lt_irrefl _)

end Whole

end Replace

end MetaRtc
