import MetaRtc.Lib.Exec
import MetaRtc.Play.RecvNack
import MetaRtc.Sorted

/-! # The sorted arrays in memory

An element that is looked at has to be below the length, and one that is put has to be below the
capacity. What the cells hold elsewhere is left over from before. -/
namespace MetaRtc

open Exec

structure SortedArray (α : Type) where
  cells : Nat → α
  vsize : Nat
  capacity : Nat

namespace SortedArray

variable {α : Type}

def entries (a : SortedArray α) : List α := Slots.entries a.cells a.vsize

def look (a : SortedArray α) (i : Int) : Call α :=
  if 0 ≤ i ∧ i < a.vsize then .ret (a.cells i.toNat) else .crash

/-- A new element, and the length with it. -/
def put (a : SortedArray α) (i : Int) (x : α) : Call (SortedArray α) :=
  if 0 ≤ i ∧ i < a.capacity then
    .ret { a with cells := Function.update a.cells i.toNat x, vsize := a.vsize + 1 }
  else .crash

/-- `memmove` of the elements from an index on, by one place. -/
def shift (a : SortedArray α) (i : Int) : Call (SortedArray α) :=
  if 0 ≤ i ∧ i ≤ a.vsize ∧ a.vsize < a.capacity then
    .ret { a with cells := fun j => if i < j ∧ j ≤ a.vsize then a.cells (j - 1) else a.cells j }
  else .crash

/-- A larger block, zero but for the first `n` elements, which are copied. -/
def moveTo (a : SortedArray α) (zero : α) (n : Nat) : Call (SortedArray α) :=
  if n ≤ a.vsize ∧ n ≤ a.capacity + 50 then
    .ret { a with
      cells := fun i => if i < n then a.cells i else zero
      capacity := a.capacity + 50 }
  else .crash

/-- `sn` is the number in an element. -/
def indexLoop (sn : α → Nat) (a : SortedArray α) (value : Nat) : Nat → Int → Int → Call Int
  | 0, _, _ => .blocked
  | fuel + 1, low, high =>
    if low ≤ high then do
      let mid := (high + low) / 2
      let x ← a.look mid
      if value = sn x then return -1
      else if rtpSeqDistance value (sn x) > 0 then indexLoop sn a value fuel low (mid - 1)
      else if rtpSeqDistance (sn x) value > 0 then indexLoop sn a value fuel (mid + 1) high
      else return mid
    else return low

/-- Each pass leaves less between the two ends. -/
def index (sn : α → Nat) (a : SortedArray α) (value : Nat) : Call Int :=
  indexLoop sn a value (a.vsize + 2) 0 a.vsize

def insert (sn : α → Nat) (a : SortedArray α) (x : α) : Call (Err × SortedArray α) :=
  if a.vsize = 0 then do
    let a ← a.put 0 x
    return (yangOk, a)
  else do
    let last ← a.look (a.vsize - 1)
    if rtpSeqDistance (sn last) (sn x) > 0 then
      let a ← a.put a.vsize x
      return (yangOk, a)
    else
      let i ← a.index sn (sn x)
      if i = -1 then return (1, a)
      else
        let a ← a.shift i
        let a ← a.put i x
        return (yangOk, a)

end SortedArray

def insertUint16SortAt (a : SortedArray Nat) (value : Nat) : Call (Err × SortedArray Nat) :=
  a.insert id value

/-- The capacity is unsigned, and so is what it is less one. -/
def growNacksAt (a : SortedArray Nat) : Call (SortedArray Nat) :=
  if a.vsize ≥ (a.capacity + (2 ^ 32 - 1)) % 2 ^ 32 then a.moveTo 0 a.vsize else .ret a

def rtcpNackAddSnAt (a : SortedArray Nat) (sn : Nat) : Call (SortedArray Nat) := do
  let a ← growNacksAt a
  let (_, a) ← insertUint16SortAt a sn
  return a

def growNackinfosAt (a : SortedArray RtpNackInfo) : Call (SortedArray RtpNackInfo) :=
  if a.vsize ≥ a.capacity then a.moveTo {} a.capacity else .ret a

def nackinfoInsertAt (now : Int) (a : SortedArray RtpNackInfo) (value : Nat) :
    Call (Err × SortedArray RtpNackInfo) := do
  let a ← growNackinfosAt a
  a.insert (·.sn) (createNackinfo now value)

namespace SortedArray

variable {α : Type} {sn : α → Nat} {a : SortedArray α} {x : α} {value : Nat}

theorem look_inside {i : Nat} (h : i < a.vsize) : a.look i = .ret (a.cells i) := by
  unfold look
  rw [if_pos ⟨Int.natCast_nonneg i, Int.ofNat_lt.mpr h⟩, Int.toNat_natCast]

theorem put_inside {i : Nat} (h : i < a.capacity) : a.put i x =
    .ret { a with cells := Function.update a.cells i x, vsize := a.vsize + 1 } := by
  unfold put
  rw [if_pos ⟨Int.natCast_nonneg i, Int.ofNat_lt.mpr h⟩, Int.toNat_natCast]

@[simp] theorem entries_length (a : SortedArray α) : a.entries.length = a.vsize :=
  Slots.entries_length _ _

/-- Where the number is not behind the last one, the search looks at elements below the length
only, and finds what it finds in any list with these elements in front. -/
theorem indexLoop_eq {l : List Nat} (hl : ∀ i < a.vsize, l.getD i 0 = sn (a.cells i))
    (hlast : rtpSeqDistance (sn (a.cells (a.vsize - 1))) value ≤ 0) {fuel : Nat} {low high : Int}
    (hfuel : high - low + 1 < fuel) (hlow : 0 ≤ low) (hin : low < a.vsize)
    (hhigh : high ≤ a.vsize) (hmeet : low ≤ high + 1) :
    a.indexLoop sn value fuel low high = .ret (uint16Search l value fuel low high) := by
  induction fuel generalizing low high with
  | zero => omega
  | succ fuel ih =>
    unfold indexLoop uint16Search
    dsimp only
    split
    · rename_i hle
      obtain ⟨m, hm⟩ := Int.eq_ofNat_of_zero_le (show 0 ≤ (high + low) / 2 by omega)
      have hmid : m < a.vsize := by omega
      rw [hm, look_inside hmid, Call.ret_bind, Int.toNat_natCast, hl m hmid]
      split
      · rfl
      · split
        · exact ih (by omega) hlow hin (by omega) (by omega)
        · split
          · rename_i hafter
            have hnotLast : m ≠ a.vsize - 1 := by
              rintro rfl
              omega
            exact ih (by omega) (by omega) (by omega) hhigh (by omega)
          · rfl
    · rfl

/-- What an insertion makes of the array, if the search finds this. -/
def inserted (a : SortedArray α) (sn : α → Nat) (x : α) (i : Int) : Err × SortedArray α :=
  if a.vsize = 0 ∨ rtpSeqDistance (sn (a.cells (a.vsize - 1))) (sn x) > 0 then
    (yangOk, { a with cells := Function.update a.cells a.vsize x, vsize := a.vsize + 1 })
  else if i = -1 then (1, a)
  else (yangOk, { a with
    cells := Function.update
      (fun j => if i < j ∧ j ≤ a.vsize then a.cells (j - 1) else a.cells j) i.toNat x
    vsize := a.vsize + 1 })

theorem getD_entries {i : Nat} (h : i < a.vsize) :
    (a.entries.map sn).getD i 0 = sn (a.cells i) := by
  simp [List.getD_eq_getElem?_getD, entries, Slots.entries, h]

/-- The search gives -1 or a place before the last element. -/
theorem search_inside {l : List Nat} (hl : ∀ i < a.vsize, l.getD i 0 = sn (a.cells i))
    (hsome : a.vsize ≠ 0)
    (hlast : rtpSeqDistance (sn (a.cells (a.vsize - 1))) value ≤ 0) :
    ∃ i, a.index sn value = .ret i ∧ uint16Search l value (a.vsize + 2) 0 a.vsize = i ∧
      (i = -1 ∨ 0 ≤ i ∧ i < a.vsize) := by
  have hindex : ∀ l : List Nat, (∀ i < a.vsize, l.getD i 0 = sn (a.cells i)) →
      a.index sn value = .ret (uint16Search l value (a.vsize + 2) 0 a.vsize) := fun l hl =>
    indexLoop_eq hl hlast (by omega) (Int.le_refl 0) (by omega) (Int.le_refl _) (by omega)
  have hlen : (a.entries.map sn).length = a.vsize := by simp
  have hsame := (hindex l hl).symm.trans (hindex _ fun i hi => getD_entries hi)
  have hlast' : rtpSeqDistance
      ((a.entries.map sn).getD ((a.entries.map sn).length - 1) 0) value ≤ 0 := by
    rwa [hlen, getD_entries (by omega)]
  have hhigh : (a.vsize : Int) ≤ (a.entries.map sn).length := by omega
  have hinside := uint16Search_inside hlast' (a.vsize + 2) (Int.le_refl 0) (by omega) hhigh (by omega)
  refine ⟨_, hindex l hl, rfl, ?_⟩
  rw [Call.ret.inj hsame]
  obtain ⟨hfound, -⟩ | ⟨hlo, hhi⟩ := hinside
  · exact .inl hfound
  · exact .inr ⟨hlo, by omega⟩

/-- An insertion into an array with room stays inside. -/
theorem insert_eq {l : List Nat} (hl : ∀ i < a.vsize, l.getD i 0 = sn (a.cells i))
    (hroom : a.vsize < a.capacity) :
    a.insert sn x = .ret (a.inserted sn x (uint16Search l (sn x) (a.vsize + 2) 0 a.vsize)) := by
  unfold insert inserted
  by_cases hnone : a.vsize = 0
  · have hput : a.put 0 x = _ := put_inside (x := x) (show 0 < a.capacity by omega)
    rw [if_pos hnone, if_pos (.inl hnone), hput, hnone]
    rfl
  · have hlook := look_inside (a := a) (show a.vsize - 1 < a.vsize by omega)
    rw [show ((a.vsize - 1 : Nat) : Int) = a.vsize - 1 by omega] at hlook
    rw [if_neg hnone, hlook, Call.ret_bind]
    split
    · rename_i hafter
      rw [if_pos (.inr hafter), put_inside hroom]
      rfl
    · rename_i hlast
      rw [if_neg (fun h => h.elim hnone hlast)]
      obtain ⟨i, hindex, hsearch, hinside⟩ := search_inside hl hnone (Int.not_lt.mp hlast)
      rw [hindex, Call.ret_bind, hsearch]
      split
      · rfl
      · rename_i hmissed
        obtain ⟨hlo, hhi⟩ := hinside.resolve_left hmissed
        obtain ⟨k, rfl⟩ := Int.eq_ofNat_of_zero_le hlo
        rw [shift, if_pos ⟨hlo, by omega, hroom⟩, Call.ret_bind, put, if_pos ⟨hlo, by
          dsimp only
          omega⟩]
        rfl

/-- The numbers are those that the insertion into the list gives. -/
theorem inserted_entries (a : SortedArray α) (x : α) :
    (a.inserted sn x (uint16Search (a.entries.map sn) (sn x) (a.vsize + 2) 0 a.vsize)).2.entries.map
      sn = insertUint16Sort (a.entries.map sn) (sn x) := by
  have hlen : (a.entries.map sn).length = a.vsize := by simp
  have hpush : (Slots.entries (Function.update a.cells a.vsize x) (a.vsize + 1)).map sn =
      a.entries.map sn ++ [sn x] := by
    rw [Slots.entries_push, List.map_append]
    rfl
  unfold inserted insertUint16Sort
  by_cases hnone : a.vsize = 0
  · have hnil : a.entries.map sn = [] := List.eq_nil_of_length_eq_zero (hlen.trans hnone)
    rw [if_pos (.inl hnone), if_pos (hlen.trans hnone)]
    rw [hnil] at hpush
    exact hpush
  · rw [hlen, getD_entries (show a.vsize - 1 < a.vsize by omega), if_neg hnone]
    split
    · rename_i hafter
      rw [if_pos (hafter.resolve_left hnone)]
      exact hpush
    · rename_i hnot
      have hlast := fun h => hnot (.inr h)
      rw [if_neg hlast]
      obtain ⟨i, -, hsearch, hinside⟩ :=
        search_inside (fun i hi => getD_entries hi) hnone (Int.not_lt.mp hlast)
      unfold getUint16Index
      rw [hlen, hsearch]
      dsimp only
      split
      · rfl
      · rename_i hmissed
        obtain ⟨k, rfl⟩ := Int.eq_ofNat_of_zero_le (hinside.resolve_left hmissed).1
        have hat := Slots.entries_insertAt a.cells x (show k ≤ a.vsize by omega)
        simp only [Nat.cast_lt]
        show (Slots.entries (Slots.insertAt a.cells a.vsize k x) (a.vsize + 1)).map sn = _
        rw [hat, List.map_insertIdx, Int.toNat_natCast]
        rfl

end SortedArray

namespace RtpNackInfoList

def array (vec : RtpNackInfoList) : SortedArray RtpNackInfo :=
  ⟨vec.nackinfos, vec.vsize, vec.capacity⟩

end RtpNackInfoList

theorem growNackinfosAt_eq (vec : RtpNackInfoList) :
    growNackinfosAt vec.array = .ret (growNackinfos vec).array := by
  have hsize : vec.array.vsize = vec.vsize := rfl
  have hcapacity : vec.array.capacity = vec.capacity := rfl
  unfold growNackinfosAt growNackinfos
  rw [hsize, hcapacity]
  split
  · rename_i hfull
    rw [SortedArray.moveTo, hsize, hcapacity, if_pos ⟨hfull, by omega⟩]
    rfl
  · rfl

theorem nackinfoInsert_array (now : Int) (vec : RtpNackInfoList) (value : Nat) :
    (nackinfoInsert now vec value).array =
      ((growNackinfos vec).array.inserted (·.sn) (createNackinfo now value)
        (getNackinfoIndex (growNackinfos vec).nackinfos value vec.vsize)).2 := by
  have hsize : (growNackinfos vec).array.vsize = vec.vsize := growNackinfos_vsize vec
  have hfilled : ∀ cells : Nat → RtpNackInfo, SortedArray.mk cells ((growNackinfos vec).vsize + 1)
      (growNackinfos vec).capacity = ⟨cells, vec.vsize + 1, (growNackinfos vec).capacity⟩ :=
    fun cells => congrArg (fun n => SortedArray.mk cells (n + 1) _) hsize
  unfold nackinfoInsert SortedArray.inserted
  rw [hsize]
  dsimp only
  split
  · rename_i hlast
    rw [if_pos (show vec.vsize = 0 ∨ rtpSeqDistance ((growNackinfos vec).array.cells
      (vec.vsize - 1)).sn (createNackinfo now value).sn > 0 from hlast)]
    exact hfilled _
  · rename_i hlast
    rw [if_neg (show ¬ (vec.vsize = 0 ∨ rtpSeqDistance ((growNackinfos vec).array.cells
      (vec.vsize - 1)).sn (createNackinfo now value).sn > 0) from hlast)]
    split
    · rfl
    · exact hfilled _

/-- The pending list is kept inside its memory. -/
theorem nackinfoInsertAt_eq (now : Int) (vec : RtpNackInfoList) (value : Nat) : ∃ err,
    nackinfoInsertAt now vec.array value = .ret (err, (nackinfoInsert now vec value).array) := by
  have hsize : (growNackinfos vec).array.vsize = vec.vsize := growNackinfos_vsize vec
  have hl : ∀ i < (growNackinfos vec).array.vsize,
      ((List.range (vec.vsize + 1)).map fun i => ((growNackinfos vec).nackinfos i).sn).getD i 0 =
        ((growNackinfos vec).array.cells i).sn := by
    intro i hi
    have hin : i < vec.vsize + 1 := by omega
    rw [List.getD_eq_getElem?_getD, List.getElem?_map, List.getElem?_range hin]
    rfl
  unfold nackinfoInsertAt
  rw [growNackinfosAt_eq, Call.ret_bind, SortedArray.insert_eq hl (growNackinfos_room vec), hsize,
    nackinfoInsert_array]
  exact ⟨_, rfl⟩

/-- The numbers inserted, each once and in their order. -/
structure KeptSorted (values sns : List Nat) : Prop where
  increasing : sns.Pairwise After
  members : ∀ value, value ∈ sns ↔ value ∈ values

/-- The numbers from `base` on, half the cycle. -/
def InWindow (base value : Nat) : Prop := value < 65536 ∧ (value + 65536 - base) % 65536 < 32768

instance (base value : Nat) : Decidable (InWindow base value) := by
  unfold InWindow
  exact inferInstance

/-- Where the numbers of a window stand without the wrap. -/
structure Unwrapped (base : Nat) (sns : List Nat) (xs : List Int) : Prop where
  wraps : sns = xs.map wrap
  sorted : xs.Pairwise (· < ·)
  window : ∀ x ∈ xs, (base : Int) ≤ x ∧ x < base + 32768

section Window

variable {base value : Nat} {sns : List Nat} {xs : List Int}

theorem unwrap (hbase : base ≤ 65536) (h : InWindow base value) :
    ∃ x : Int, wrap x = value ∧ (base : Int) ≤ x ∧ x < base + 32768 := by
  obtain ⟨hlt, hin⟩ := h
  refine ⟨base + ((value + 65536 - base) % 65536 : Nat), ?_, by omega, by omega⟩
  unfold wrap
  omega

theorem Unwrapped.insert (h : Unwrapped base sns xs) {x : Int}
    (hx : (base : Int) ≤ x ∧ x < base + 32768) : ∃ ys,
    Unwrapped base (insertUint16Sort sns (wrap x)) ys := by
  obtain ⟨rfl, hsorted, hwindow⟩ := h
  have hnear : ∀ y ∈ xs, x - 32768 < y ∧ y < x + 32768 := by
    intro y hy
    have := hwindow y hy
    omega
  obtain ⟨-, ys, hys, hsorted', hmem⟩ := insertUint16Sort_sorted hsorted hnear
  refine ⟨ys, hys, hsorted', fun y hy => ?_⟩
  obtain rfl | hold := (hmem y).mp hy
  · exact hx
  · exact hwindow y hold

theorem Unwrapped.increasing (h : Unwrapped base sns xs) : sns.Pairwise After := by
  obtain ⟨rfl, hsorted, hwindow⟩ := h
  rw [List.pairwise_map]
  refine hsorted.imp_of_mem fun {x y} hx hy hlt => ?_
  have hwx := hwindow x hx
  have hwy := hwindow y hy
  unfold After
  rw [rtpSeqDistance_wrap (by omega) (by omega)]
  omega

/-- Every insertion order gives the same. -/
theorem keptSorted_fold {values : List Nat} (hbase : base ≤ 65536)
    (hwin : ∀ value ∈ values, InWindow base value) :
    KeptSorted values (values.foldl insertUint16Sort []) := by
  have hfold : ∀ (values sns : List Nat) (xs : List Int), (∀ value ∈ values, InWindow base value) →
      Unwrapped base sns xs → ∃ ys, Unwrapped base (values.foldl insertUint16Sort sns) ys := by
    intro values
    induction values with
    | nil => exact fun sns xs _ h => ⟨xs, h⟩
    | cons value values ih =>
      intro sns xs hwin h
      obtain ⟨hvalue, hrest⟩ := List.forall_mem_cons.mp hwin
      obtain ⟨x, rfl, hx⟩ := unwrap hbase hvalue
      obtain ⟨ys, hys⟩ := h.insert hx
      exact ih _ ys hrest hys
  obtain ⟨ys, hys⟩ := hfold values [] [] hwin ⟨rfl, .nil, by simp⟩
  refine ⟨hys.increasing, fun value => ?_⟩
  rw [mem_foldl_insert]
  simp

end Window

namespace SortedArray

variable {α : Type} {sn : α → Nat} {a : SortedArray α} {x : α}

theorem inserted_room (hroom : a.vsize < a.capacity) (x : α) (i : Int) :
    (a.inserted sn x i).2.vsize ≤ a.capacity ∧ (a.inserted sn x i).2.capacity = a.capacity := by
  unfold inserted
  split
  · exact ⟨hroom, rfl⟩
  · split
    · exact ⟨Nat.le_of_lt hroom, rfl⟩
    · exact ⟨hroom, rfl⟩

/-- An insertion where there is room, as a whole. -/
theorem insert_returns (hroom : a.vsize < a.capacity) (x : α) :
    ∃ err a', a.insert sn x = .ret (err, a') ∧
      a'.entries.map sn = insertUint16Sort (a.entries.map sn) (sn x) ∧
      a'.vsize ≤ a.capacity ∧ a'.capacity = a.capacity :=
  ⟨_, _, insert_eq (fun _ hi => getD_entries hi) hroom, inserted_entries a x,
    inserted_room hroom x _⟩

theorem moveTo_returns {n : Nat} (zero : α) (hn : n = a.vsize) (hfits : a.vsize ≤ a.capacity) :
    ∃ a', a.moveTo zero n = .ret a' ∧ a'.entries = a.entries ∧ a'.vsize = a.vsize ∧
      a'.capacity = a.capacity + 50 := by
  subst hn
  refine ⟨_, if_pos ⟨Nat.le_refl _, by omega⟩, ?_, rfl, rfl⟩
  exact Slots.entries_congr fun i hi => if_pos hi

end SortedArray

theorem rtcpNackAddSnAt_returns {a : SortedArray Nat} (hfits : a.vsize ≤ a.capacity)
    (hpos : 0 < a.capacity) (sn : Nat) : ∃ a', rtcpNackAddSnAt a sn = .ret a' ∧
      a'.entries = insertUint16Sort a.entries sn ∧ a'.vsize ≤ a'.capacity ∧ 0 < a'.capacity := by
  have hgrown : ∃ b, growNacksAt a = .ret b ∧ b.entries = a.entries ∧ b.vsize < b.capacity := by
    unfold growNacksAt
    split
    · obtain ⟨b, hmove, hentries, hsize, hcapacity⟩ := a.moveTo_returns 0 rfl hfits
      exact ⟨b, hmove, hentries, by omega⟩
    · exact ⟨a, rfl, rfl, by omega⟩
  obtain ⟨b, hgrow, hentries, hroom⟩ := hgrown
  obtain ⟨err, a', hinsert, hsorted, hfits', hcapacity⟩ :=
    @SortedArray.insert_returns _ id _ hroom sn
  simp only [List.map_id, id, hentries] at hsorted
  refine ⟨a', ?_, hsorted, by omega, by omega⟩
  unfold rtcpNackAddSnAt insertUint16SortAt
  rw [hgrow, Call.ret_bind, hinsert]
  rfl

theorem nackinfoInsertAt_returns {a : SortedArray RtpNackInfo} (hfits : a.vsize ≤ a.capacity)
    (now : Int) (value : Nat) : ∃ err a', nackinfoInsertAt now a value = .ret (err, a') ∧
      a'.entries.map (·.sn) = insertUint16Sort (a.entries.map (·.sn)) value ∧
      a'.vsize ≤ a'.capacity := by
  have hgrown : ∃ b, growNackinfosAt a = .ret b ∧ b.entries = a.entries ∧ b.vsize < b.capacity := by
    unfold growNackinfosAt
    split
    · obtain ⟨b, hmove, hentries, hsize, hcapacity⟩ :=
        a.moveTo_returns {} (show a.capacity = a.vsize by omega) hfits
      exact ⟨b, hmove, hentries, by omega⟩
    · exact ⟨a, rfl, rfl, by omega⟩
  obtain ⟨b, hgrow, hentries, hroom⟩ := hgrown
  obtain ⟨err, a', hinsert, hsorted, hfits', hcapacity⟩ :=
    @SortedArray.insert_returns _ RtpNackInfo.sn _ hroom (createNackinfo now value)
  rw [hentries] at hsorted
  refine ⟨err, a', ?_, hsorted, by omega⟩
  unfold nackinfoInsertAt
  rw [hgrow, Call.ret_bind]
  exact hinsert

/-- The numbers of a request, one after the other. -/
theorem addAll_returns (values : List Nat) {a : SortedArray Nat} (hfits : a.vsize ≤ a.capacity)
    (hpos : 0 < a.capacity) : ∃ a', values.foldlM rtcpNackAddSnAt a = .ret a' ∧
      a'.entries = values.foldl insertUint16Sort a.entries := by
  induction values generalizing a with
  | nil => exact ⟨a, rfl, rfl⟩
  | cons value values ih =>
    obtain ⟨b, hone, hentries, hfits', hpos'⟩ := rtcpNackAddSnAt_returns hfits hpos value
    obtain ⟨a', hrest, hall⟩ := ih hfits' hpos'
    refine ⟨a', ?_, by rw [hall, hentries, List.foldl_cons]⟩
    rw [List.foldlM_cons, hone]
    exact hrest

/-- Numbers that come in the pending list, each at its time. -/
def nackinfoInsertAll (arrivals : List (Int × Nat)) (a : SortedArray RtpNackInfo) :
    Call (SortedArray RtpNackInfo) :=
  arrivals.foldlM (fun a arrival => do
    let (_, a) ← nackinfoInsertAt arrival.1 a arrival.2
    return a) a

theorem nackinfoInsertAll_returns (arrivals : List (Int × Nat)) {a : SortedArray RtpNackInfo}
    (hfits : a.vsize ≤ a.capacity) : ∃ a', nackinfoInsertAll arrivals a = .ret a' ∧
      a'.entries.map (·.sn) =
        (arrivals.map Prod.snd).foldl insertUint16Sort (a.entries.map (·.sn)) := by
  induction arrivals generalizing a with
  | nil => exact ⟨a, rfl, rfl⟩
  | cons arrival arrivals ih =>
    obtain ⟨err, b, hone, hentries, hfits'⟩ := nackinfoInsertAt_returns hfits arrival.1 arrival.2
    obtain ⟨a', hrest, hall⟩ := ih hfits'
    refine ⟨a', ?_, by rw [hall, hentries, List.map_cons, List.foldl_cons]⟩
    rw [nackinfoInsertAll, List.foldlM_cons, hone]
    exact hrest

/-- From empty arrays on, each insertion stays inside, and what is kept is in order and complete. -/
theorem insertions_sorted {base : Nat} {values : List Nat} (hbase : base < 65536)
    (hwin : ∀ value ∈ values, InWindow base value) :
    (∀ a : SortedArray Nat, a.vsize = 0 → 0 < a.capacity →
      ∃ a', values.foldlM rtcpNackAddSnAt a = .ret a' ∧ KeptSorted values a'.entries) ∧
    ∀ (a : SortedArray RtpNackInfo) (arrivals : List (Int × Nat)), a.vsize = 0 →
      arrivals.map Prod.snd = values →
      ∃ a', nackinfoInsertAll arrivals a = .ret a' ∧ KeptSorted values (a'.entries.map (·.sn)) := by
  have hkept := keptSorted_fold (Nat.le_of_lt hbase) hwin
  constructor
  · intro a hnone hpos
    obtain ⟨a', hall, hentries⟩ := addAll_returns values (show a.vsize ≤ a.capacity by omega) hpos
    have hnil : a.entries = [] := by
      rw [SortedArray.entries, hnone]
      rfl
    exact ⟨a', hall, by rwa [hentries, hnil]⟩
  · rintro a arrivals hnone rfl
    obtain ⟨a', hall, hentries⟩ :=
      nackinfoInsertAll_returns arrivals (show a.vsize ≤ a.capacity by omega)
    have hnil : a.entries = [] := by
      rw [SortedArray.entries, hnone]
      rfl
    exact ⟨a', hall, by rwa [hentries, hnil]⟩

theorem insertions_sorted_wrap :
    (∀ a : SortedArray Nat, a.vsize = 0 → 0 < a.capacity →
      ∃ a', [65535, 2, 0, 2].foldlM rtcpNackAddSnAt a = .ret a' ∧
        KeptSorted [65535, 2, 0, 2] a'.entries) ∧
    ∀ (a : SortedArray RtpNackInfo) (arrivals : List (Int × Nat)), a.vsize = 0 →
      arrivals.map Prod.snd = [65535, 2, 0, 2] →
      ∃ a', nackinfoInsertAll arrivals a = .ret a' ∧
        KeptSorted [65535, 2, 0, 2] (a'.entries.map (·.sn)) :=
  insertions_sorted (show 65530 < 65536 by decide) (by decide)

end MetaRtc
