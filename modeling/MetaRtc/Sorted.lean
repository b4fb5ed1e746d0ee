import MetaRtc.Lib.Slots
import MetaRtc.Rtcp.Twcc
import MetaRtc.Serial

/-! # The binary search in an array sorted by wrapping numbers -/
namespace MetaRtc

/-- The array's first entries stand for a sorted list, all near the number searched for,
which is not behind the last of them. -/
structure Searched (a : List Nat) (xs : List Int) (x : Int) : Prop where
  entries : ∀ i, ∀ h : i < xs.length, a.getD i 0 = wrap xs[i]
  sorted : xs.Pairwise (· < ·)
  near : ∀ y ∈ xs, x - 32768 < y ∧ y < x + 32768
  last : ∃ h : 0 < xs.length, x ≤ xs[xs.length - 1]

/-- What the search gives: that the number is there, or the place it belongs to. -/
def FoundAt (xs : List Int) (x r : Int) : Prop :=
  r = -1 ∧ x ∈ xs ∨
    0 ≤ r ∧ r < xs.length ∧ (∀ i, ∀ h : i < xs.length, (i : Int) < r → xs[i] < x) ∧
      ∀ i, ∀ h : i < xs.length, r ≤ i → x < xs[i]

theorem uint16Search_found {a : List Nat} {xs : List Int} {x : Int} (hs : Searched a xs x)
    (fuel : Nat) {low high : Int} (hfuel : high - low + 1 < fuel) (hlow : 0 ≤ low)
    (hhigh : high ≤ xs.length) (hmeet : low ≤ high + 1)
    (hbelow : ∀ i, ∀ h : i < xs.length, (i : Int) < low → xs[i] < x)
    (habove : ∀ i, ∀ h : i < xs.length, high < i → x < xs[i]) :
    FoundAt xs x (uint16Search a (wrap x) fuel low high) := by
  induction fuel generalizing low high with
  | zero => omega
  | succ fuel ih =>
    obtain ⟨hpos, hlast⟩ := hs.last
    -- the search never gets behind the last entry
    have hin : low < xs.length := by
      by_contra hout
      have := hbelow (xs.length - 1) (by omega) (by omega)
      omega
    unfold uint16Search
    dsimp only
    split
    · rename_i hle
      obtain ⟨m, hm⟩ := Int.eq_ofNat_of_zero_le (show 0 ≤ (high + low) / 2 by omega)
      have hmid : m < xs.length := by omega
      obtain ⟨hn1, hn2⟩ := hs.near xs[m] (List.getElem_mem hmid)
      rw [hm, Int.toNat_natCast, hs.entries m hmid, rtpSeqDistance_wrap (by omega) (by omega),
        rtpSeqDistance_wrap (by omega) (by omega)]
      split
      · rename_i heq
        have hx : x = xs[m] := wrap_inj heq (by omega) (by omega)
        exact .inl ⟨rfl, hx ▸ List.getElem_mem hmid⟩
      · rename_i hne
        have hx : xs[m] ≠ x := fun h => hne (h ▸ rfl)
        split
        · refine ih (by omega) hlow (by omega) (by omega) hbelow fun i hi himid => ?_
          by_cases him : i = m
          · subst him
            omega
          · have := List.pairwise_iff_getElem.mp hs.sorted m i hmid hi (by omega)
            omega
        · rw [if_pos (by omega)]
          refine ih (by omega) (by omega) hhigh (by omega) (fun i hi himid => ?_) habove
          by_cases him : i = m
          · subst him
            omega
          · have := List.pairwise_iff_getElem.mp hs.sorted i m hi hmid (by omega)
            omega
    · exact .inr ⟨hlow, hin, hbelow, fun i hi hri => habove i hi (by omega)⟩

/-- Put into its place, a number keeps the list sorted. -/
theorem insertIdx_sorted {xs : List Int} {x : Int} {k : Nat} (hsorted : xs.Pairwise (· < ·))
    (hk : k ≤ xs.length) (hbelow : ∀ i, ∀ h : i < xs.length, i < k → xs[i] < x)
    (habove : ∀ i, ∀ h : i < xs.length, k ≤ i → x < xs[i]) :
    (xs.insertIdx k x).Pairwise (· < ·) := by
  have hlen : (xs.insertIdx k x).length = xs.length + 1 :=
    List.length_insertIdx_of_le_length hk _
  have hxs := List.pairwise_iff_getElem.mp hsorted
  rw [List.pairwise_iff_getElem]
  intro i j hi hj hij
  -- both before the place, or one of them at it, or both behind it
  rcases Nat.lt_trichotomy i k with hik | rfl | hik
  · rw [List.getElem_insertIdx_of_lt hik]
    rcases Nat.lt_trichotomy j k with hjk | rfl | hjk
    · rw [List.getElem_insertIdx_of_lt hjk]
      exact hxs i j (by omega) (by omega) hij
    · rw [List.getElem_insertIdx_self]
      exact hbelow i (by omega) hik
    · rw [List.getElem_insertIdx_of_gt hjk]
      exact hxs i (j - 1) (by omega) (by omega) (by omega)
  · rw [List.getElem_insertIdx_self, List.getElem_insertIdx_of_gt hij]
    exact habove (j - 1) (by omega) (by omega)
  · rw [List.getElem_insertIdx_of_gt hik, List.getElem_insertIdx_of_gt (by omega)]
    exact hxs (i - 1) (j - 1) (by omega) (by omega) (by omega)

theorem list_eq_entries (psort : Uint16Sort) :
    psort.list = Slots.entries psort.payload psort.vsize := rfl

theorem grow_entries (psort : Uint16Sort) :
    Slots.entries psort.grow.payload psort.vsize = psort.list := by
  refine Slots.entries_congr fun i hi => ?_
  unfold Uint16Sort.grow
  split
  · exact if_pos hi
  · rfl

/-- A number behind the last of a sorted list is behind all of them. -/
theorem append_sorted {xs : List Int} {x : Int} (hsorted : xs.Pairwise (· < ·))
    (hlast : ∀ h : xs.length - 1 < xs.length, xs[xs.length - 1] < x) :
    (xs ++ [x]).Pairwise (· < ·) := by
  refine List.pairwise_append.mpr ⟨hsorted, List.pairwise_singleton _ _, ?_⟩
  rintro y hy _ (_ | ⟨_, ⟨⟩⟩)
  obtain ⟨i, hi, rfl⟩ := List.getElem_of_mem hy
  have hpos : xs.length - 1 < xs.length := by omega
  have hend : xs[i] ≤ xs[xs.length - 1] := by
    by_cases heq : i = xs.length - 1
    · simp [heq]
    · exact Int.le_of_lt (List.pairwise_iff_getElem.mp hsorted i _ hi hpos (by omega))
  have hx := hlast hpos
  omega

/-- At the place that a search gives, a number keeps the list sorted. -/
theorem place_sorted {xs : List Int} {x : Int} {k : Nat} (hsorted : xs.Pairwise (· < ·))
    (h : FoundAt xs x k) : (xs.insertIdx k x).Pairwise (· < ·) := by
  obtain ⟨hfound, -⟩ | ⟨-, hhi, hbelow, habove⟩ := h
  · omega
  · exact insertIdx_sorted hsorted (by omega) (fun i hi hik => hbelow i hi (by omega))
      fun i hi hik => habove i hi (by omega)

/-- What one insertion makes of a sorted list whose numbers are near the new one. -/
theorem insertVec_sorted {psort : Uint16Sort} {xs : List Int} {x : Int}
    (hlist : psort.list = xs.map wrap) (hsorted : xs.Pairwise (· < ·))
    (hnear : ∀ y ∈ xs, x - 32768 < y ∧ y < x + 32768) :
    ∃ ys : List Int, (insertUint16SortVec psort (wrap x)).list = ys.map wrap ∧ ys.Pairwise (· < ·) ∧
      ∀ y, y ∈ ys ↔ y = x ∨ y ∈ xs := by
  have hentries := (grow_entries psort).trans hlist
  have hsize : psort.vsize = xs.length := by
    simpa [Uint16Sort.list] using congrArg List.length hlist
  have hget : ∀ i, ∀ h : i < xs.length, psort.grow.payload i = wrap xs[i] := by
    intro i hi
    have := List.getElem_of_eq hentries (i := i) (by simpa [hsize] using hi)
    simpa using this
  unfold insertUint16SortVec
  dsimp only
  split
  · rename_i hlast
    refine ⟨xs ++ [x], ?_, ?_, by simp [or_comm]⟩
    · show Slots.entries (Function.update psort.grow.payload psort.vsize (wrap x))
        (psort.grow.vsize + 1) = _
      rw [Uint16Sort.grow_vsize, Slots.entries_push, hentries]
      simp
    · refine append_sorted hsorted fun hpos => ?_
      have hafter := hlast.resolve_left (by omega)
      obtain ⟨hn1, hn2⟩ := hnear _ (List.getElem_mem hpos)
      rw [hsize, hget _ hpos, rtpSeqDistance_wrap (by omega) (by omega)] at hafter
      omega
  · rename_i hlast
    rw [not_or, hsize] at hlast
    have hpos : xs.length - 1 < xs.length := by omega
    obtain ⟨hn1, hn2⟩ := hnear _ (List.getElem_mem hpos)
    rw [hget _ hpos, rtpSeqDistance_wrap (by omega) (by omega)] at hlast
    have hs : Searched ((List.range (psort.vsize + 1)).map psort.grow.payload) xs x := by
      refine ⟨fun i hi => ?_, hsorted, hnear, by omega, by omega⟩
      have hin : i < psort.vsize + 1 := by omega
      rw [List.getD_eq_getElem?_getD, List.getElem?_map, List.getElem?_range hin]
      exact hget i hi
    have hfound : FoundAt xs x (getUint16SortIndex psort.grow.payload (wrap x) psort.vsize) :=
      uint16Search_found hs _ (by omega) (by omega) (by omega) (by omega) (by omega)
        (by omega)
    generalize getUint16SortIndex psort.grow.payload (wrap x) psort.vsize = index at hfound
    rcases id hfound with ⟨rfl, hmem⟩ | ⟨hlo, hhi, -, -⟩
    · refine ⟨xs, ?_, hsorted, fun y => ?_⟩
      · rw [if_pos rfl, list_eq_entries, Uint16Sort.grow_vsize, hentries]
      · constructor
        · exact .inr
        · rintro (rfl | hy)
          · exact hmem
          · exact hy
    · obtain ⟨k, rfl⟩ := Int.eq_ofNat_of_zero_le hlo
      rw [if_neg (by omega)]
      refine ⟨xs.insertIdx k x, ?_, place_sorted hsorted hfound, fun y => ?_⟩
      · have hmoved : (fun i : Nat => if (k : Int) < i ∧ i ≤ psort.vsize then
            psort.grow.payload (i - 1) else psort.grow.payload i) =
            fun i => if k < i ∧ i ≤ psort.vsize then psort.grow.payload (i - 1)
              else psort.grow.payload i := by
          simp only [Nat.cast_lt]
        show Slots.entries (Function.update _ (k : Int).toNat _) (psort.grow.vsize + 1) = _
        rw [Uint16Sort.grow_vsize, hmoved, Int.toNat_natCast]
        exact (Slots.entries_insertAt _ _ (by omega)).trans (by rw [hentries, List.map_insertIdx])
      · exact List.mem_insertIdx (by omega)

section Plain

variable {a : List Nat} {value : Nat}

/-- The search stays in the array as long as the last number is not before the one looked for. -/
theorem uint16Search_inside (hlast : rtpSeqDistance (a.getD (a.length - 1) 0) value ≤ 0)
    (fuel : Nat) {low high : Int} (hlow : 0 ≤ low) (hin : low < a.length) (hhigh : high ≤ a.length)
    (hmeet : low ≤ high + 1) :
    uint16Search a value fuel low high = -1 ∧ value ∈ a ∨
      0 ≤ uint16Search a value fuel low high ∧ uint16Search a value fuel low high < a.length := by
  induction fuel generalizing low high with
  | zero => exact .inr ⟨hlow, hin⟩
  | succ fuel ih =>
    unfold uint16Search
    dsimp only
    split
    · rename_i hle
      obtain ⟨m, hm⟩ := Int.eq_ofNat_of_zero_le (show 0 ≤ (high + low) / 2 by omega)
      have hmid : m < a.length := by omega
      rw [hm, Int.toNat_natCast]
      split
      · rename_i heq
        rw [List.getD_eq_getElem?_getD, List.getElem?_eq_getElem hmid, Option.getD_some] at heq
        exact .inl ⟨rfl, heq ▸ List.getElem_mem hmid⟩
      · split
        · exact ih hlow hin (by omega) (by omega)
        · split
          · rename_i hafter
            have hnotLast : m ≠ a.length - 1 := by
              rintro rfl
              omega
            exact ih (by omega) (by omega) hhigh (by omega)
          · exact .inr ⟨by omega, by omega⟩
    · exact .inr ⟨hlow, hin⟩

/-- The number is looked up and found. -/
def Finds (a : List Nat) (value : Nat) : Prop :=
  a ≠ [] ∧ rtpSeqDistance (a.getD (a.length - 1) 0) value ≤ 0 ∧ getUint16Index a value = -1

instance (a : List Nat) (value : Nat) : Decidable (Finds a value) := by
  unfold Finds
  exact inferInstance

/-- A number that is not found is put into the array. -/
theorem insertUint16Sort_cases (a : List Nat) (value : Nat) :
    Finds a value ∧ value ∈ a ∧ insertUint16Sort a value = a ∨
      ¬ Finds a value ∧ ∃ k ≤ a.length, insertUint16Sort a value = a.insertIdx k value := by
  unfold insertUint16Sort
  split
  · rename_i hnone
    obtain rfl := List.length_eq_zero_iff.mp hnone
    exact .inr ⟨fun h => h.1 rfl, 0, Nat.le_refl 0, rfl⟩
  · rename_i hsome
    have hpos : 0 < a.length := Nat.pos_of_ne_zero hsome
    split
    · rename_i hafter
      refine .inr ⟨fun h => ?_, a.length, Nat.le_refl _, List.insertIdx_length_self.symm⟩
      have hbefore := h.2.1
      omega
    · rename_i hlast
      have hinside := uint16Search_inside (Int.not_lt.mp hlast) (a.length + 2) (Int.le_refl 0)
        (Int.natCast_pos.mpr hpos) (Int.le_refl _) (by omega)
      have hindex : getUint16Index a value = uint16Search a value (a.length + 2) 0 a.length := rfl
      rw [← hindex] at hinside
      dsimp only
      split
      · rename_i hfound
        obtain ⟨-, hmem⟩ | ⟨hlo, -⟩ := hinside
        · exact .inl ⟨⟨List.ne_nil_of_length_pos hpos, Int.not_lt.mp hlast, hfound⟩, hmem, rfl⟩
        · omega
      · rename_i hmissed
        obtain ⟨hfound, -⟩ | ⟨hlo, hhi⟩ := hinside
        · exact absurd hfound hmissed
        · exact .inr ⟨fun h => hmissed h.2.2, (getUint16Index a value).toNat, by omega, rfl⟩

theorem mem_insertUint16Sort {x : Nat} : x ∈ insertUint16Sort a value ↔ x = value ∨ x ∈ a := by
  obtain ⟨-, hmem, hsame⟩ | ⟨-, k, hk, hput⟩ := insertUint16Sort_cases a value
  · rw [hsame]
    constructor
    · exact .inr
    · rintro (rfl | hx)
      · exact hmem
      · exact hx
  · rw [hput, List.mem_insertIdx hk]

theorem mem_foldl_insert {values : List Nat} {x : Nat} :
    x ∈ values.foldl insertUint16Sort a ↔ x ∈ a ∨ x ∈ values := by
  induction values generalizing a with
  | nil => simp
  | cons value values ih =>
    rw [List.foldl_cons, ih, mem_insertUint16Sort, List.mem_cons]
    tauto

/-- A number is in the array twice only if it was not found when it came again. -/
theorem insertUint16Sort_nodup :
    (insertUint16Sort a value).Nodup ↔ a.Nodup ∧ (value ∈ a → Finds a value) := by
  obtain ⟨hfinds, -, hsame⟩ | ⟨hmissed, k, hk, hput⟩ := insertUint16Sort_cases a value
  · rw [hsame]
    exact ⟨fun h => ⟨h, fun _ => hfinds⟩, And.left⟩
  · rw [hput, (List.perm_insertIdx value a hk).nodup_iff, List.nodup_cons]
    constructor
    · rintro ⟨hnew, hnodup⟩
      exact ⟨hnodup, fun hmem => absurd hmem hnew⟩
    · rintro ⟨hnodup, hfinds⟩
      exact ⟨fun hmem => hmissed (hfinds hmem), hnodup⟩

/-- In a sorted array of numbers near the one inserted, that one gets to its place. -/
theorem insertUint16Sort_sorted {xs : List Int} {x : Int} (hsorted : xs.Pairwise (· < ·))
    (hnear : ∀ y ∈ xs, x - 32768 < y ∧ y < x + 32768) :
    (x ∈ xs → Finds (xs.map wrap) (wrap x)) ∧
      ∃ ys : List Int, insertUint16Sort (xs.map wrap) (wrap x) = ys.map wrap ∧
        ys.Pairwise (· < ·) ∧ ∀ y, y ∈ ys ↔ y = x ∨ y ∈ xs := by
  by_cases hnone : xs = []
  · subst hnone
    exact ⟨fun h => (nomatch h), [x], rfl, List.pairwise_singleton _ _, by simp⟩
  have hpos : xs.length - 1 < xs.length := by
    have := List.length_pos_of_ne_nil hnone
    omega
  have hget : ∀ i, ∀ h : i < xs.length, (xs.map wrap).getD i 0 = wrap xs[i] := by
    intro i hi
    rw [List.getD_eq_getElem?_getD, List.getElem?_map, List.getElem?_eq_getElem hi]
    rfl
  obtain ⟨hn1, hn2⟩ := hnear _ (List.getElem_mem hpos)
  have hdist : rtpSeqDistance ((xs.map wrap).getD ((xs.map wrap).length - 1) 0) (wrap x) =
      x - xs[xs.length - 1] := by
    rw [List.length_map, hget _ hpos]
    exact rtpSeqDistance_wrap (by omega) (by omega)
  have hsome : (xs.map wrap).length ≠ 0 := by
    rw [List.length_map]
    omega
  unfold insertUint16Sort Finds
  rw [if_neg hsome, hdist]
  by_cases hafter : x - xs[xs.length - 1] > 0
  · have happended := append_sorted hsorted fun _ => show xs[xs.length - 1] < x by omega
    refine ⟨fun hx => ?_, xs ++ [x], ?_, happended, by simp [or_comm]⟩
    · have hlt := (List.pairwise_append.mp happended).2.2 x hx x (by simp)
      omega
    · rw [if_pos hafter, List.map_append]
      rfl
  · have hs : Searched (xs.map wrap) xs x := ⟨hget, hsorted, hnear, by omega, by omega⟩
    have hfound : FoundAt xs x (getUint16Index (xs.map wrap) (wrap x)) := by
      unfold getUint16Index
      rw [List.length_map]
      exact uint16Search_found hs _ (by omega) (by omega) (by omega) (by omega) (by omega)
        (by omega)
    generalize getUint16Index (xs.map wrap) (wrap x) = index at hfound
    rw [if_neg hafter]
    rcases id hfound with ⟨rfl, hmem⟩ | ⟨hlo, hhi, hbelow, habove⟩
    · refine ⟨fun _ => ⟨by simpa using hnone, by omega, rfl⟩, xs, rfl, hsorted, fun y => ?_⟩
      constructor
      · exact .inr
      · rintro (rfl | hy)
        · exact hmem
        · exact hy
    · obtain ⟨k, rfl⟩ := Int.eq_ofNat_of_zero_le hlo
      dsimp only
      rw [if_neg (by omega)]
      refine ⟨fun hx => ?_, xs.insertIdx k x, ?_, place_sorted hsorted hfound, fun y =>
        List.mem_insertIdx (by omega)⟩
      · -- a number that is there is neither below the place nor above it
        obtain ⟨i, hi, rfl⟩ := List.getElem_of_mem hx
        rcases Nat.lt_or_ge i k with hik | hik
        · exact absurd (hbelow i hi (by omega)) (Int.lt_irrefl _)
        · exact absurd (habove i hi (by omega)) (Int.lt_irrefl _)
      · rw [Int.toNat_natCast, List.map_insertIdx]

end Plain

end MetaRtc
