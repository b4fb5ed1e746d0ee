import MetaRtc.Rtcp.Twcc

/-! # What the chunks of a feedback message stand for

A chunk is a run of one symbol, a vector of fourteen symbols of one bit, or one of seven
symbols of two bits. -/
namespace MetaRtc

def chunkSymbols (chunk : Nat) : List Nat :=
  if chunk.testBit 15 = false then List.replicate (chunk % 8192) (chunk / 8192 % 4)
  else if chunk.testBit 14 = false then
    (List.range 14).map fun i => (chunk.testBit (13 - i)).toNat
  else
    (List.range 7).map fun i =>
      2 * (chunk.testBit (13 - 2 * i)).toNat + (chunk.testBit (12 - 2 * i)).toNat

/-- The chunk being filled holds these symbols. A long one is a run, or has symbols of one
bit only. -/
structure Holds (chunk : RtcpTWCCChunk) (syms : List Nat) : Prop where
  size : chunk.size = syms.length
  sizes : ∀ i, ∀ h : i < syms.length, i < 14 → chunk.deltaSizes i = syms[i]
  same : chunk.allSame = true ↔ ∀ x ∈ syms, x = chunk.deltaSizes 0
  large : chunk.hasLargeDelta = true ↔ 2 ∈ syms
  symbol : ∀ x ∈ syms, x < 3
  long : 7 < syms.length → syms.length ≤ 8191 ∧
    (chunk.allSame = true ∨ syms.length ≤ 14 ∧ chunk.hasLargeDelta = false)

theorem testBit_foldl_or {f : Nat → Nat} {l : List Nat} {init j : Nat} :
    (l.foldl (fun e i => e ||| f i) init).testBit j = true ↔
      init.testBit j = true ∨ ∃ i ∈ l, (f i).testBit j = true := by
  induction l generalizing init with
  | nil => simp
  | cons i l ih =>
    simp [ih, or_assoc]

/-- The bits of a vector of symbols of `w` bits each, under the bits of its kind. -/
theorem testBit_vector (shift : Nat → Nat) (kind w : Nat) {f : Nat → Nat} {n j : Nat}
    (hj : j < 16) (hf : ∀ i < n, f i < 2 ^ w) :
    (((List.range n).foldl (fun e i => e ||| f i <<< shift i) kind) % 65536).testBit j = true ↔
      kind.testBit j = true ∨
        ∃ i < n, ∃ b < w, j = shift i + b ∧ (f i).testBit b = true := by
  have hmod : ∀ v : Nat, (v % 65536).testBit j = v.testBit j := by
    intro v
    rw [show 65536 = 2 ^ 16 from rfl, Nat.testBit_mod_two_pow]
    simp [hj]
  rw [hmod, testBit_foldl_or]
  refine or_congr_right ?_
  simp only [List.mem_range, Nat.testBit_shiftLeft, Bool.and_eq_true, decide_eq_true_eq]
  constructor
  · rintro ⟨i, hi, hle, hbit⟩
    refine ⟨i, hi, j - shift i, ?_, by omega, hbit⟩
    by_contra hw
    rw [Nat.testBit_lt_two_pow (Nat.lt_of_lt_of_le (hf i hi)
      (Nat.pow_le_pow_right (by omega) (by omega)))] at hbit
    cases hbit
  · rintro ⟨i, hi, b, hb, rfl, hbit⟩
    exact ⟨i, hi, by omega, by rwa [Nat.add_sub_cancel_left]⟩

/-- A run of one symbol. -/
theorem chunkSymbols_run {d n : Nat} (hd : d < 4) (hn : n < 8192) :
    chunkSymbols ((d <<< 13 ||| n) % 65536) = List.replicate n d := by
  have hword : d <<< 13 ||| n = d * 8192 + n := by
    rw [← Nat.shiftLeft_add_eq_or_of_lt (by simpa using hn), Nat.shiftLeft_eq]
  have h15 : ((d * 8192 + n) % 65536).testBit 15 = false :=
    Nat.testBit_lt_two_pow (by omega)
  unfold chunkSymbols
  rw [hword, if_pos h15]
  congr 1 <;> omega

theorem toNat_eq_symbol {p : Bool} {d : Nat} (hd : d < 2) (h : p = true ↔ d = 1) :
    p.toNat = d := by
  cases p
  · have : d ≠ 1 := fun h1 => Bool.false_ne_true (h.mpr h1)
    simp
    omega
  · simpa using (h.mp rfl).symm

theorem symbols_ext {f g : Nat → Nat} {m n : Nat} (hn : n ≤ m) (hin : ∀ i < n, g i = f i)
    (hout : ∀ i < m, n ≤ i → g i = 0) :
    (List.range m).map g = (List.range n).map f ++ List.replicate (m - n) 0 := by
  apply List.ext_getElem
  · simp
    omega
  · intro i h1 h2
    simp only [List.length_map, List.length_range] at h1
    rw [List.getElem_map, List.getElem_range]
    by_cases hi : i < n
    · rw [List.getElem_append_left (by simpa using hi), List.getElem_map, List.getElem_range]
      exact hin i hi
    · rw [List.getElem_append_right (by simpa using hi), List.getElem_replicate]
      exact hout i h1 (by omega)

/-- A vector of symbols of one bit. -/
theorem chunkSymbols_oneBit {f : Nat → Nat} {n : Nat} (hn : n ≤ 14) (hf : ∀ i < n, f i < 2) :
    chunkSymbols (((List.range n).foldl (fun e i => e ||| f i <<< (14 - 1 - i)) 0x8000) % 65536) =
      (List.range n).map f ++ List.replicate (14 - n) 0 := by
  have hbit := fun j (hj : j < 16) =>
    testBit_vector (fun i => 14 - 1 - i) 0x8000 1 hj hf
  generalize ((List.range n).foldl (fun e i => e ||| f i <<< (14 - 1 - i)) 0x8000) % 65536 = word
    at hbit ⊢
  have h15 : word.testBit 15 = true := (hbit 15 (by omega)).mpr (.inl rfl)
  have h14 : word.testBit 14 = false := by
    rw [← Bool.not_eq_true, hbit 14 (by omega)]
    rintro (h | ⟨i, _, b, _, h, _⟩)
    · revert h
      decide
    · omega
  have hsymbol : ∀ i < 14, (word.testBit (13 - i) = true ↔ i < n ∧ f i = 1) := by
    intro i hi
    rw [hbit _ (by omega)]
    constructor
    · rintro (h | ⟨k, hk, b, hb, h, hfk⟩)
      · exact absurd h (Bool.eq_false_iff.mp (Nat.testBit_two_pow_of_ne (n := 15) (by omega)))
      · obtain ⟨rfl, rfl⟩ : k = i ∧ b = 0 := by omega
        have := hf k hk
        rw [Nat.testBit_zero, decide_eq_true_eq] at hfk
        omega
    · rintro ⟨hin, h1⟩
      exact .inr ⟨i, hin, 0, by omega, by omega, by rw [h1]; rfl⟩
  unfold chunkSymbols
  rw [if_neg (by simp [h15]), if_pos h14]
  refine symbols_ext hn (fun i hi => ?_) fun i hi hni => ?_
  · refine toNat_eq_symbol (hf i hi) ?_
    rw [hsymbol i (by omega)]
    exact ⟨And.right, fun h => ⟨hi, h⟩⟩
  · refine toNat_eq_symbol (by omega) ?_
    rw [hsymbol i hi]
    omega

/-- A vector of symbols of two bits. -/
theorem chunkSymbols_twoBit {f : Nat → Nat} {n : Nat} (hn : n ≤ 7) (hf : ∀ i < n, f i < 4) :
    chunkSymbols (((List.range n).foldl (fun e i => e ||| f i <<< (2 * (7 - 1 - i))) 0xc000) %
      65536) = (List.range n).map f ++ List.replicate (7 - n) 0 := by
  have hbit := fun j (hj : j < 16) =>
    testBit_vector (fun i => 2 * (7 - 1 - i)) 0xc000 2 hj hf
  generalize ((List.range n).foldl (fun e i => e ||| f i <<< (2 * (7 - 1 - i))) 0xc000) % 65536 =
    word at hbit ⊢
  have h15 : word.testBit 15 = true := (hbit 15 (by omega)).mpr (.inl rfl)
  have h14 : word.testBit 14 = true := (hbit 14 (by omega)).mpr (.inl rfl)
  have hkind : ∀ j < 14, Nat.testBit 0xc000 j = false := by decide
  have hsymbol : ∀ i < 7, ∀ b < 2,
      word.testBit (12 - 2 * i + b) = (decide (i < n) && (f i).testBit b) := by
    intro i hi b hb
    rw [Bool.eq_iff_iff, hbit _ (by omega), Bool.and_eq_true, decide_eq_true_eq]
    constructor
    · rintro (h | ⟨k, hk, c, hc, h, hfk⟩)
      · rw [hkind _ (by omega)] at h
        cases h
      · obtain ⟨rfl, rfl⟩ : k = i ∧ c = b := by omega
        exact ⟨hk, hfk⟩
    · rintro ⟨hin, h1⟩
      exact .inr ⟨i, hin, b, hb, by omega, h1⟩
  have htwo : ∀ d < 4, 2 * (Nat.testBit d 1).toNat + (Nat.testBit d 0).toNat = d := by decide
  unfold chunkSymbols
  rw [if_neg (by simp [h15]), if_neg (by simp [h14])]
  refine symbols_ext hn (fun i hi => ?_) fun i hi hni => ?_
  · have h1 := hsymbol i (by omega) 1 (by omega)
    have h0 := hsymbol i (by omega) 0 (by omega)
    rw [show 12 - 2 * i + 1 = 13 - 2 * i by omega] at h1
    simp only [hi, decide_true, Bool.true_and, Nat.add_zero] at h1 h0
    rw [h1, h0]
    exact htwo _ (hf i hi)
  · have h1 := hsymbol i hi 1 (by omega)
    have h0 := hsymbol i hi 0 (by omega)
    rw [show 12 - 2 * i + 1 = 13 - 2 * i by omega] at h1
    have hout : ¬ i < n := by omega
    simp only [hout, decide_false, Bool.false_and, Nat.add_zero] at h1 h0
    rw [h1, h0]
    rfl

section Holding

variable {chunk : RtcpTWCCChunk} {syms : List Nat} {d : Nat}

theorem Holds.reset (chunk : RtcpTWCCChunk) : Holds (twccResetChunk chunk) [] := by
  constructor <;> simp [twccResetChunk]

theorem Holds.deltaSizes_zero (h : Holds chunk syms) (hne : syms ≠ []) :
    chunk.deltaSizes 0 ∈ syms := by
  have hpos := List.length_pos_iff.mpr hne
  rw [h.sizes 0 hpos (by omega)]
  exact List.getElem_mem hpos

theorem Holds.run_of (h : Holds chunk syms) (hne : syms ≠ []) :
    (chunk.allSame = true ∧ chunk.deltaSizes 0 = d) ↔ ∀ x ∈ syms, x = d := by
  rw [h.same]
  constructor
  · rintro ⟨hall, rfl⟩
    exact hall
  · intro hall
    have h0 := hall _ (h.deltaSizes_zero hne)
    exact ⟨fun x hx => (hall x hx).trans h0.symm, h0⟩

theorem canAddToChunk_iff (h : Holds chunk syms) :
    twccCanAddToChunk chunk d = true ↔ syms.length < 7 ∨ syms.length < 14 ∧ 2 ∉ syms ∧ d ≠ 2 ∨
      syms.length < 8191 ∧ ∀ x ∈ syms, x = d := by
  have hlarge : chunk.hasLargeDelta = false ↔ 2 ∉ syms := by
    rw [← h.large, Bool.not_eq_true]
  unfold twccCanAddToChunk kTwccFbTwoBitElements kTwccFbOneBitElements kTwccFbLargeRecvDeltaBytes
    kTwccFbMaxRunLength
  rw [h.size, ← hlarge]
  by_cases hshort : syms.length < 7
  · simp [hshort]
  · have hne : syms ≠ [] := by
      rintro rfl
      simp at hshort
    rw [if_neg hshort, ← h.run_of hne]
    by_cases hone : syms.length < 14 ∧ chunk.hasLargeDelta = false ∧ d ≠ 2
    · simp [hone]
    · simp [hone, hshort, and_assoc]

theorem Holds.add (h : Holds chunk syms) (hd : d < 3) (hcan : twccCanAddToChunk chunk d = true) :
    Holds (twccAddToChunk chunk d) (syms ++ [d]) := by
  rw [canAddToChunk_iff h] at hcan
  have hlen : syms.length < 8191 := by omega
  have hnew : ∀ i, i < syms.length → i < 14 → (twccAddToChunk chunk d).deltaSizes i =
      chunk.deltaSizes i := by
    intro i hi h14
    unfold twccAddToChunk
    dsimp only
    split
    · exact Function.update_of_ne (by rw [h.size]; omega) _ _
    · rfl
  have hlast : syms.length < 14 → (twccAddToChunk chunk d).deltaSizes syms.length = d := by
    intro h14
    unfold twccAddToChunk kTwccFbMaxBitElements kTwccFbOneBitElements
    simp only [h.size, h14, if_true]
    exact Function.update_self _ _ _
  have hsame : (twccAddToChunk chunk d).allSame = true ↔
      ∀ x ∈ syms ++ [d], x = (twccAddToChunk chunk d).deltaSizes 0 := by
    have hval : (twccAddToChunk chunk d).allSame = (chunk.allSame &&
        decide (d = (twccAddToChunk chunk d).deltaSizes 0)) := rfl
    rw [hval, Bool.and_eq_true, h.same, decide_eq_true_eq]
    simp only [List.mem_append, List.mem_singleton, or_imp, forall_and, forall_eq]
    refine and_congr_left fun _ => ?_
    cases syms with
    | nil => simp
    | cons x xs => rw [hnew 0 (by simp) (by omega)]
  have hlarge : (twccAddToChunk chunk d).hasLargeDelta = true ↔ 2 ∈ syms ++ [d] := by
    unfold twccAddToChunk kTwccFbLargeRecvDeltaBytes
    simp only [Bool.or_eq_true, decide_eq_true_eq, h.large, List.mem_append, List.mem_singleton]
    refine or_congr_right ?_
    omega
  constructor
  · simp only [twccAddToChunk, h.size, List.length_append, List.length_singleton]
    omega
  · intro i hi h14
    rw [List.length_append, List.length_singleton] at hi
    by_cases hil : i < syms.length
    · rw [List.getElem_append_left hil, hnew i hil h14, h.sizes i hil h14]
    · obtain rfl : i = syms.length := by omega
      rw [hlast h14]
      simp
  · exact hsame
  · exact hlarge
  · intro x hx
    rcases List.mem_append.mp hx with hx | hx
    · exact h.symbol x hx
    · rw [List.mem_singleton.mp hx]
      exact hd
  · intro hlong
    rw [List.length_append, List.length_singleton] at hlong ⊢
    refine ⟨by omega, ?_⟩
    rcases hcan with hshort | ⟨h14, hno, hd2⟩ | ⟨_, hall⟩
    · omega
    · refine .inr ⟨by omega, ?_⟩
      rw [← Bool.not_eq_true, hlarge]
      simp [hno, Ne.symm hd2]
    · refine .inl (hsame.mpr ?_)
      have hne : syms ≠ [] := by
        rintro rfl
        simp at hlong
      rw [hnew 0 (List.length_pos_iff.mpr hne) (by omega), ((h.run_of hne).mpr hall).2]
      simpa [or_imp, forall_and] using hall

theorem Holds.encodeRun (h : Holds chunk syms) (hsame : chunk.allSame = true) (hne : syms ≠ [])
    (twcc : RecvTwccFeedback) : ∃ word,
      twccEncodeChunkRunLength twcc chunk = (yangOk, twcc.insertChunk word) ∧
      chunkSymbols (word % 65536) = syms := by
  have hlen : syms.length ≤ 8191 := by
    by_cases hlong : 7 < syms.length
    · exact (h.long hlong).1
    · omega
  refine ⟨chunk.deltaSizes 0 <<< 13 ||| chunk.size, ?_, ?_⟩
  · unfold twccEncodeChunkRunLength kTwccFbMaxRunLength
    rw [if_neg (by rw [hsame, h.size]; simp; omega)]
  · have hd := h.symbol _ (h.deltaSizes_zero hne)
    rw [h.size, chunkSymbols_run (by omega) (by omega)]
    exact (List.eq_replicate_iff.mpr ⟨rfl, h.same.mp hsame⟩).symm

theorem Holds.map_deltaSizes (h : Holds chunk syms) {n : Nat} (hn : n ≤ syms.length)
    (h14 : n ≤ 14) : (List.range n).map chunk.deltaSizes = syms.take n := by
  apply List.ext_getElem
  · simp
    omega
  · intro i h1 h2
    simp only [List.length_map, List.length_range] at h1
    rw [List.getElem_map, List.getElem_range, List.getElem_take]
    exact h.sizes i (by omega) (by omega)

theorem Holds.symbol_at (h : Holds chunk syms) {i : Nat} (hi : i < syms.length) (h14 : i < 14) :
    chunk.deltaSizes i ∈ syms := by
  rw [h.sizes i hi h14]
  exact List.getElem_mem hi

theorem Holds.encodeOneBit (h : Holds chunk syms) (hlarge : chunk.hasLargeDelta = false)
    (hlen : syms.length ≤ 14) (twcc : RecvTwccFeedback) : ∃ word,
      twccEncodeChunkOneBit twcc chunk = (yangOk, twcc.insertChunk word) ∧
      chunkSymbols (word % 65536) = syms ++ List.replicate (14 - syms.length) 0 := by
  have hsmall : ∀ i < syms.length, chunk.deltaSizes i < 2 := by
    intro i hi
    have hmem := h.symbol_at hi (by omega)
    have hlt := h.symbol _ hmem
    have h2 : chunk.deltaSizes i ≠ 2 := by
      intro heq
      rw [heq, ← h.large, hlarge] at hmem
      cases hmem
    omega
  refine ⟨_, if_neg (by simp [hlarge]), ?_⟩
  rw [h.size]
  refine (chunkSymbols_oneBit hlen hsmall).trans ?_
  rw [h.map_deltaSizes (Nat.le_refl _) hlen, List.take_length]

theorem Holds.twoBit (h : Holds chunk syms) {n : Nat} (hn : n ≤ syms.length) (h7 : n ≤ 7)
    (twcc : RecvTwccFeedback) (shift : Bool) : ∃ word,
      (twccEncodeChunkTwoBit twcc chunk n shift).1 = twcc.insertChunk word ∧
      chunkSymbols (word % 65536) = syms.take n ++ List.replicate (7 - n) 0 := by
  have hsmall : ∀ i < n, chunk.deltaSizes i < 4 := by
    intro i hi
    have := h.symbol _ (h.symbol_at (i := i) (by omega) (by omega))
    omega
  refine ⟨(List.range n).foldl (fun encoded i =>
    encoded ||| chunk.deltaSizes i <<< (2 * (kTwccFbTwoBitElements - 1 - i))) 0xc000, ?_, ?_⟩
  · unfold twccEncodeChunkTwoBit
    cases shift <;> rfl
  · refine (chunkSymbols_twoBit h7 hsmall).trans ?_
    rw [h.map_deltaSizes hn (by omega)]

theorem Holds.shifted (h : Holds chunk syms) {n : Nat} (hn : n ≤ syms.length)
    (hlen : syms.length ≤ 14) (hrest : syms.length - n ≤ 7) (twcc : RecvTwccFeedback) :
    Holds (twccEncodeChunkTwoBit twcc chunk n true).2 (syms.drop n) := by
  have hsizes : ∀ i, ∀ hi : i < (syms.drop n).length,
      (twccEncodeChunkTwoBit twcc chunk n true).2.deltaSizes i = (syms.drop n)[i] := by
    intro i hi
    rw [List.length_drop] at hi
    unfold twccEncodeChunkTwoBit
    simp only [if_true]
    rw [if_pos (by rw [h.size]; omega), List.getElem_drop, h.sizes (i + n) (by omega) (by omega)]
    congr 1
    omega
  have hmem : ∀ p : Nat → Prop, (∀ x ∈ syms.drop n, p x) ↔ ∀ i < chunk.size - n,
      p ((twccEncodeChunkTwoBit twcc chunk n true).2.deltaSizes i) := by
    intro p
    rw [List.forall_mem_iff_getElem, h.size]
    constructor
    · intro hp i hi
      rw [hsizes i (by rwa [List.length_drop])]
      exact hp i (by rwa [List.length_drop])
    · intro hp i hi
      rw [← hsizes i hi]
      exact hp i (by rwa [List.length_drop] at hi)
  constructor
  · rw [List.length_drop, ← h.size]
    rfl
  · exact fun i hi _ => hsizes i hi
  · rw [hmem]
    show ((List.range (chunk.size - n)).all _) = true ↔ _
    rw [List.all_eq_true]
    simp only [List.mem_range, decide_eq_true_eq]
    rfl
  · rw [← not_iff_not, Bool.not_eq_true]
    have hno : 2 ∉ syms.drop n ↔ ∀ x ∈ syms.drop n, x ≠ 2 :=
      ⟨fun hn x hx hx2 => hn (hx2 ▸ hx), fun hall hm => hall 2 hm rfl⟩
    rw [hno, hmem]
    show ((List.range (chunk.size - n)).any _) = false ↔ _
    rw [List.any_eq_false]
    simp only [List.mem_range, decide_eq_true_eq]
    rfl
  · exact fun x hx => h.symbol x (List.mem_of_mem_drop hx)
  · rw [List.length_drop]
    omega

/-- Where a symbol cannot be added, a chunk is put away with the first symbols held, and the
ones left are fewer than seven. -/
theorem Holds.close (h : Holds chunk syms) (hd : d < 3) (hcan : ¬ twccCanAddToChunk chunk d = true)
    (twcc : RecvTwccFeedback) : ∃ word taken rest chunk',
      twccEncodeChunk twcc chunk = (yangOk, twcc.insertChunk word, chunk') ∧
      chunkSymbols (word % 65536) = taken ∧ syms = taken ++ rest ∧ Holds chunk' rest ∧
      rest.length < 7 := by
  have hcan' := mt (canAddToChunk_iff h).mpr hcan
  push Not at hcan'
  obtain ⟨h7, hone, hrun⟩ := hcan'
  have hne : syms ≠ [] := by
    rintro rfl
    simp at h7
  have hopen : ¬ (twccCanAddToChunk chunk 0 = true ∧ twccCanAddToChunk chunk 1 = true ∧
      twccCanAddToChunk chunk 2 = true) := by
    rintro ⟨h0, h1, h2⟩
    have : d = 0 ∨ d = 1 ∨ d = 2 := by omega
    rcases this with rfl | rfl | rfl <;> contradiction
  unfold twccEncodeChunk
  rw [if_neg hopen]
  cases hsame : chunk.allSame with
  | true =>
    obtain ⟨word, henc, hword⟩ := h.encodeRun hsame hne twcc
    refine ⟨word, syms, [], twccResetChunk chunk, ?_, hword, by simp, .reset chunk, by simp⟩
    simp [henc]
  | false =>
    have hlong : syms.length ≠ 7 → syms.length ≤ 14 ∧ chunk.hasLargeDelta = false := by
      intro hlen
      exact (h.long (by omega)).2.resolve_left (by simp [hsame])
    rw [if_neg (by simp)]
    unfold kTwccFbOneBitElements
    by_cases h14 : syms.length = 14
    · obtain ⟨word, henc, hword⟩ := h.encodeOneBit (hlong (by omega)).2 (by omega) twcc
      rw [h14, Nat.sub_self, List.replicate_zero, List.append_nil] at hword
      refine ⟨word, syms, [], twccResetChunk chunk, ?_, hword, by simp, .reset chunk, by simp⟩
      simp [henc, h.size, h14]
    · have hlen : syms.length < 14 := by
        by_cases heq : syms.length = 7
        · omega
        · have := (hlong heq).1
          omega
      obtain ⟨word, henc, hword⟩ := h.twoBit (n := 7) h7 (by omega) twcc true
      rw [Nat.sub_self, List.replicate_zero, List.append_nil] at hword
      refine ⟨word, syms.take 7, syms.drop 7, _, ?_, hword, (List.take_append_drop 7 syms).symm,
        h.shifted h7 (by omega) (by omega) twcc, by rw [List.length_drop]; omega⟩
      rw [if_neg (by rw [h.size]; exact h14), ← henc]
      rfl

/-- The last chunk may have room for symbols that do not follow any more. -/
theorem Holds.remaining (h : Holds chunk syms) (hne : syms ≠ []) (twcc : RecvTwccFeedback) :
    ∃ word k, k < 7 ∧ twccEncodeRemainingChunk twcc chunk = (yangOk, twcc.insertChunk word) ∧
      chunkSymbols (word % 65536) = syms ++ List.replicate k 0 := by
  have hpos := List.length_pos_of_ne_nil hne
  unfold twccEncodeRemainingChunk
  cases hsame : chunk.allSame with
  | true =>
    obtain ⟨word, henc, hword⟩ := h.encodeRun hsame hne twcc
    exact ⟨word, 0, by decide, by simpa using henc, by simpa using hword⟩
  | false =>
    rw [if_neg (by simp), h.size]
    unfold kTwccFbTwoBitElements
    split
    · rename_i h7
      obtain ⟨word, henc, hword⟩ := h.twoBit (Nat.le_refl _) h7 twcc false
      rw [List.take_length] at hword
      exact ⟨word, 7 - syms.length, by omega, by rw [← henc], hword⟩
    · rename_i h7
      obtain ⟨hlen, hlarge⟩ := (h.long (by omega)).2.resolve_left (by simp [hsame])
      obtain ⟨word, henc, hword⟩ := h.encodeOneBit hlarge hlen twcc
      exact ⟨word, 14 - syms.length, by omega, henc, hword⟩

end Holding

/-- There is room for one more symbol. -/
def HasRoom (twcc : RecvTwccFeedback) (chunk : RtcpTWCCChunk) (deltaSize : Nat) : Prop :=
  twcc.pktLen + (if chunk.size = 0 then kTwccFbChunkBytes else 0) + deltaSize ≤ kRtcpPacketSize

instance (twcc : RecvTwccFeedback) (chunk : RtcpTWCCChunk) (deltaSize : Nat) :
    Decidable (HasRoom twcc chunk deltaSize) := by
  unfold HasRoom
  exact inferInstance

/-- The chunks put away and the one being filled stand for these symbols. -/
def Packed (chucks : List Nat) (chunk : RtcpTWCCChunk) (syms : List Nat) : Prop :=
  ∃ held, chucks.flatMap chunkSymbols ++ held = syms ∧ Holds chunk held

def RecvTwccFeedback.insertChunks (twcc : RecvTwccFeedback) (chucks : List Nat) :
    RecvTwccFeedback :=
  { twcc with
    encodedChucks := twcc.encodedChucks ++ chucks
    pktLen := twcc.pktLen + chucks.length * kTwccFbChunkBytes }

/-- While there is room a symbol is packed without error. -/
theorem Packed.process {twcc : RecvTwccFeedback} {chunk : RtcpTWCCChunk} {syms : List Nat}
    {d : Nat} (h : Packed twcc.encodedChucks chunk syms) (hd : d < 3) (hroom : HasRoom twcc chunk d) :
    ∃ chucks chunk', twccProcessPktChunk twcc chunk d = (yangOk, twcc.insertChunks chucks, chunk') ∧
      (∀ c ∈ chucks, c < 65536) ∧ Packed (twcc.encodedChucks ++ chucks) chunk' (syms ++ [d]) := by
  obtain ⟨held, rfl, hheld⟩ := h
  unfold twccProcessPktChunk
  rw [if_neg (by unfold HasRoom at hroom; omega)]
  split
  · rename_i hcan
    refine ⟨[], twccAddToChunk chunk d, ?_, by simp, held ++ [d], by simp, hheld.add hd hcan⟩
    simp [RecvTwccFeedback.insertChunks]
  · rename_i hcan
    obtain ⟨word, taken, rest, chunk', henc, hword, rfl, hrest, hlen⟩ := hheld.close hd hcan twcc
    have hcan' : twccCanAddToChunk chunk' d = true := (canAddToChunk_iff hrest).mpr (.inl hlen)
    refine ⟨[word % 65536], twccAddToChunk chunk' d, ?_, ?_, rest ++ [d], ?_, hrest.add hd hcan'⟩
    · rw [henc]
      rfl
    · simp
      omega
    · simp [hword]

end MetaRtc
