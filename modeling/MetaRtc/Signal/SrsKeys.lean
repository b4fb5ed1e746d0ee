import MetaRtc.Signal.SrsText

/-! # Keys in the answer of an SRS server -/
namespace MetaRtc

open Exec Bytes Tokens Occurrences JsonText

def Keyless (t : CStr) : Prop := ∀ key : SrsKey, ¬key.word <:+: t

def isLower (b : UInt8) : Bool := 97 ≤ b && b ≤ 122

/-- No letter, quote and colon in a row, as they end a key. -/
def Unended (t : CStr) : Prop := ∀ c, isLower c = true → ¬[c, quote, colon] <:+: t

section Keyless

variable {key : SrsKey} {s t xs ys : CStr} {c : UInt8}

theorem Keyless.of_infix (h : Keyless t) (hs : s <:+: t) : Keyless s :=
  fun key hkey => h key (hkey.trans hs)

theorem Unended.of_infix (h : Unended t) (hs : s <:+: t) : Unended s :=
  fun c hc hin => h c hc (hin.trans hs)

theorem unended_nil : Unended [] := by
  intro c _ h
  simp at h

theorem unended_cons :
    Unended (c :: t) ↔ (isLower c = true → ¬[quote, colon] <+: t) ∧ Unended t := by
  constructor
  · intro h
    exact ⟨fun hc hp => h c hc (List.cons_prefix_cons.mpr ⟨rfl, hp⟩).isInfix,
      h.of_infix (List.suffix_cons c t).isInfix⟩
  · rintro ⟨hc, ht⟩ d hd hin
    rcases List.infix_cons_iff.mp hin with hp | hin
    · obtain ⟨rfl, hcolon⟩ := List.cons_prefix_cons.mp hp
      exact hc hd hcolon
    · exact ht d hd hin

/-- What has no quote adds nothing. -/
theorem unended_free (hxs : quote ∉ xs) (ht : ¬[quote, colon] <+: t) :
    Unended (xs ++ t) ↔ Unended t := by
  induction xs with
  | nil => rfl
  | cons x xs ih =>
    obtain ⟨-, hfree⟩ := not_or.mp (mt List.mem_cons.mpr hxs)
    have hnot : ¬[quote, colon] <+: xs ++ t := by
      cases xs with
      | nil => exact ht
      | cons y ys => exact fun h => hfree (by simp [(List.cons_prefix_cons.mp h).1])
    rw [List.cons_append, unended_cons, ih hfree]
    simp [hnot]

theorem unended_high (hxs : ∀ b ∈ xs, isLower b = false) : Unended (xs ++ t) ↔ Unended t := by
  induction xs with
  | nil => rfl
  | cons x xs ih =>
    obtain ⟨hx, hrest⟩ := List.forall_mem_cons.mp hxs
    rw [List.cons_append, unended_cons, ih hrest, hx]
    simp

theorem ws_high (h : ∀ b ∈ xs, isWs b = true) : ∀ b ∈ xs, isLower b = false := by
  intro b hb
  have hws := h b hb
  simp only [isWs, Bool.or_eq_true, beq_iff_eq] at hws
  rcases hws with ((rfl | rfl) | rfl) | rfl <;> rfl

/-- A key has such an end. -/
theorem Unended.keyless (h : Unended t) : Keyless t := by
  intro key hkey
  have hend : ∃ c, isLower c = true ∧ [c, quote, colon] <:+: key.word := by
    cases key
    · exact ⟨101, by decide, quote :: lit "cod", [], by decide⟩
    · exact ⟨114, by decide, quote :: lit "serve", [], by decide⟩
    · exact ⟨100, by decide, quote :: lit "sessioni", [], by decide⟩
    · exact ⟨112, by decide, quote :: lit "sd", [], by decide⟩
  obtain ⟨c, hc, hword⟩ := hend
  exact h c hc (hword.trans hkey)

theorem keyless_free (h : quote ∉ t) : Keyless t :=
  fun _ hkey => h (hkey.subset List.mem_cons_self)

theorem ws_not_mem_word (h : isWs c = true) (key : SrsKey) : c ∉ key.word := by
  have hall : ∀ b ∈ key.word, isWs b = false := by cases key <;> decide
  intro hmem
  exact absurd h (by rw [hall c hmem]; decide)

theorem keyless_sep (hc : isWs c = true) (hxs : Keyless xs) (hys : Keyless ys) :
    Keyless (xs ++ c :: ys) := by
  intro key h
  exact (infix_append_sep (ws_not_mem_word hc key) h).elim (hxs key) (hys key)

theorem unended_ws (h : ∀ b ∈ xs, isWs b = true) : Unended xs := by
  have hxs := (unended_high (t := []) (ws_high h)).mpr unended_nil
  rwa [List.append_nil] at hxs

theorem keyless_ws (hxs : Keyless xs) (hys : ∀ b ∈ ys, isWs b = true) : Keyless (xs ++ ys) := by
  cases ys with
  | nil => rwa [List.append_nil]
  | cons y ys =>
    obtain ⟨hy, hys⟩ := List.forall_mem_cons.mp hys
    exact keyless_sep hy hxs (unended_ws hys).keyless

theorem key_apart (key key' : SrsKey) : ∀ i, 0 < i → i < key.word.length →
    ¬key.word.drop i <+: key'.word ∧ ¬key'.word <+: key.word.drop i := by
  have hall : ∀ i < key.word.length, 0 < i →
      ¬key.word.drop i <+: key'.word ∧ ¬key'.word <+: key.word.drop i := by
    cases key <;> cases key' <;> decide
  exact fun i hpos hi => hall i hi hpos

theorem key_eq (key key' : SrsKey) (h : key.word <+: key'.word) : key = key' := by
  revert h
  cases key <;> cases key' <;> decide

theorem word_ne_nil (key : SrsKey) : key.word ≠ [] := List.cons_ne_nil _ _

theorem find_keyless (h : Keyless t) (key : SrsKey) : find key.word t = none :=
  find_none_of_absent (word_ne_nil key) (h key)

/-- A key between texts without one is found, and no other. -/
theorem find_key (hxs : Keyless xs) (hys : Keyless ys) (key key' : SrsKey) :
    find key'.word (xs ++ (key.word ++ ys)) = if key' = key then some xs.length else none := by
  have honly : ∀ n, key'.word <+: (xs ++ (key.word ++ ys)).drop n → n = xs.length :=
    fun n => only_there (hxs key') (hys key') (key_apart key' key) (key_apart key key')
  split
  · rename_i hkey
    subst hkey
    apply (find_eq_some (word_ne_nil key')).mpr
    rw [List.drop_append_length]
    exact ⟨List.prefix_append _ _, fun m hm h => absurd (honly m h) (Nat.ne_of_lt hm)⟩
  · rename_i hkey
    apply (find_eq_none (word_ne_nil key')).mpr
    intro n h
    obtain rfl := honly n h
    rw [List.drop_append_length] at h
    rcases List.prefix_or_prefix_of_prefix h (List.prefix_append _ _) with h | h
    · exact hkey (key_eq _ _ h)
    · exact hkey (key_eq _ _ h).symm

theorem keyless_join (hxs : Keyless xs) (hend : xs = [] ∨ ∃ f, ∃ c, xs = f ++ [c] ∧ isWs c = true)
    (ht : Keyless t) : Keyless (xs ++ t) := by
  rcases hend with rfl | ⟨f, c, rfl, hc⟩
  · exact ht
  · rw [List.append_assoc]
    exact keyless_sep hc (hxs.of_infix (List.prefix_append f [c]).isInfix) ht

/-- No key is in the text of a string, nor is one where it ends. -/
theorem unended_cleaned {ps : List Segment} (h : Cleaned ps t) (hxs : ∀ b ∈ xs, isWs b = true) :
    Unended (t ++ quote :: xs) ∧ ¬[quote, colon] <+: t ++ quote :: xs := by
  induction h with
  | nil =>
    refine ⟨unended_cons.mpr ⟨fun h => absurd h (by decide), unended_ws hxs⟩, fun h => ?_⟩
    cases xs with
    | nil => simp at h
    | cons x xs =>
      obtain ⟨hx, -⟩ := List.forall_mem_cons.mp hxs
      have hcolon : colon = x := by simpa using h
      exact absurd hx (by rw [← hcolon]; decide)
  | lineEnd h ih =>
    refine ⟨unended_cons.mpr ⟨fun h => absurd h (by decide), ih.1⟩, fun h => ?_⟩
    exact absurd (List.cons_prefix_cons.mp h).1 (by decide)
  | misread hr h ih =>
    have hhigh : ∀ b ∈ [backslash, LF], isLower b = false := by decide
    refine ⟨(unended_high hhigh).mpr ih.1, fun h => ?_⟩
    exact absurd (List.cons_prefix_cons.mp h).1 (by decide)
  | piece hp h ih =>
    rename_i p ps t
    rw [List.append_assoc]
    cases p with
    | plain b hb =>
      refine ⟨unended_cons.mpr ⟨fun _ => ih.2, ih.1⟩, fun h => ?_⟩
      exact hb.2.1 (List.cons_prefix_cons.mp h).1.symm
    | escape e =>
      refine ⟨unended_cons.mpr ⟨fun h => absurd h (by decide),
        unended_cons.mpr ⟨fun _ => ih.2, ih.1⟩⟩, fun h => ?_⟩
      exact absurd (List.cons_prefix_cons.mp h).1 (by decide)
    | unicode d =>
      have hfree : quote ∉ (Segment.unicode d).raw := by
        intro hmem
        simp only [Segment.raw, List.mem_cons] at hmem
        rcases hmem with h | h | h
        · exact absurd h (by decide)
        · exact absurd h (by decide)
        · exact absurd (isHex_range (d.hex _ h)).1 (by decide)
      refine ⟨(unended_free hfree ih.2).mpr ih.1, fun h => ?_⟩
      exact absurd (List.cons_prefix_cons.mp h).1 (by decide)

end Keyless

/-- Texts that fit the buffer of an answer. -/
def Small (t : CStr) : Prop := 0 ∉ t ∧ t.length < yangSdpBufferlen

def SrsSdpResponse.store (srs : SrsSdpResponse) : SrsKey → CStr → SrsSdpResponse
  | .code, value => { srs with retcode := atoi value }
  | .server, value => { srs with serverIp := some value }
  | .sessionid, value => { srs with sessionid := some value }
  | .sdp, value => { srs with sdp := some value }

section Search

variable {key : SrsKey} {xs ys t : CStr} {strs rest : List CStr} {srs : SrsSdpResponse}

theorem Small.of_infix (h : Small t) (hs : xs <:+: t) : Small xs :=
  ⟨fun h0 => h.1 (hs.subset h0), Nat.lt_of_le_of_lt hs.length_le h.2⟩

theorem srsLoop_skip (h : ∀ str ∈ strs, Keyless str) :
    srsLoop (strs ++ rest) srs = srsLoop rest srs := by
  induction strs with
  | nil => rfl
  | cons str strs ih =>
    obtain ⟨hstr, hstrs⟩ := List.forall_mem_cons.mp h
    simp only [List.cons_append, srsLoop, find_keyless hstr]
    exact ih hstrs

theorem srsValue_eq (h : Small (xs ++ (key.word ++ ys))) :
    srsValue key (xs ++ (key.word ++ ys)) xs.length = .ret (ys.filter (· ≠ quote)) := by
  have hlen : (key.word ++ ys).length < yangSdpBufferlen :=
    (h.of_infix (List.suffix_append xs _).isInfix).2
  have hnul : (0 : UInt8) ∉ ys := fun hmem => h.1 (by simp [hmem])
  have hout := List.length_filter_le (fun b => decide (b ≠ quote)) ys
  rw [List.length_append] at hlen
  rw [srsValue, List.drop_append_length, List.drop_append_length, ← replaceAll_char]
  apply replaceTo_eq (List.cons_ne_nil _ _)
  · rw [List.length_append]
    unfold yangSdpBufferlen at hlen
    omega
  · rw [List.length_append]
    omega
  · exact Nat.zero_lt_succ _
  · rw [replaceAll_char, List.length_append]
    omega
  · exact hnul
  · exact List.not_mem_nil

/-- What stands behind a key is stored under it. -/
theorem srsLoop_hit (hxs : Keyless xs) (hys : Keyless ys) (h : Small (xs ++ (key.word ++ ys)))
    (hcode : key = .code → atoi (ys.filter (· ≠ quote)) = 0) :
    srsLoop ((xs ++ (key.word ++ ys)) :: rest) srs =
      srsLoop rest (srs.store key (ys.filter (· ≠ quote))) := by
  simp only [srsLoop, find_key hxs hys]
  cases key with
  | code =>
    simp only [↓reduceIte, srsValue_eq h, Call.ret_bind, hcode rfl, ne_eq, not_true_eq_false]
    simp only [SrsSdpResponse.store, hcode rfl]
  | server | sessionid | sdp =>
    simp only [reduceCtorEq, ↓reduceIte, srsValue_eq h, Call.ret_bind]
    rfl

/-- A text with a key in it stores what stands behind the key. -/
theorem srsLoop_found (hxs : Keyless xs) (hys : Unended ys) (h : Small (xs ++ (key.word ++ ys)))
    (hcode : key = .code → atoi (found ys) = 0) :
    srsLoop (tokens comma (xs ++ (key.word ++ ys)) ++ rest) srs =
      srsLoop rest (srs.store key (found ys)) := by
  obtain ⟨front, w, rfl, hw, hfront⟩ := exists_last_run comma xs
  have hcomma : comma ∉ w ++ key.word := by
    have hword : comma ∉ key.word := by cases key <;> decide
    simp [hw, hword]
  obtain ⟨later, hlater, hrun⟩ := tokens_run (by simp [word_ne_nil key]) hcomma ys
  have htokens : tokens comma (front ++ w ++ (key.word ++ ys)) =
      tokens comma front ++ (w ++ (key.word ++ upTo comma ys)) :: tokens comma later := by
    rw [List.append_assoc, tokens_front hfront, ← List.append_assoc w, hrun, List.append_assoc]
  have hpre := upTo_start comma ys
  have hhit : Small (w ++ (key.word ++ upTo comma ys)) := by
    obtain ⟨zs, hzs⟩ := hpre
    exact h.of_infix ⟨front, zs, by simp [hzs]⟩
  have hfrontless : Keyless front := hxs.of_infix (List.prefix_append front w).isInfix
  have hwless : Keyless w := hxs.of_infix (List.suffix_append front w).isInfix
  have hlaterless : Keyless later := (hys.of_infix hlater.isInfix).keyless
  rw [htokens, List.append_assoc,
    srsLoop_skip fun str hstr => hfrontless.of_infix (infix_of_mem_tokens hstr), List.cons_append,
    srsLoop_hit hwless (hys.of_infix hpre.isInfix).keyless hhit hcode]
  exact srsLoop_skip fun str hstr => hlaterless.of_infix (infix_of_mem_tokens hstr)

end Search

end MetaRtc
