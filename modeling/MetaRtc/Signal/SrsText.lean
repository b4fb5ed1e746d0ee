import MetaRtc.Signal.Srs

/-! # Strings in the answer of an SRS server

The text of a string is never decoded: braces go, and each `\r\n` gives way to a line feed. -/
namespace MetaRtc

open Exec Bytes Tokens Occurrences JsonText

def openBrace : UInt8 := 123
def closeBrace : UInt8 := 125

def escapedCrlf : CStr := lit "\\r\\n"

def unbrace (t : CStr) : CStr := (t.filter (· ≠ openBrace)).filter (· ≠ closeBrace)

def toLf (t : CStr) : CStr := replaceAll escapedCrlf [LF] t

def srsClean (t : CStr) : CStr := toLf (unbrace t)

/-- What becomes of the text of a string. -/
inductive Cleaned : List Segment → CStr → Prop where
  | nil : Cleaned [] []
  | lineEnd {ps : List Segment} {t : CStr} (h : Cleaned ps t) :
      Cleaned (.escape .carriageReturn :: .escape .lineFeed :: ps) (LF :: t)
  /-- An escaped backslash and the letter behind it are taken for an escape. -/
  | misread {ps : List Segment} {t : CStr} {b : UInt8} {hb : Literal b} (hr : b = 114)
      (h : Cleaned ps t) :
      Cleaned (.escape .backslash :: .plain b hb :: .escape .lineFeed :: ps) (backslash :: LF :: t)
  | piece {p : Segment} {ps : List Segment} {t : CStr}
      (hp : ¬[.escape .carriageReturn, .escape .lineFeed] <+: p :: ps) (h : Cleaned ps t) :
      Cleaned (p :: ps) (p.raw ++ t)

section Clean

variable {ps : List Segment} {t xs ys : CStr}

theorem replaceAll_free {c : UInt8} {pat rep : CStr} (hc : c ∉ xs) (ys : CStr) :
    replaceAll (c :: pat) rep (xs ++ ys) = xs ++ replaceAll (c :: pat) rep ys := by
  induction xs with
  | nil => rfl
  | cons x xs ih =>
    obtain ⟨hx, hxs⟩ := not_or.mp (mt List.mem_cons.mpr hc)
    rw [List.cons_append, List.cons_append, ← ih hxs]
    exact replaceAll_later fun h => hx (List.cons_prefix_cons.mp h).1

theorem escapedCrlf_eq : escapedCrlf = [92, 114, 92, 110] := by decide

theorem lineFeed_of_prefix (h : [92, 110] <+: raw ps) : ∃ qs, ps = .escape .lineFeed :: qs := by
  cases ps with
  | nil => simp at h
  | cons p ps =>
    cases p with
    | plain b hb =>
      simp only [raw_cons, Segment.raw, List.singleton_append, List.cons_prefix_cons] at h
      exact absurd h.1.symm hb.2.2
    | escape e => cases e <;> simp [Segment.raw, Escape.letter] at h ⊢
    | unicode d => simp [Segment.raw] at h

theorem misread_of_prefix (h : [114, 92, 110] <+: raw ps) :
    ∃ b hb qs, b = 114 ∧ ps = .plain b hb :: .escape .lineFeed :: qs := by
  cases ps with
  | nil => simp at h
  | cons p ps =>
    cases p with
    | plain b hb =>
      simp only [raw_cons, Segment.raw, List.singleton_append, List.cons_prefix_cons] at h
      obtain ⟨qs, rfl⟩ := lineFeed_of_prefix (by simpa using h.2)
      exact ⟨b, hb, qs, h.1.symm, rfl⟩
    | escape e => simp [Segment.raw] at h
    | unicode d => simp [Segment.raw] at h

theorem toLf_free (h : backslash ∉ xs) (ys : CStr) : toLf (xs ++ ys) = xs ++ toLf ys := by
  unfold toLf
  rw [escapedCrlf_eq]
  exact replaceAll_free h ys

theorem toLf_crlf (ys : CStr) : toLf (92 :: 114 :: 92 :: 110 :: ys) = LF :: toLf ys := by
  unfold toLf
  rw [escapedCrlf_eq, replaceAll_here (by simp) (by simp)]
  rfl

theorem toLf_backslash (h : ¬[114, 92, 110] <+: ys) : toLf (92 :: ys) = 92 :: toLf ys := by
  unfold toLf
  rw [escapedCrlf_eq]
  exact replaceAll_later fun hp => h (List.cons_prefix_cons.mp hp).2

theorem toLf_cons {b : UInt8} (h : b ≠ backslash) (ys : CStr) : toLf (b :: ys) = b :: toLf ys := by
  have hone : backslash ∉ [b] := by simpa using h.symm
  exact toLf_free hone ys

theorem toLf_unicode (d : Digits) (ps : List Segment) :
    toLf (raw (.unicode d :: ps)) = (Segment.unicode d).raw ++ toLf (raw ps) := by
  have hfree : backslash ∉ d.digits := fun h => (isHex_range (d.hex _ h)).2.2 rfl
  simp only [raw_cons, Segment.raw, List.cons_append]
  rw [toLf_backslash (by simp), toLf_cons (by decide), toLf_free hfree]

theorem toLf_return (h : ¬[.escape .carriageReturn, .escape .lineFeed] <+:
    Segment.escape .carriageReturn :: ps) :
    toLf (raw (.escape .carriageReturn :: ps)) =
      (Segment.escape .carriageReturn).raw ++ toLf (raw ps) := by
  have hnot : ¬[92, 110] <+: raw ps := by
    intro hp
    obtain ⟨qs, rfl⟩ := lineFeed_of_prefix hp
    simp at h
  simp only [raw_cons, Segment.raw, Escape.letter, List.cons_append, List.nil_append]
  rw [toLf_backslash (by simpa using hnot), toLf_cons (by decide)]

theorem toLf_escaped (h : ¬[114, 92, 110] <+: raw ps) :
    toLf (raw (.escape .backslash :: ps)) =
      (Segment.escape .backslash).raw ++ toLf (raw ps) := by
  simp only [raw_cons, Segment.raw, Escape.letter, List.cons_append, List.nil_append]
  rw [toLf_backslash (by simp), toLf_backslash h]

theorem toLf_escape {e : Escape} (hr : e ≠ .carriageReturn) (hb : e ≠ .backslash)
    (ps : List Segment) :
    toLf (raw (.escape e :: ps)) = (Segment.escape e).raw ++ toLf (raw ps) := by
  have hletter : e.letter ≠ 114 ∧ e.letter ≠ backslash := by
    cases e <;> simp [Escape.letter, backslash] at hr hb ⊢
  simp only [raw_cons, Segment.raw, List.cons_append, List.nil_append]
  rw [toLf_backslash (by simp [Ne.symm hletter.1]), toLf_cons hletter.2]

theorem cleaned_raw (ps : List Segment) : Cleaned ps (toLf (raw ps)) := by
  induction hn : ps.length using Nat.strongRecOn generalizing ps with
  | ind n ih =>
    have hshort : ∀ qs : List Segment, qs.length < ps.length → Cleaned qs (toLf (raw qs)) :=
      fun qs hqs => ih _ (hn ▸ hqs) qs rfl
    cases ps with
    | nil => exact .nil
    | cons p ps =>
      have hrest := hshort ps (Nat.lt_succ_self _)
      cases p with
      | plain b hb =>
        rw [raw_cons, toLf_free (by simpa [Segment.raw, backslash] using Ne.symm hb.2.2)]
        exact .piece (by simp) hrest
      | unicode d =>
        rw [toLf_unicode]
        exact .piece (by simp) hrest
      | escape e =>
        by_cases hr : e = .carriageReturn
        · subst hr
          by_cases hp : [.escape .carriageReturn, .escape .lineFeed] <+:
              Segment.escape .carriageReturn :: ps
          · obtain ⟨qs, hqs⟩ := hp
            obtain rfl : Segment.escape .lineFeed :: qs = ps := by simpa using hqs
            simp only [raw_cons, Segment.raw, Escape.letter, List.cons_append, List.nil_append]
            rw [toLf_crlf]
            exact .lineEnd (hshort qs (Nat.lt_add_of_pos_right (Nat.zero_lt_succ 1)))
          · rw [toLf_return hp]
            exact .piece hp hrest
        · by_cases hb : e = .backslash
          · subst hb
            by_cases hp : [114, 92, 110] <+: raw ps
            · obtain ⟨b, hb, qs, rfl, rfl⟩ := misread_of_prefix hp
              simp only [raw_cons, Segment.raw, Escape.letter, List.cons_append, List.nil_append]
              rw [toLf_backslash (by simp), toLf_crlf]
              exact .misread rfl (hshort qs (Nat.lt_add_of_pos_right (Nat.zero_lt_succ 2)))
            · rw [toLf_escaped hp]
              exact .piece (by simp) hrest
          · rw [toLf_escape hr hb]
            exact .piece (by simp [Ne.symm hr]) hrest

end Clean

/-! A carriage return weighs nothing, so that a line feed outweighs no line end. The letter of the
misread escape takes weight away. -/

def weight (b : UInt8) : Int := if b = CR then 0 else if b = 114 then -1 else 2

def total (t : CStr) : Int := (t.map weight).sum

@[simp] theorem total_nil : total [] = 0 := rfl

@[simp] theorem total_cons (b : UInt8) (t : CStr) : total (b :: t) = weight b + total t := by
  simp [total]

@[simp] theorem total_append (s t : CStr) : total (s ++ t) = total s + total t := by
  simp [total]

/-- Strings whose text means what it says, but for their line ends. -/
inductive Tame : List Segment → CStr → Prop where
  | nil : Tame [] []
  | lineEnd {ps : List Segment} {t : CStr} (h : Tame ps t) :
      Tame (.escape .carriageReturn :: .escape .lineFeed :: ps) (LF :: t)
  | plain {ps : List Segment} {t : CStr} (b : UInt8) (hb : Literal b) (h : Tame ps t) :
      Tame (.plain b hb :: ps) (b :: t)

section Weight

variable {ps : List Segment} {t u v : CStr}

theorem total_le (t : CStr) : total t ≤ 2 * t.length := by
  induction t with
  | nil => simp
  | cons b t ih =>
    have hb : weight b ≤ 2 := by
      unfold weight
      split
      · decide
      · split <;> decide
    rw [total_cons, List.length_cons]
    omega

theorem total_hex (h : ∀ d ∈ t, isHex d = true) : total t = 2 * t.length := by
  induction t with
  | nil => rfl
  | cons b t ih =>
    obtain ⟨hb, ht⟩ := List.forall_mem_cons.mp h
    have hrange := isHex_range hb
    have hweight : weight b = 2 := by
      unfold weight
      rw [if_neg, if_neg]
      · rintro rfl
        exact absurd hrange.2.1 (by decide)
      · rintro rfl
        exact absurd hrange.1 (by decide)
    rw [total_cons, List.length_cons, ih ht, hweight]
    omega

/-- Only what stands for itself is as heavy as what it stands for. -/
theorem piece_heavy (p : Segment) : (∃ b hb, p = .plain b hb) ∨ total p.value < total p.raw := by
  cases p with
  | plain b hb => exact .inl ⟨b, hb, rfl⟩
  | escape e =>
    right
    cases e <;> decide
  | unicode d =>
    right
    have hraw : total (Segment.unicode d).raw = 12 := by
      simp only [Segment.raw, total_cons, total_hex d.hex, d.four]
      decide
    have hvalue := total_le d.value
    have hshort := d.short
    rw [hraw, Segment.value]
    omega

theorem cleaned_heavy (h : Cleaned ps t) :
    total (value ps) ≤ total t ∧ (total t = total (value ps) → Tame ps t) := by
  induction h with
  | nil => exact ⟨Int.le_refl _, fun _ => .nil⟩
  | lineEnd h ih =>
    rename_i ps t
    have hvalue : total (value (.escape .carriageReturn :: .escape .lineFeed :: ps)) =
        2 + total (value ps) := by simp [Segment.value, Escape.value, weight, CR]
    have hclean : total (LF :: t) = 2 + total t := by simp [weight, LF, CR]
    rw [hvalue, hclean]
    exact ⟨by omega, fun heq => .lineEnd (ih.2 (by omega))⟩
  | misread hr h ih =>
    rename_i ps t b hb
    have hvalue : total (value (.escape .backslash :: .plain b hb :: .escape .lineFeed :: ps)) =
        3 + total (value ps) := by
      simp [Segment.value, Escape.value, weight, CR, hr]
      omega
    have hclean : total (backslash :: LF :: t) = 4 + total t := by
      simp [weight, LF, CR, backslash]
      omega
    rw [hvalue, hclean]
    exact ⟨by omega, fun heq => by omega⟩
  | piece hp h ih =>
    rename_i p ps t
    rw [value_cons, total_append, total_append]
    rcases piece_heavy p with ⟨b, hb, rfl⟩ | hheavy
    · simp only [Segment.raw, Segment.value]
      exact ⟨by omega, fun heq => .plain b hb (ih.2 (by omega))⟩
    · exact ⟨by omega, fun heq => by omega⟩

theorem ws_total (h : ∀ b ∈ u, isWs b = true) :
    0 ≤ total u ∧ (total u = 0 → ∀ b ∈ u, b = CR) := by
  induction u with
  | nil => simp
  | cons b u ih =>
    obtain ⟨hb, hu⟩ := List.forall_mem_cons.mp h
    have hweight : b = CR ∧ weight b = 0 ∨ weight b = 2 := by
      simp only [isWs, Bool.or_eq_true, beq_iff_eq] at hb
      rcases hb with ((rfl | rfl) | rfl) | rfl <;> decide
    obtain ⟨hpos, hall⟩ := ih hu
    rw [total_cons]
    refine ⟨by omega, fun heq => ?_⟩
    rcases hweight with ⟨rfl, hzero⟩ | htwo
    · exact List.forall_mem_cons.mpr ⟨rfl, hall (by omega)⟩
    · omega

/-- Nothing is lost by the weight: what has the value's weight is tame. -/
theorem tame_of_total (h : Cleaned ps t) (hu : ∀ b ∈ u, isWs b = true)
    (hv : ∀ b ∈ v, isWs b = true) (heq : total (u ++ t ++ v) = total (value ps)) :
    Tame ps t ∧ (∀ b ∈ u, b = CR) ∧ ∀ b ∈ v, b = CR := by
  have hheavy := cleaned_heavy h
  have hu' := ws_total hu
  have hv' := ws_total hv
  rw [total_append, total_append] at heq
  exact ⟨hheavy.2 (by omega), hu'.2 (by omega), hv'.2 (by omega)⟩

def Unescaped (ps : List Segment) : Prop := ∀ p ∈ ps, ∃ b hb, p = .plain b hb

theorem tame_pure (h : Tame ps t) (hcr : CR ∉ value ps) : Unescaped ps ∧ t = value ps := by
  induction h with
  | nil => exact ⟨nofun, rfl⟩
  | lineEnd h ih => exact absurd (by simp [Segment.value, Escape.value, CR]) hcr
  | plain b hb h ih =>
    simp only [value_cons, Segment.value, List.singleton_append, List.mem_cons, not_or] at hcr
    obtain ⟨hps, rfl⟩ := ih hcr.2
    exact ⟨List.forall_mem_cons.mpr ⟨⟨b, hb, rfl⟩, hps⟩, rfl⟩

theorem tame_free (h : Tame ps t) : CR ∉ t := by
  induction h with
  | nil => exact List.not_mem_nil
  | lineEnd h ih => simpa [CR, LF] using ih
  | plain b hb h ih =>
    rw [List.mem_cons]
    rintro (rfl | h)
    · exact absurd hb.1 (by decide)
    · exact ih h

theorem last_cons {b : UInt8} (hb : b ≠ CR) (ht : t.getLast? ≠ some CR) :
    (b :: t).getLast? ≠ some CR := by
  cases t with
  | nil => simpa using hb
  | cons c t => rwa [List.getLast?_cons_cons]

theorem tame_last (h : Tame ps t) : (value ps).getLast? ≠ some CR := by
  induction h with
  | nil => simp
  | lineEnd h ih =>
    simp only [value_cons, Segment.value, List.singleton_append]
    rw [show Escape.lineFeed.value = LF from rfl, List.getLast?_cons_cons]
    exact last_cons (by decide) ih
  | plain b hb h ih =>
    apply last_cons _ ih
    rintro rfl
    exact absurd hb.1 (by decide)

/-- Carriage returns around the text make up for one line end at its start. -/
theorem tame_exact (h : Tame ps t) (hu : ∀ b ∈ u, b = CR) (hv : ∀ b ∈ v, b = CR)
    (heq : u ++ t ++ v = value ps) :
    v = [] ∧ (u = [] ∧ Unescaped ps ∨ u = [CR] ∧ ∃ qs, Unescaped qs ∧
      ps = .escape .carriageReturn :: .escape .lineFeed :: qs) := by
  have hlast : v = [] := by
    rcases List.eq_nil_or_concat v with rfl | ⟨f, b, rfl⟩
    · rfl
    · obtain rfl := hv b (by simp)
      apply absurd _ (tame_last h)
      rw [← heq]
      simp
  subst hlast
  rw [List.append_nil] at heq
  refine ⟨rfl, ?_⟩
  cases u with
  | nil =>
    left
    rw [List.nil_append] at heq
    exact ⟨rfl, (tame_pure h (heq ▸ tame_free h)).1⟩
  | cons c u =>
    right
    obtain ⟨rfl, hrun⟩ := List.forall_mem_cons.mp hu
    cases h with
    | nil => simp at heq
    | plain b hb h =>
      simp only [value_cons, Segment.value, List.cons_append, List.nil_append, List.cons.injEq] at heq
      exact absurd (heq.1 ▸ hb.1) (by decide)
    | lineEnd h =>
      rename_i ps t
      have hrest : u ++ LF :: t = LF :: value ps := by
        simpa [Segment.value, Escape.value, CR, LF] using heq
      cases u with
      | nil =>
        have hpure : t = value ps := by simpa using hrest
        exact ⟨rfl, ps, (tame_pure h (hpure ▸ tame_free h)).1, rfl⟩
      | cons c u =>
        obtain rfl := hrun c List.mem_cons_self
        rw [List.cons_append, List.cons.injEq] at hrest
        exact absurd hrest.1 (by decide)

end Weight

/-- What the search for members trips over. -/
def specials : CStr := [comma, quote, openBrace, closeBrace]

def isBrace (b : UInt8) : Bool := b == openBrace || b == closeBrace

def unbraced (ps : List Segment) : List Segment :=
  ps.filter fun
    | .plain b _ => !isBrace b
    | _ => true

/-- What is read behind a key: to the next comma, and without the quotes. -/
def found (t : CStr) : CStr := (upTo comma t).filter (· ≠ quote)

section Found

variable {ps : List Segment} {t u v w xs ys : CStr} {b : UInt8}

theorem unbrace_append (xs ys : CStr) : unbrace (xs ++ ys) = unbrace xs ++ unbrace ys := by
  simp [unbrace]

theorem unbrace_free (h : ∀ b ∈ xs, isBrace b = false) : unbrace xs = xs := by
  unfold unbrace
  rw [List.filter_filter]
  apply List.filter_eq_self.mpr
  intro b hb
  simpa [isBrace, and_comm] using h b hb

theorem not_mem_unbrace (hb : isBrace b = true) (xs : CStr) : b ∉ unbrace xs := by
  simp only [isBrace, Bool.or_eq_true, beq_iff_eq] at hb
  rcases hb with rfl | rfl <;> simp [unbrace]

theorem escape_unbraced (e : Escape) : ∀ b ∈ (Segment.escape e).raw, isBrace b = false := by
  cases e <;> decide

theorem unicode_unbraced (d : Digits) : ∀ b ∈ (Segment.unicode d).raw, isBrace b = false := by
  intro b hb
  simp only [Segment.raw, List.mem_cons] at hb
  rcases hb with rfl | rfl | hb
  · decide
  · decide
  · have hrange := isHex_range (d.hex b hb)
    simp only [isBrace, openBrace, closeBrace, Bool.or_eq_false_iff, beq_eq_false_iff_ne, ne_eq,
      ← UInt8.toNat_inj, UInt8.reduceToNat]
    omega

theorem unbrace_raw (ps : List Segment) : unbrace (raw ps) = raw (unbraced ps) := by
  induction ps with
  | nil => rfl
  | cons p ps ih =>
    rw [raw_cons, unbrace_append, ih]
    cases p with
    | plain b hb =>
      cases hbrace : isBrace b with
      | false =>
        rw [unbrace_free (by simpa [Segment.raw] using hbrace)]
        simp [unbraced, hbrace]
      | true =>
        have hgone : unbrace (Segment.plain b hb).raw = [] := by
          apply List.eq_nil_iff_forall_not_mem.mpr
          intro c hc
          have hmem : c = b := by
            simpa [Segment.raw] using List.mem_of_mem_filter (List.mem_of_mem_filter hc)
          exact not_mem_unbrace (hmem ▸ hbrace) _ hc
        rw [hgone]
        simp [unbraced, hbrace]
    | escape e =>
      rw [unbrace_free (escape_unbraced e)]
      simp [unbraced]
    | unicode d =>
      rw [unbrace_free (unicode_unbraced d)]
      simp [unbraced]

/-- A special in the text is one in the string. -/
theorem mem_value_of_mem_raw (hb : b ∈ specials) (h : b ∈ raw ps) : b ∈ value ps := by
  obtain ⟨p, hp, hraw⟩ := List.mem_flatMap.mp h
  apply List.mem_flatMap.mpr ⟨p, hp, _⟩
  cases p with
  | plain c hc => exact hraw
  | escape e =>
    have hall : ∀ b ∈ specials, b ∈ (Segment.escape e).raw → b ∈ (Segment.escape e).value := by
      cases e <;> decide
    exact hall b hb hraw
  | unicode d =>
    have hrange : ∀ b ∈ specials, (b.toNat < 48 ∨ 102 < b.toNat) ∧ b ≠ 92 ∧ b ≠ 117 := by decide
    obtain ⟨hout, hslash, hu⟩ := hrange b hb
    simp only [Segment.raw, List.mem_cons] at hraw
    rcases hraw with rfl | rfl | hdigit
    · exact absurd rfl hslash
    · exact absurd rfl hu
    · have := isHex_range (d.hex b hdigit)
      omega

theorem mem_toLf_raw (h : b ∈ toLf (raw ps)) : b ∈ raw ps ∨ b = LF := by
  simpa using mem_replaceAll h

theorem raw_unbraced_subset (ps : List Segment) : raw (unbraced ps) ⊆ raw ps := by
  rw [← unbrace_raw]
  exact fun b hb => List.mem_of_mem_filter (List.mem_of_mem_filter hb)

theorem ws_plain (h : ∀ b ∈ u, isWs b = true) : ∀ b ∈ specials, b ∉ u := by
  have hall : ∀ b ∈ specials, isWs b = false := by decide
  intro b hb hmem
  exact absurd (h b hmem) (by rw [hall b hb]; decide)

theorem mem_found (h : b ∈ found t) : b ∈ t ∧ b ≠ comma ∧ b ≠ quote := by
  obtain ⟨hmem, hquote⟩ := List.mem_filter.mp h
  refine ⟨(upTo_start comma t).subset hmem, ?_, by simpa using hquote⟩
  rintro rfl
  exact not_mem_upTo comma t hmem

/-- What is read has no special in it, whatever the string. -/
theorem found_plain (hu : ∀ b ∈ u, isWs b = true) (hv : ∀ b ∈ v, isWs b = true) :
    ∀ b ∈ specials, b ∉ found (u ++ quote :: (toLf (raw (unbraced ps)) ++ quote :: v)) := by
  intro b hb hmem
  obtain ⟨hin, hcomma, hquote⟩ := mem_found hmem
  simp only [List.mem_append, List.mem_cons] at hin
  rcases hin with hin | hin | hin | hin | hin
  · exact ws_plain hu b hb hin
  · exact hquote hin
  · have hbrace : isBrace b = true := by
      have hall : ∀ b ∈ specials, b ≠ comma → b ≠ quote → isBrace b = true := by decide
      exact hall b hb hcomma hquote
    rcases mem_toLf_raw hin with hraw | rfl
    · exact not_mem_unbrace hbrace (raw ps) (unbrace_raw ps ▸ hraw)
    · exact absurd hbrace (by decide)
  · exact hquote hin
  · exact ws_plain hv b hb hin

/-- Without a special in the string its text is read to its end. -/
theorem found_clean (hps : ∀ b ∈ specials, b ∉ value ps) (hu : ∀ b ∈ u, isWs b = true)
    (hv : ∀ b ∈ v, isWs b = true) :
    found (u ++ quote :: (toLf (raw (unbraced ps)) ++ quote :: v)) = u ++ toLf (raw ps) ++ v := by
  have hraw : ∀ b ∈ specials, b ∉ raw ps := fun b hb h => hps b hb (mem_value_of_mem_raw hb h)
  have hsame : raw (unbraced ps) = raw ps := by
    rw [← unbrace_raw]
    apply unbrace_free
    intro b hb
    simp only [isBrace, Bool.or_eq_false_iff, beq_eq_false_iff_ne, ne_eq]
    exact ⟨fun h => hraw openBrace (by decide) (h ▸ hb), fun h => hraw closeBrace (by decide) (h ▸ hb)⟩
  have hclean : ∀ b ∈ specials, b ∉ toLf (raw ps) := by
    intro b hb h
    rcases mem_toLf_raw h with h | rfl
    · exact hraw b hb h
    · exact absurd hb (by decide)
  have hcomma : comma ∈ specials := by decide
  have hquote : quote ∈ specials := by decide
  have hfree : comma ∉ u ++ quote :: (toLf (raw ps) ++ quote :: v) := by
    simp only [List.mem_append, List.mem_cons, not_or]
    exact ⟨ws_plain hu _ hcomma, by decide, hclean _ hcomma, by decide, ws_plain hv _ hcomma⟩
  have hkeep : ∀ xs : CStr, quote ∉ xs → xs.filter (· ≠ quote) = xs := by
    intro xs hxs
    apply List.filter_eq_self.mpr
    intro b hb
    exact decide_eq_true fun h => hxs (h ▸ hb)
  rw [hsame, found, upTo_free hfree]
  simp only [List.filter_append, List.filter_cons, ne_eq, not_true_eq_false, decide_false,
    Bool.false_eq_true, ↓reduceIte]
  rw [← List.append_assoc]
  congr
  · exact hkeep u (ws_plain hu _ hquote)
  · exact hkeep _ (hclean _ hquote)
  · exact hkeep v (ws_plain hv _ hquote)

/-- Strings that stand for themselves to the search as well. -/
def Tight (ps : List Segment) : Prop := Unescaped ps ∧ ∀ b ∈ specials, b ∉ value ps

theorem toLf_unescaped (h : Unescaped ps) (qs : List Segment) :
    toLf (raw ps ++ raw qs) = value ps ++ toLf (raw qs) := by
  have hraw : raw ps = value ps ∧ backslash ∉ value ps := by
    induction ps with
    | nil => exact ⟨rfl, List.not_mem_nil⟩
    | cons p ps ih =>
      obtain ⟨⟨b, hb, rfl⟩, hps⟩ := List.forall_mem_cons.mp h
      obtain ⟨hsame, hfree⟩ := ih hps
      refine ⟨by rw [raw_cons, value_cons, hsame]; rfl, ?_⟩
      rw [value_cons, List.mem_append]
      exact not_or.mpr ⟨by simpa [Segment.value, backslash] using Ne.symm hb.2.2, hfree⟩
  rw [hraw.1, toLf_free hraw.2]

theorem toLf_value (h : Unescaped ps) : toLf (raw ps) = value ps := by
  have hall := toLf_unescaped h []
  rwa [raw_nil, List.append_nil, show toLf [] = [] from rfl, List.append_nil] at hall

/-- The text is read as the string where nothing stands around it and it is tight. A carriage return
before it makes good a line end that has lost its own. -/
def Direct (u : CStr) (ps : List Segment) (v : CStr) : Prop :=
  v = [] ∧ (u = [] ∧ Tight ps ∨ u = [CR] ∧ ∃ qs, Tight qs ∧
    ps = .escape .carriageReturn :: .escape .lineFeed :: qs)

theorem string_exact (hu : ∀ b ∈ u, isWs b = true) (hv : ∀ b ∈ v, isWs b = true) :
    found (u ++ quote :: (toLf (raw (unbraced ps)) ++ quote :: v)) = value ps ↔ Direct u ps v := by
  constructor
  · intro h
    have hps : ∀ b ∈ specials, b ∉ value ps := h ▸ found_plain hu hv
    rw [found_clean hps hu hv] at h
    obtain ⟨htame, hur, hvr⟩ := tame_of_total (cleaned_raw ps) hu hv (congrArg total h)
    obtain ⟨hnil, ⟨hu, hplain⟩ | ⟨hu, qs, hplain, rfl⟩⟩ := tame_exact htame hur hvr h
    · exact ⟨hnil, .inl ⟨hu, hplain, hps⟩⟩
    · refine ⟨hnil, .inr ⟨hu, qs, ⟨hplain, fun b hb hmem => hps b hb ?_⟩, rfl⟩⟩
      simp [hmem]
  · rintro ⟨rfl, ⟨rfl, htight⟩ | ⟨rfl, qs, htight, rfl⟩⟩
    · rw [found_clean htight.2 hu hv]
      simp [toLf_value htight.1]
    · have hps : ∀ b ∈ specials, b ∉ value (.escape .carriageReturn :: .escape .lineFeed :: qs) := by
        intro b hb hmem
        simp only [value_cons, Segment.value, Escape.value, List.mem_append, List.mem_singleton] at hmem
        rcases hmem with rfl | rfl | hmem
        · exact absurd hb (by decide)
        · exact absurd hb (by decide)
        · exact htight.2 b hb hmem
      rw [found_clean hps hu hv]
      simp only [raw_cons, Segment.raw, Escape.letter, List.cons_append, List.nil_append,
        List.append_nil]
      rw [toLf_crlf, toLf_value htight.1]
      rfl

/-- The lines of a session description, each with its end. -/
def crlfPieces (lines : List (List Segment)) : List Segment :=
  lines.flatMap (· ++ [.escape .carriageReturn, .escape .lineFeed])

def lfText (lines : List (List Segment)) : CStr := lines.flatMap (value · ++ [LF])

variable {lines : List (List Segment)}

theorem value_crlfPieces (lines : List (List Segment)) :
    value (crlfPieces lines) = lines.flatMap (value · ++ [CR, LF]) := by
  induction lines with
  | nil => rfl
  | cons line lines ih =>
    rw [crlfPieces, List.flatMap_cons, value_append, value_append, List.flatMap_cons, ← ih]
    rfl

theorem total_sdp (lines : List (List Segment)) :
    total (lfText lines) = total (value (crlfPieces lines)) := by
  rw [value_crlfPieces]
  induction lines with
  | nil => rfl
  | cons line lines ih =>
    have hcr : weight CR = 0 := by decide
    simp only [lfText, List.flatMap_cons, total_append, total_cons, total_nil] at ih ⊢
    omega

theorem toLf_sdp (h : ∀ line ∈ lines, Tight line) :
    toLf (raw (crlfPieces lines)) = lfText lines := by
  induction lines with
  | nil => rfl
  | cons line lines ih =>
    obtain ⟨hline, hlines⟩ := List.forall_mem_cons.mp h
    have hpieces : crlfPieces (line :: lines) =
        line ++ (.escape .carriageReturn :: .escape .lineFeed :: crlfPieces lines) := by
      simp [crlfPieces]
    rw [hpieces, raw_append, toLf_unescaped hline.1]
    simp only [raw_cons, Segment.raw, Escape.letter, List.cons_append, List.nil_append]
    rw [toLf_crlf, ih hlines]
    simp [lfText]

theorem tame_pieces (h : Tame ps t) {p : Segment} (hp : p ∈ ps) :
    (∃ b hb, p = .plain b hb) ∨ p = .escape .carriageReturn ∨ p = .escape .lineFeed := by
  induction h with
  | nil => exact absurd hp List.not_mem_nil
  | lineEnd h ih =>
    simp only [List.mem_cons] at hp
    rcases hp with hp | hp | hp
    · exact .inr (.inl hp)
    · exact .inr (.inr hp)
    · exact ih hp
  | plain b hb h ih =>
    rcases List.mem_cons.mp hp with hp | hp
    · exact .inl ⟨b, hb, hp⟩
    · exact ih hp

theorem sdp_exact (hlines : ∀ line ∈ lines, CR ∉ value line ∧ LF ∉ value line)
    (hu : ∀ b ∈ u, isWs b = true) (hv : ∀ b ∈ v, isWs b = true) :
    found (u ++ quote :: (toLf (raw (unbraced (crlfPieces lines))) ++ quote :: v)) = lfText lines ↔
      u = [] ∧ v = [] ∧ ∀ line ∈ lines, Tight line := by
  have hline : ∀ line ∈ lines, value line ⊆ lfText lines := by
    intro line hl b hb
    exact List.mem_flatMap.mpr ⟨line, hl, List.mem_append_left _ hb⟩
  have hspecials : (∀ b ∈ specials, b ∉ value (crlfPieces lines)) ↔
      ∀ line ∈ lines, ∀ b ∈ specials, b ∉ value line := by
    rw [value_crlfPieces]
    constructor
    · intro h line hl b hb hmem
      exact h b hb (List.mem_flatMap.mpr ⟨line, hl, List.mem_append_left _ hmem⟩)
    · intro h b hb hmem
      obtain ⟨line, hl, hin⟩ := List.mem_flatMap.mp hmem
      rcases List.mem_append.mp hin with hin | hin
      · exact h line hl b hb hin
      · have hend : ∀ b ∈ specials, b ∉ [CR, LF] := by decide
        exact hend b hb hin
  constructor
  · intro h
    have hfree : ∀ b ∈ specials, b ∉ lfText lines := h ▸ found_plain hu hv
    have hps := hspecials.mpr fun line hl b hb hmem => hfree b hb (hline line hl hmem)
    rw [found_clean hps hu hv] at h
    have hcr : CR ∉ lfText lines := by
      intro hmem
      obtain ⟨line, hl, hin⟩ := List.mem_flatMap.mp hmem
      rcases List.mem_append.mp hin with hin | hin
      · exact (hlines line hl).1 hin
      · exact absurd hin (by decide)
    obtain ⟨htame, hur, hvr⟩ :=
      tame_of_total (cleaned_raw _) hu hv ((congrArg total h).trans (total_sdp lines))
    refine ⟨?_, ?_, fun line hl => ⟨?_, hspecials.mp hps line hl⟩⟩
    · apply List.eq_nil_iff_forall_not_mem.mpr
      intro b hb
      exact hcr (h ▸ by simp [← hur b hb, hb])
    · apply List.eq_nil_iff_forall_not_mem.mpr
      intro b hb
      exact hcr (h ▸ by simp [← hvr b hb, hb])
    · intro p hp
      have hin : p ∈ crlfPieces lines := List.mem_flatMap.mpr ⟨line, hl, List.mem_append_left _ hp⟩
      rcases tame_pieces htame hin with hplain | rfl | rfl
      · exact hplain
      · exact absurd (List.mem_flatMap.mpr ⟨_, hp, by decide⟩) (hlines line hl).1
      · exact absurd (List.mem_flatMap.mpr ⟨_, hp, by decide⟩) (hlines line hl).2
  · rintro ⟨rfl, rfl, htight⟩
    rw [found_clean (hspecials.mpr fun line hl => (htight line hl).2) hu hv, toLf_sdp htight]
    simp

end Found

end MetaRtc
