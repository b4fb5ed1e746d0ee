import MetaRtc.Signal.SrsKeys

/-! # What is got out of the answer of an SRS server -/
namespace MetaRtc

open Exec Bytes Tokens Occurrences JsonText

/-- The white space around a key and its value. -/
structure Layout where
  before : CStr := []
  afterKey : CStr := []
  beforeValue : CStr := []
  afterValue : CStr := []
  ws : ∀ b ∈ before ++ afterKey ++ beforeValue ++ afterValue, isWs b = true := by decide

inductive SrsSlot where
  | key (key : SrsKey)
  | other (t : CStr)
  deriving DecidableEq

/-- An answer of code 0 with its members in some order, among others that have no such key in them.
The end of the head and the white space before the object are in `gap`. -/
structure SrsAnswer where
  head : CStr
  gap : CStr
  slots : List (SrsSlot)
  layout : SrsKey → Layout
  server : List Segment
  sessionid : List Segment
  sdp : List (List Segment)
  tail : CStr
  once : ∀ key, slots.count (.key key) = 1
  head_keyless : 0 ∉ head ∧ Keyless (srsClean head)
  gap_ws : gap ≠ [] ∧ ∀ b ∈ gap, isWs b = true
  others : ∀ t, .other t ∈ slots → 0 ∉ t ∧ Keyless (srsClean t)
  lines : ∀ line ∈ sdp, CR ∉ value line ∧ LF ∉ value line
  tail_ws : ∀ b ∈ tail, isWs b = true

namespace SrsAnswer

def strings (a : SrsAnswer) : SrsKey → Option (List Segment)
  | .code => none
  | .server => some a.server
  | .sessionid => some a.sessionid
  | .sdp => some (crlfPieces a.sdp)

def valueText (a : SrsAnswer) (key : SrsKey) : CStr :=
  match a.strings key with
  | none => lit "0"
  | some ps => quote :: (raw ps ++ [quote])

def member (a : SrsAnswer) : SrsSlot → CStr
  | .key key =>
    (a.layout key).before ++ quote :: (key.name ++ quote :: ((a.layout key).afterKey ++
      colon :: ((a.layout key).beforeValue ++ (a.valueText key ++ (a.layout key).afterValue))))
  | .other t => t

def members (a : SrsAnswer) (slots : List (SrsSlot)) : CStr :=
  [comma].intercalate (slots.map a.member) ++ closeBrace :: a.tail

def text (a : SrsAnswer) : CStr := a.head ++ (a.gap ++ openBrace :: a.members a.slots)

/-- What stands between a value and the next comma or the end. -/
def behind (a : SrsAnswer) (key : SrsKey) : CStr :=
  (a.layout key).afterValue ++ if a.slots.getLast? = some (.key key) then a.tail else []

/-- The members come out of the answer as they went in. -/
def Extracted (a : SrsAnswer) : Prop := ∃ srs, yangSdpQuerySrs (some a.text) {} = .ret (0, srs) ∧
  srs.sdp = some (lfText a.sdp) ∧ srs.serverIp = some (value a.server) ∧
  srs.sessionid = some (value a.sessionid)

/-- The answer fits the buffer, no white space parts key, colon, string and comma, and the strings
stand for themselves, but for the ends of the lines. -/
def Bare (a : SrsAnswer) : Prop := a.text.length < yangSdpBufferlen ∧
  (∀ key, key ≠ .code → (a.layout key).afterKey = []) ∧
  ((a.layout .sdp).beforeValue = [] ∧ a.behind .sdp = [] ∧ ∀ line ∈ a.sdp, Tight line) ∧
  Direct (a.layout .server).beforeValue a.server (a.behind .server) ∧
  Direct (a.layout .sessionid).beforeValue a.sessionid (a.behind .sessionid)

end SrsAnswer

section Clean

variable {xs ys : CStr} {c : UInt8}

theorem toLf_sep (h : c ∉ escapedCrlf) (xs ys : CStr) : toLf (xs ++ c :: ys) = toLf xs ++ c :: toLf ys :=
  replaceAll_sep (List.cons_ne_nil _ _) h xs ys

theorem srsClean_sep (h : c ∉ escapedCrlf) (hc : isBrace c = false) (xs ys : CStr) :
    srsClean (xs ++ c :: ys) = srsClean xs ++ c :: srsClean ys := by
  have hkeep : unbrace (c :: ys) = c :: unbrace ys := by
    rw [show c :: ys = [c] ++ ys from rfl, unbrace_append, unbrace_free (by simpa using hc)]
    rfl
  rw [srsClean, unbrace_append, hkeep, toLf_sep h]
  rfl

/-- What has neither a brace nor a backslash stays. -/
theorem srsClean_free (h : ∀ b ∈ xs, isBrace b = false ∧ b ≠ backslash) (ys : CStr) :
    srsClean (xs ++ ys) = xs ++ srsClean ys := by
  rw [srsClean, unbrace_append, unbrace_free fun b hb => (h b hb).1,
    toLf_free fun hmem => (h _ hmem).2 rfl]
  rfl

theorem ws_free (h : ∀ b ∈ xs, isWs b = true) : ∀ b ∈ xs, isBrace b = false ∧ b ≠ backslash := by
  intro b hb
  have hws := h b hb
  simp only [isWs, Bool.or_eq_true, beq_iff_eq] at hws
  rcases hws with ((rfl | rfl) | rfl) | rfl <;> decide

theorem srsClean_ws (h : ∀ b ∈ xs, isWs b = true) (ys : CStr) :
    srsClean (xs ++ ys) = xs ++ srsClean ys := srsClean_free (ws_free h) ys

theorem srsClean_cons (h : isBrace c = false ∧ c ≠ backslash) (ys : CStr) :
    srsClean (c :: ys) = c :: srsClean ys := by
  have hone : ∀ b ∈ [c], isBrace b = false ∧ b ≠ backslash := by simpa using h
  exact srsClean_free hone ys

theorem srsClean_brace (h : isBrace c = true) (ys : CStr) : srsClean (c :: ys) = srsClean ys := by
  have hgone : unbrace (c :: ys) = unbrace ys := by
    simp only [isBrace, Bool.or_eq_true, beq_iff_eq] at h
    rcases h with rfl | rfl <;> simp [unbrace, openBrace, closeBrace]
  rw [srsClean, hgone]
  rfl

theorem ws_apart (h : isWs c = true) : c ∉ escapedCrlf ∧ isBrace c = false := by
  simp only [isWs, Bool.or_eq_true, beq_iff_eq] at h
  rcases h with ((rfl | rfl) | rfl) | rfl <;> decide

/-- White space in the middle is kept, and what stands around it is treated apart. -/
theorem srsClean_between {ws : CStr} (h : ∀ b ∈ ws, isWs b = true) (hne : ws ≠ []) (xs ys : CStr) :
    srsClean (xs ++ (ws ++ ys)) = srsClean xs ++ (ws ++ srsClean ys) := by
  cases ws with
  | nil => exact absurd rfl hne
  | cons w ws =>
    obtain ⟨hw, hws⟩ := List.forall_mem_cons.mp h
    rw [List.cons_append, srsClean_sep (ws_apart hw).1 (ws_apart hw).2, srsClean_ws hws]
    rfl

theorem srsClean_end {ws : CStr} (h : ∀ b ∈ ws, isWs b = true) (xs : CStr) :
    srsClean (xs ++ ws) = srsClean xs ++ ws := by
  cases ws with
  | nil => simp
  | cons w ws =>
    have hmid := srsClean_between h (List.cons_ne_nil w ws) xs []
    rwa [List.append_nil, show srsClean [] = [] from rfl, List.append_nil] at hmid

theorem srsClean_close {ws : CStr} (h : ∀ b ∈ ws, isWs b = true) (xs : CStr) :
    srsClean (xs ++ closeBrace :: ws) = srsClean xs ++ ws := by
  have hgone : unbrace (xs ++ closeBrace :: ws) = unbrace (xs ++ ws) := by
    rw [unbrace_append, unbrace_append]
    simp [unbrace]
  rw [← srsClean_end h, srsClean, hgone]
  rfl

theorem srsClean_length (xs : CStr) : (srsClean xs).length ≤ xs.length := by
  have hlf : (toLf (unbrace xs)).length ≤ (unbrace xs).length :=
    replaceAll_length_le (List.cons_ne_nil _ _) (by decide) (unbrace xs)
  have hbrace : (unbrace xs).length ≤ xs.length :=
    (List.length_filter_le _ _).trans (List.length_filter_le _ _)
  exact hlf.trans hbrace

theorem Small.clean (h : Small xs) : Small (srsClean xs) := by
  refine ⟨fun hmem => ?_, Nat.lt_of_le_of_lt (srsClean_length xs) h.2⟩
  rcases mem_replaceAll hmem with hmem | hmem
  · exact h.1 (List.mem_of_mem_filter (List.mem_of_mem_filter hmem))
  · exact absurd hmem (by decide)

theorem Small.filter (h : Small xs) (p : UInt8 → Bool) : Small (xs.filter p) :=
  ⟨fun hmem => h.1 (List.mem_of_mem_filter hmem),
    Nat.lt_of_le_of_lt (List.length_filter_le p xs) h.2⟩

/-- A replacement that does not lengthen the text fits the buffer. -/
theorem replaceTo_small {pat rep : CStr} (h : Small xs) (hpat : pat ≠ [])
    (hrep : rep.length ≤ pat.length) (hsize : rep.length < yangSdpBufferlen) (hnul : 0 ∉ rep) :
    replaceTo yangSdpBufferlen xs pat rep = .ret (replaceAll pat rep xs) :=
  replaceTo_eq hpat (by decide) h.2 hsize
    (Nat.lt_of_le_of_lt (replaceAll_length_le hpat hrep xs) h.2) h.1 hnul

/-- Within the buffer the text is cleaned up and taken apart at the commas. -/
theorem yangSdpQuerySrs_small (h : Small xs) (srs : SrsSdpResponse) :
    yangSdpQuerySrs (some xs) srs = srsLoop (tokens comma (srsClean xs)) srs := by
  have hopened : Small (xs.filter (· ≠ openBrace)) := h.filter _
  have hclosed : Small (unbrace xs) := hopened.filter _
  have hread : readTo yangSdpBufferlen xs = .ret xs := by
    rw [readTo, strcpy, if_pos h.2]
  have hopen : replaceTo yangSdpBufferlen xs [openBrace] [] =
      .ret (replaceAll [openBrace] [] xs) :=
    replaceTo_small h (by decide) (by decide) (by decide) (by decide)
  have hclose : replaceTo yangSdpBufferlen (xs.filter (· ≠ openBrace)) [closeBrace] [] =
      .ret (replaceAll [closeBrace] [] (xs.filter (· ≠ openBrace))) :=
    replaceTo_small hopened (by decide) (by decide) (by decide) (by decide)
  have hlf : replaceTo yangSdpBufferlen (unbrace xs) escapedCrlf [LF] = .ret (srsClean xs) :=
    replaceTo_small hclosed (by decide) (by decide) (by decide) (by decide)
  rw [replaceAll_char] at hopen hclose
  rw [yangSdpQuerySrs, hread, Call.ret_bind, show lit "\x7b" = [openBrace] by decide, hopen,
    Call.ret_bind, show lit "\x7d" = [closeBrace] by decide, hclose, Call.ret_bind]
  rw [unbrace] at hlf
  rw [show lit "\\r\\n" = escapedCrlf from rfl, hlf, Call.ret_bind]
  rfl

theorem yangSdpQuerySrs_fits {srs srs' : SrsSdpResponse} {code : Int32}
    (h : yangSdpQuerySrs (some xs) srs = .ret (code, srs')) : xs.length < yangSdpBufferlen := by
  rw [yangSdpQuerySrs] at h
  obtain ⟨sdp, hread, -⟩ := Call.bind_eq_ret.mp h
  exact (strcpy_eq_ret.mp hread).1

end Clean

/-- What is stored under a key, as far as it is a string. -/
def SrsSdpResponse.get (srs : SrsSdpResponse) : SrsKey → Option CStr
  | .code => none
  | .server => srs.serverIp
  | .sessionid => srs.sessionid
  | .sdp => srs.sdp

namespace SrsAnswer

section Run

variable {a : SrsAnswer} {left r : CStr} {key : SrsKey}

def cleanValue (a : SrsAnswer) (key : SrsKey) : CStr :=
  match a.strings key with
  | none => lit "0"
  | some ps => quote :: (toLf (raw (unbraced ps)) ++ [quote])

/-- What stands behind the colon. -/
def behindKey (a : SrsAnswer) (key : SrsKey) : CStr :=
  (a.layout key).beforeValue ++ (a.cleanValue key ++ a.behind key)

/-- What a member does to the response. -/
def take (a : SrsAnswer) (srs : SrsSdpResponse) : SrsSlot → SrsSdpResponse
  | .key key =>
    if (a.layout key).afterKey = [] then srs.store key (found (a.behindKey key)) else srs
  | .other _ => srs

theorem layout_ws (l : Layout) : (∀ b ∈ l.before, isWs b = true) ∧
    (∀ b ∈ l.afterKey, isWs b = true) ∧ (∀ b ∈ l.beforeValue, isWs b = true) ∧
    ∀ b ∈ l.afterValue, isWs b = true := by
  have hws := l.ws
  simp only [List.mem_append] at hws
  exact ⟨fun b hb => hws b (by simp [hb]), fun b hb => hws b (by simp [hb]),
    fun b hb => hws b (by simp [hb]), fun b hb => hws b (by simp [hb])⟩

theorem behind_ws (a : SrsAnswer) (key : SrsKey) : ∀ b ∈ a.behind key, isWs b = true := by
  intro b hb
  rcases List.mem_append.mp hb with hb | hb
  · exact (layout_ws (a.layout key)).2.2.2 b hb
  · split at hb
    · exact a.tail_ws b hb
    · exact absurd hb List.not_mem_nil

theorem srsClean_value (a : SrsAnswer) (key : SrsKey) (ys : CStr) :
    srsClean (a.valueText key ++ ys) = a.cleanValue key ++ srsClean ys := by
  unfold valueText cleanValue
  cases a.strings key with
  | none => exact srsClean_free (by decide) ys
  | some ps =>
    have hraw : srsClean (raw ps) = toLf (raw (unbraced ps)) := by rw [srsClean, unbrace_raw]
    simp only [List.cons_append, List.append_assoc, List.nil_append]
    rw [srsClean_cons (by decide), srsClean_sep (by decide) (by decide), hraw]

theorem name_free (key : SrsKey) : ∀ b ∈ key.name, isBrace b = false ∧ b ≠ backslash := by
  cases key <;> decide

theorem srsClean_member (a : SrsAnswer) (key : SrsKey) :
    srsClean (a.member (.key key)) = (a.layout key).before ++ quote :: (key.name ++
      quote :: ((a.layout key).afterKey ++ colon :: ((a.layout key).beforeValue ++
        (a.cleanValue key ++ (a.layout key).afterValue)))) := by
  obtain ⟨hbefore, hkey, hvalue, hafter⟩ := layout_ws (a.layout key)
  have hend : srsClean (a.layout key).afterValue = (a.layout key).afterValue := by
    rw [← List.nil_append (a.layout key).afterValue, srsClean_end hafter]
    rfl
  rw [member, srsClean_ws hbefore, srsClean_cons (by decide), srsClean_free (name_free key),
    srsClean_cons (by decide), srsClean_ws hkey, srsClean_cons (by decide), srsClean_ws hvalue,
    srsClean_value, hend]

theorem behindKey_unended (a : SrsAnswer) (key : SrsKey) : Unended (a.behindKey key) := by
  have hvalue := (layout_ws (a.layout key)).2.2.1
  rw [behindKey, unended_high (ws_high hvalue), cleanValue]
  cases a.strings key with
  | none =>
    simp only
    rw [unended_high (by decide)]
    exact unended_ws (a.behind_ws key)
  | some ps =>
    simp only [List.cons_append, List.append_assoc, List.nil_append]
    have hps := unended_cleaned (cleaned_raw (unbraced ps)) (a.behind_ws key)
    exact unended_cons.mpr ⟨fun h => absurd h (by decide), hps.1⟩

theorem found_code (a : SrsAnswer) : atoi (found (a.behindKey .code)) = 0 := by
  have hvalue := (layout_ws (a.layout .code)).2.2.1
  have hbehind := a.behind_ws .code
  have hplain : ∀ b ∈ a.behindKey .code, b ≠ comma ∧ b ≠ quote := by
    have hws : ∀ b, isWs b = true → b ≠ comma ∧ b ≠ quote := by
      intro b hb
      constructor <;> rintro rfl <;> exact absurd hb (by decide)
    intro b hb
    simp only [behindKey, cleanValue, strings, List.mem_append] at hb
    rcases hb with hb | hb | hb
    · exact hws b (hvalue b hb)
    · have hzero : ∀ b ∈ lit "0", b ≠ comma ∧ b ≠ quote := by decide
      exact hzero b hb
    · exact hws b (hbehind b hb)
  have hfound : found (a.behindKey .code) = a.behindKey .code := by
    rw [found, upTo_free fun h => (hplain _ h).1 rfl]
    apply List.filter_eq_self.mpr
    intro b hb
    exact decide_eq_true (hplain b hb).2
  have hspace : ∀ b, isWs b = true → isspace b = true ∧ isdigit b = false := by
    intro b hb
    simp only [isWs, Bool.or_eq_true, beq_iff_eq] at hb
    rcases hb with ((rfl | rfl) | rfl) | rfl <;> decide
  rw [hfound]
  have hzero : lit "0" = decimal 0 := by decide
  simp only [behindKey, cleanValue, strings]
  rw [hzero]
  exact atoi_decimal (fun b hb => (hspace b (hvalue b hb)).1)
    (fun b hb => (hspace b (hbehind b (List.mem_of_mem_head? hb))).2) (by decide)

/-- One member, with what stands before and behind it. -/
theorem srsLoop_slot {slot : SrsSlot} {srs : SrsSdpResponse} {rest : List CStr}
    (hleft : Keyless left) (hend : left = [] ∨ ∃ f, ∃ c, left = f ++ [c] ∧ isWs c = true)
    (hr : ∀ b ∈ r, isWs b = true) (hother : ∀ t, slot = .other t → Keyless (srsClean t))
    (hbehind : ∀ key, slot = .key key → a.behind key = (a.layout key).afterValue ++ r)
    (hsmall : Small (left ++ (srsClean (a.member slot) ++ r))) :
    srsLoop (tokens comma (left ++ (srsClean (a.member slot) ++ r)) ++ rest) srs =
      srsLoop rest (a.take srs slot) := by
  cases slot with
  | other t =>
    have hall : Keyless (left ++ (srsClean t ++ r)) :=
      keyless_join hleft hend (keyless_ws (hother t rfl) hr)
    exact srsLoop_skip fun str hstr => hall.of_infix (infix_of_mem_tokens hstr)
  | key key =>
    have htext : left ++ (srsClean (a.member (.key key)) ++ r) =
        (left ++ (a.layout key).before) ++ quote :: (key.name ++
          quote :: ((a.layout key).afterKey ++ colon :: a.behindKey key)) := by
      simp only [srsClean_member, behindKey, hbehind key rfl, List.append_assoc, List.cons_append]
    rw [htext] at hsmall ⊢
    have hws := layout_ws (a.layout key)
    by_cases hkey : (a.layout key).afterKey = []
    · have hword : quote :: (key.name ++ quote :: ([] ++ colon :: a.behindKey key)) =
          key.word ++ a.behindKey key := by simp [SrsKey.word]
      rw [hkey, hword] at hsmall ⊢
      rw [take, if_pos hkey]
      exact srsLoop_found (keyless_ws hleft hws.1) (a.behindKey_unended key) hsmall
        fun h => h ▸ a.found_code
    · have hspaced : Unended ((a.layout key).before ++ quote :: (key.name ++
          quote :: ((a.layout key).afterKey ++ colon :: a.behindKey key))) := by
        have hname : quote ∉ key.name := by cases key <;> decide
        have hnot : ¬[quote, colon] <+:
            quote :: ((a.layout key).afterKey ++ colon :: a.behindKey key) := by
          obtain ⟨x, k, hx⟩ := List.exists_cons_of_ne_nil hkey
          rw [hx]
          intro h
          have hcolon : colon = x := by simpa using h
          have hxws := hws.2.1 x (by simp [hx])
          exact absurd hxws (by rw [← hcolon]; decide)
        rw [unended_high (ws_high hws.1), unended_cons, unended_free hname hnot, unended_cons,
          unended_high (ws_high hws.2.1), unended_cons]
        exact ⟨fun h => absurd h (by decide), fun h => absurd h (by decide),
          fun h => absurd h (by decide), a.behindKey_unended key⟩
      rw [take, if_neg hkey, List.append_assoc]
      have hall := keyless_join hleft hend hspaced.keyless
      exact srsLoop_skip fun str hstr => hall.of_infix (infix_of_mem_tokens hstr)

theorem members_cons (a : SrsAnswer) (slot next : SrsSlot) (slots : List (SrsSlot)) :
    a.members (slot :: next :: slots) = a.member slot ++ comma :: a.members (next :: slots) := by
  simp [members, List.intercalate]

theorem behind_last (h : [.key key] <:+ a.slots) :
    a.behind key = (a.layout key).afterValue ++ a.tail := by
  obtain ⟨front, hfront⟩ := h
  rw [behind, ← hfront, List.getLast?_append]
  simp

/-- Only one member comes last. -/
theorem behind_inner {next : SrsSlot} {slots : List (SrsSlot)}
    (h : .key key :: next :: slots <:+ a.slots) :
    a.behind key = (a.layout key).afterValue := by
  obtain ⟨front, hfront⟩ := h
  have honce := a.once key
  have hlast : a.slots.getLast? ≠ some (.key key) := by
    intro hlast
    rw [← hfront, List.getLast?_append, List.getLast?_cons_cons] at hlast
    have hmem : .key key ∈ next :: slots := by
      cases hget : (next :: slots).getLast? with
      | none => simp at hget
      | some slot =>
        rw [hget, Option.some_or, Option.some.injEq] at hlast
        exact hlast ▸ List.mem_of_getLast? hget
    have hpos := List.count_pos_iff.mpr hmem
    rw [← hfront, List.count_append, List.count_cons_self] at honce
    omega
  rw [behind, if_neg hlast, List.append_nil]

/-- From some member on, with what stands before it. -/
theorem srsLoop_members {slots : List (SrsSlot)} {srs : SrsSdpResponse} (hne : slots ≠ [])
    (hslots : slots <:+ a.slots) (hleft : Keyless left)
    (hend : left = [] ∨ ∃ f, ∃ c, left = f ++ [c] ∧ isWs c = true)
    (hsmall : Small (left ++ srsClean (a.members slots))) :
    srsLoop (tokens comma (left ++ srsClean (a.members slots))) srs =
      .ret (0, slots.foldl a.take srs) := by
  induction slots generalizing left srs with
  | nil => exact absurd rfl hne
  | cons slot slots ih =>
    have hother : ∀ t, slot = .other t → Keyless (srsClean t) := by
      rintro t rfl
      exact (a.others t (hslots.subset List.mem_cons_self)).2
    cases slots with
    | nil =>
      have hmembers : a.members [slot] = a.member slot ++ closeBrace :: a.tail := by
        simp [members, List.intercalate]
      rw [hmembers, srsClean_close a.tail_ws] at hsmall ⊢
      have hslot : srsLoop (tokens comma (left ++ (srsClean (a.member slot) ++ a.tail)) ++ []) srs =
          srsLoop [] (a.take srs slot) :=
        srsLoop_slot hleft hend a.tail_ws hother (fun key h => behind_last (h ▸ hslots)) hsmall
      rw [List.append_nil] at hslot
      rw [hslot]
      rfl
    | cons next slots =>
      rw [members_cons, srsClean_sep (by decide) (by decide), ← List.append_assoc] at hsmall ⊢
      have hfirst : Small (left ++ (srsClean (a.member slot) ++ [])) := by
        rw [List.append_nil]
        exact hsmall.of_infix (List.prefix_append _ _).isInfix
      have hrest : Small (srsClean (a.members (next :: slots))) :=
        hsmall.of_infix ((List.suffix_cons _ _).trans (List.suffix_append _ _)).isInfix
      have hslot : ∀ rest, srsLoop (tokens comma (left ++ (srsClean (a.member slot) ++ [])) ++ rest)
          srs = srsLoop rest (a.take srs slot) := fun rest =>
        srsLoop_slot hleft hend (by simp) hother
          (fun key h => by rw [behind_inner (h ▸ hslots), List.append_nil]) hfirst
      rw [List.append_nil] at hslot
      rw [tokens_append_sep, hslot]
      have hnext : srsLoop (tokens comma ([] ++ srsClean (a.members (next :: slots))))
          (a.take srs slot) = .ret (0, (next :: slots).foldl a.take (a.take srs slot)) :=
        ih (List.cons_ne_nil _ _) ((List.suffix_cons slot _).trans hslots) unended_nil.keyless
          (.inl rfl) hrest
      exact hnext

theorem raw_nul (ps : List Segment) : (0 : UInt8) ∉ raw ps := by
  intro h
  obtain ⟨p, -, hp⟩ := List.mem_flatMap.mp h
  cases p with
  | plain b hb =>
    obtain rfl : 0 = b := by simpa [Segment.raw] using hp
    exact absurd hb.1 (by decide)
  | escape e =>
    revert hp
    cases e <;> decide
  | unicode d =>
    simp only [Segment.raw, List.mem_cons] at hp
    rcases hp with hp | hp | hp
    · exact absurd hp (by decide)
    · exact absurd hp (by decide)
    · exact absurd (isHex_range (d.hex _ hp)).1 (by decide)

theorem ws_nul {ws : CStr} (h : ∀ b ∈ ws, isWs b = true) : (0 : UInt8) ∉ ws :=
  fun hmem => absurd (h 0 hmem) (by decide)

theorem member_nul (a : SrsAnswer) (key : SrsKey) : (0 : UInt8) ∉ a.member (.key key) := by
  obtain ⟨hbefore, hkey, hvalue, hafter⟩ := layout_ws (a.layout key)
  have hname : (0 : UInt8) ∉ key.name := by cases key <;> decide
  have htext : (0 : UInt8) ∉ a.valueText key := by
    unfold valueText
    cases a.strings key with
    | none => decide
    | some ps =>
      simp only [List.mem_cons, List.mem_append, List.not_mem_nil, or_false, not_or]
      exact ⟨by decide, raw_nul ps, by decide⟩
  simp only [member, List.mem_append, List.mem_cons, not_or]
  exact ⟨ws_nul hbefore, by decide, hname, by decide, ws_nul hkey, by decide, ws_nul hvalue, htext,
    ws_nul hafter⟩

theorem text_nul (a : SrsAnswer) : (0 : UInt8) ∉ a.text := by
  simp only [text, members, List.mem_append, List.mem_cons, not_or]
  refine ⟨a.head_keyless.1, ws_nul a.gap_ws.2, by decide, fun hmem => ?_, by decide,
    ws_nul a.tail_ws⟩
  obtain ⟨t, ht, hmem⟩ := List.mem_flatten.mp hmem
  rcases mem_intersperse ht with ht | rfl
  · obtain ⟨slot, hslot, rfl⟩ := List.mem_map.mp ht
    cases slot with
    | key key => exact a.member_nul key hmem
    | other t => exact (a.others t hslot).1 hmem
  · exact absurd hmem (by decide)

theorem yangSdpQuerySrs_text (h : a.text.length < yangSdpBufferlen) :
    yangSdpQuerySrs (some a.text) {} = .ret (0, a.slots.foldl a.take {}) := by
  have hsmall : Small a.text := ⟨a.text_nul, h⟩
  have htext : srsClean a.text = srsClean a.head ++ a.gap ++ srsClean (a.members a.slots) := by
    rw [text, srsClean_between a.gap_ws.2 a.gap_ws.1, srsClean_brace (by decide),
      List.append_assoc]
  have hne : a.slots ≠ [] := by
    intro hnil
    have honce := a.once .code
    rw [hnil] at honce
    exact absurd honce (by decide)
  have hend : srsClean a.head ++ a.gap = [] ∨
      ∃ f, ∃ c, srsClean a.head ++ a.gap = f ++ [c] ∧ isWs c = true := by
    right
    obtain ⟨f, c, hgap⟩ := (List.eq_nil_or_concat a.gap).resolve_left a.gap_ws.1
    refine ⟨srsClean a.head ++ f, c, by simp [hgap], a.gap_ws.2 c (by simp [hgap])⟩
  rw [yangSdpQuerySrs_small hsmall, htext]
  exact srsLoop_members hne (List.suffix_refl _) (keyless_ws a.head_keyless.2 a.gap_ws.2) hend
    (htext ▸ hsmall.clean)

theorem get_store (srs : SrsSdpResponse) (v : CStr) {key' : SrsKey} (h : key' ≠ .code) :
    (srs.store key v).get key' = if key' = key then some v else srs.get key' := by
  cases key' with
  | code => exact absurd rfl h
  | server | sessionid | sdp => cases key <;> rfl

/-- In the end a key has what stands behind it, wherever it is among the members. -/
theorem get_foldl {slots : List SrsSlot} {srs : SrsSdpResponse} (hkey : key ≠ .code) :
    (slots.foldl a.take srs).get key =
      if .key key ∈ slots ∧ (a.layout key).afterKey = [] then some (found (a.behindKey key))
      else srs.get key := by
  induction slots generalizing srs with
  | nil => simp
  | cons slot slots ih =>
    rw [List.foldl_cons, ih]
    have hone : (a.take srs slot).get key =
        if .key key = slot ∧ (a.layout key).afterKey = [] then some (found (a.behindKey key))
        else srs.get key := by
      cases slot with
      | other t => simp [take]
      | key key' =>
        rw [take]
        split
        · rename_i hspace
          rw [get_store srs _ hkey]
          by_cases hsame : key = key'
          · subst hsame
            simp [hspace]
          · simp [hsame]
        · rename_i hspace
          rw [if_neg]
          rintro ⟨hsame, hnil⟩
          exact hspace ((SrsSlot.key.inj hsame) ▸ hnil)
    rw [hone]
    by_cases hspace : (a.layout key).afterKey = []
    · by_cases hin : SrsSlot.key key ∈ slots <;> simp [hin, hspace]
    · simp [hspace]

theorem get_run (a : SrsAnswer) (hkey : key ≠ .code) :
    (a.slots.foldl a.take {}).get key =
      if (a.layout key).afterKey = [] then some (found (a.behindKey key)) else none := by
  have hmem : .key key ∈ a.slots := List.count_pos_iff.mp (by rw [a.once key]; exact Nat.zero_lt_one)
  have hempty : ({} : SrsSdpResponse).get key = none := by cases key <;> rfl
  rw [get_foldl hkey, hempty]
  simp [hmem]

/-- The string of one member is got out of the answer. -/
theorem got_iff (a : SrsAnswer) (hkey : key ≠ .code) {w : CStr} :
    (a.slots.foldl a.take {}).get key = some w ↔
      (a.layout key).afterKey = [] ∧ found (a.behindKey key) = w := by
  rw [a.get_run hkey]
  split <;> simp [*]

theorem extracted_iff (a : SrsAnswer) : a.Extracted ↔ a.text.length < yangSdpBufferlen ∧
    (a.slots.foldl a.take {}).get .sdp = some (lfText a.sdp) ∧
    (a.slots.foldl a.take {}).get .server = some (value a.server) ∧
    (a.slots.foldl a.take {}).get .sessionid = some (value a.sessionid) := by
  constructor
  · rintro ⟨srs, hret, hstrings⟩
    have hfits := yangSdpQuerySrs_fits hret
    rw [a.yangSdpQuerySrs_text hfits] at hret
    cases hret
    exact ⟨hfits, hstrings⟩
  · rintro ⟨hfits, hstrings⟩
    exact ⟨_, a.yangSdpQuerySrs_text hfits, hstrings⟩

end Run

end SrsAnswer

/-- The members come out of an answer exactly where their texts stand bare in it. -/
theorem querySrs_iff_bare (a : SrsAnswer) : a.Extracted ↔ a.Bare := by
  have hws : ∀ key, ∀ b ∈ (a.layout key).beforeValue, isWs b = true :=
    fun key => (SrsAnswer.layout_ws (a.layout key)).2.2.1
  have hbehind : ∀ key ps, a.strings key = some ps → a.behindKey key =
      (a.layout key).beforeValue ++ quote :: (toLf (raw (unbraced ps)) ++ quote :: a.behind key) := by
    intro key ps hps
    simp [SrsAnswer.behindKey, SrsAnswer.cleanValue, hps]
  have hsdp := sdp_exact a.lines (hws .sdp) (a.behind_ws .sdp)
  have hserver := @string_exact a.server _ _ (hws .server) (a.behind_ws .server)
  have hsession := @string_exact a.sessionid _ _ (hws .sessionid) (a.behind_ws .sessionid)
  rw [← hbehind _ _ rfl] at hsdp hserver hsession
  rw [a.extracted_iff, a.got_iff (by decide), a.got_iff (by decide), a.got_iff (by decide), hsdp, hserver,
    hsession]
  constructor
  · rintro ⟨hfits, ⟨hk, hv⟩, ⟨hk', hv'⟩, hk'', hv''⟩
    refine ⟨hfits, fun key hkey => ?_, hv, hv', hv''⟩
    cases key with
    | code => exact absurd rfl hkey
    | server => exact hk'
    | sessionid => exact hk''
    | sdp => exact hk
  · rintro ⟨hfits, hkeys, hv, hv', hv''⟩
    exact ⟨hfits, ⟨hkeys _ (by decide), hv⟩, ⟨hkeys _ (by decide), hv'⟩, hkeys _ (by decide), hv''⟩

/-- One line of the description has a comma in it. -/
def commaAnswer : SrsAnswer where
  head := lit "HTTP/1.1 200 OK"
  gap := kCRLF ++ kCRLF
  slots := [.key .code, .key .server, .key .sdp, .key .sessionid]
  layout := fun _ => {}
  server := ofPlain (lit "vid") (by decide)
  sessionid := ofPlain (lit "1:2") (by decide)
  sdp := [ofPlain (lit "v=0") (by decide), ofPlain (lit "a=rid:1 send pt=97,98") (by decide)]
  tail := []
  once := fun key => by cases key <;> decide
  head_keyless := ⟨by decide, keyless_free (by decide)⟩
  gap_ws := by decide
  others := by simp
  lines := by decide
  tail_ws := by decide

/-- The description ends at the comma. -/
theorem querySrs_comma : ¬commaAnswer.Extracted ∧
    ∃ srs, yangSdpQuerySrs (some commaAnswer.text) {} = .ret (0, srs) ∧
      srs.sdp = some (lit "v=0\na=rid:1 send pt=97") := by
  have hsdp : (commaAnswer.slots.foldl commaAnswer.take {}).get .sdp =
      some (lit "v=0\na=rid:1 send pt=97") := by
    have hspace : (commaAnswer.layout .sdp).afterKey = [] := rfl
    rw [commaAnswer.get_run (by decide), if_pos hspace]
    decide
  constructor
  · intro h
    have hwhole := (commaAnswer.extracted_iff.mp h).2.1
    rw [hsdp] at hwhole
    exact absurd hwhole (by decide)
  · exact ⟨_, commaAnswer.yangSdpQuerySrs_text (by decide), hsdp⟩

end MetaRtc
