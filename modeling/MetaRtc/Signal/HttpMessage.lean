import MetaRtc.Signal.Http

/-! # HTTP messages with a length

What the searches of the receivers find in a message of which only the first bytes are there. -/
namespace MetaRtc

open Exec Bytes Tokens Occurrences

def endLines (ls : List CStr) : CStr := ls.flatMap (· ++ kCRLF)

/-- The fields are taken as lines, the one with the length apart. Its name is written in letters of
either case. The phrase the receivers look for is in no line before, and anywhere behind only if the
name is spelled so. -/
structure HttpMessage where
  start : CStr
  fieldsBefore : List CStr
  name : CStr
  ows : CStr
  ows' : CStr
  fieldsAfter : List CStr
  body : CStr
  http : lit "HTTP" <:+: start
  named : name.map tolower = lit "content-length"
  blank : ∀ b ∈ ows ++ ows', b = space ∨ b = 9
  lines : ∀ line ∈ start :: (fieldsBefore ++ fieldsAfter),
    line ≠ [] ∧ CR ∉ line ∧ 0 ∉ line
  first : ∀ line ∈ start :: fieldsBefore, ¬yangHttpContent <:+: line
  apart : name = lit "Content-Length" ∨
    (∀ line ∈ fieldsAfter, ¬yangHttpContent <:+: line) ∧ ¬yangHttpContent <:+: body

namespace HttpMessage

variable (m : HttpMessage)

/-- What stands behind the colon. -/
def lengthText : CStr := m.ows ++ (decimal m.body.length ++ m.ows')

def lengthLine : CStr := m.name ++ colon :: m.lengthText

def front : CStr := endLines (m.start :: m.fieldsBefore)

def rest : CStr := kCRLF ++ (endLines m.fieldsAfter ++ kCRLF)

def head : CStr := m.front ++ (m.lengthLine ++ m.rest)

def bytes : CStr := m.head ++ m.body

/-- What a search for a word can see of the message. -/
def text : CStr := m.head ++ upTo 0 m.body

/-- The name is spelled as the receivers look for it. -/
def Spelled : Prop := m.name = lit "Content-Length"

instance : Decidable m.Spelled := inferInstanceAs (Decidable (_ = _))

/-- Where the line of the length has its carriage return. -/
def lineEnd : Nat := m.front.length + m.lengthLine.length

end HttpMessage

section Lines

variable {ls : List CStr} {p ys : CStr}

theorem endLines_cons (line : CStr) (ls : List CStr) :
    endLines (line :: ls) = line ++ CR :: LF :: endLines ls := by
  simp [endLines, kCRLF]

theorem endLines_append (ls ls' : List CStr) :
    endLines (ls ++ ls') = endLines ls ++ endLines ls' := List.flatMap_append

/-- A word without line ends does not reach over one. -/
theorem not_infix_lines (hp : p ≠ []) (hcr : CR ∉ p) (hlf : LF ∉ p)
    (hls : ∀ line ∈ ls, ¬p <:+: line) (hys : ¬p <:+: ys) : ¬p <:+: endLines ls ++ ys := by
  induction ls with
  | nil => exact hys
  | cons line ls ih =>
    obtain ⟨hline, hls⟩ := List.forall_mem_cons.mp hls
    intro h
    rw [endLines_cons, List.append_assoc] at h
    rcases infix_append_sep hcr h with h | h
    · exact hline h
    · exact ih hls (infix_of_infix_cons hp hlf h)

/-- The first blank line is the one behind the lines. -/
theorem find_blank_line (hne : ls ≠ []) (hls : ∀ line ∈ ls, line ≠ [] ∧ CR ∉ line) (ys : CStr) :
    find (kCRLF ++ kCRLF) (endLines ls ++ (kCRLF ++ ys)) = some ((endLines ls).length - 2) := by
  induction ls with
  | nil => exact absurd rfl hne
  | cons line ls ih =>
    obtain ⟨⟨hline, hcr⟩, hls⟩ := List.forall_mem_cons.mp hls
    have hword : kCRLF ++ kCRLF = CR :: [LF, CR, LF] := rfl
    rw [endLines_cons, List.append_assoc, hword, find_append_free hcr]
    cases ls with
    | nil =>
      have hhere : find (CR :: [LF, CR, LF]) (CR :: LF :: endLines [] ++ (kCRLF ++ ys)) = some 0 := by
        simp [find, endLines, kCRLF]
      rw [hhere]
      simp [endLines]
    | cons next ls =>
      have hrest := ih (List.cons_ne_nil _ _) hls
      obtain ⟨⟨hnext, hncr⟩, -⟩ := List.forall_mem_cons.mp hls
      obtain ⟨b, bs, rfl⟩ := List.exists_cons_of_ne_nil hnext
      have hb : CR ≠ b := fun h => hncr (by simp [h])
      have hlen : 2 ≤ (endLines ((b :: bs) :: ls)).length := by
        simp only [endLines_cons, List.length_append, List.length_cons]
        omega
      have hnot : ¬[CR, LF, CR, LF] <+: CR :: LF :: (endLines ((b :: bs) :: ls) ++ (kCRLF ++ ys)) := by
        simp [endLines_cons, hb]
      have hnot' : ¬[CR, LF, CR, LF] <+: LF :: (endLines ((b :: bs) :: ls) ++ (kCRLF ++ ys)) :=
        fun h => absurd (List.cons_prefix_cons.mp h).1 (by decide)
      rw [hword] at hrest
      rw [List.cons_append, List.cons_append, find, if_neg hnot, find, if_neg hnot', hrest]
      simp only [Option.map_some, List.length_append, List.length_cons, Option.some.injEq]
      omega

end Lines

theorem content_eq : yangHttpContent = lit "Content-Length" ++ [colon] := by decide

namespace HttpMessage

section Find

variable (m : HttpMessage)

/-- No colon, line end or NUL is in the name. -/
theorem name_free : colon ∉ m.name ∧ CR ∉ m.name ∧ 0 ∉ m.name ∧ LF ∉ m.name := by
  have hnot : ∀ b, tolower b ∉ lit "content-length" → b ∉ m.name := by
    intro b hb hmem
    exact hb (m.named ▸ List.mem_map_of_mem hmem)
  exact ⟨hnot _ (by decide), hnot _ (by decide), hnot _ (by decide), hnot _ (by decide)⟩

theorem name_length : m.name.length = 14 := by
  rw [← List.length_map, m.named]
  rfl

theorem lengthText_chars : ∀ b ∈ m.lengthText, b = space ∨ b = 9 ∨ isdigit b = true := by
  intro b hb
  simp only [lengthText, List.mem_append] at hb
  rcases hb with hb | hb | hb
  · exact (m.blank b (by simp [hb])).imp_right .inl
  · exact .inr (.inr (decimal_digits _ b hb))
  · exact (m.blank b (by simp [hb])).imp_right .inl

theorem lengthText_free : colon ∉ m.lengthText ∧ CR ∉ m.lengthText ∧ 0 ∉ m.lengthText := by
  have hnot : ∀ b : UInt8, ¬(b = space ∨ b = 9 ∨ isdigit b = true) → b ∉ m.lengthText :=
    fun b hb hmem => hb (m.lengthText_chars b hmem)
  exact ⟨hnot _ (by decide), hnot _ (by decide), hnot _ (by decide)⟩

theorem lengthLine_free : m.lengthLine ≠ [] ∧ CR ∉ m.lengthLine ∧ 0 ∉ m.lengthLine := by
  obtain ⟨-, hcr, hnul, -⟩ := m.name_free
  obtain ⟨-, hcr', hnul'⟩ := m.lengthText_free
  refine ⟨by simp [lengthLine], ?_, ?_⟩
  · simp only [lengthLine, List.mem_append, List.mem_cons, not_or]
    exact ⟨hcr, by decide, hcr'⟩
  · simp only [lengthLine, List.mem_append, List.mem_cons, not_or]
    exact ⟨hnul, by decide, hnul'⟩

/-- A name that is spelled otherwise is not found in its line. -/
theorem lengthLine_content (h : ¬m.Spelled) : ¬yangHttpContent <:+: m.lengthLine := by
  rintro ⟨s, t, hst⟩
  have hcount : (m.lengthLine).count colon = 1 := by
    rw [lengthLine, List.count_append, List.count_cons_self, List.count_eq_zero.mpr m.name_free.1,
      List.count_eq_zero.mpr m.lengthText_free.1]
  have hword : s ++ lit "Content-Length" ++ colon :: t = m.lengthLine := by
    rw [← hst, content_eq]
    simp
  have hnone : colon ∉ s ++ lit "Content-Length" := by
    rw [← hword, List.count_append, List.count_cons_self] at hcount
    exact List.count_eq_zero.mp (by omega)
  have hcut : cut colon m.lengthLine = some (s ++ lit "Content-Length", t) :=
    cut_eq_some.mpr ⟨hword.symm, hnone⟩
  have hcut' : cut colon m.lengthLine = some (m.name, m.lengthText) :=
    cut_eq_some.mpr ⟨rfl, m.name_free.1⟩
  rw [hcut'] at hcut
  have hname : m.name = s ++ lit "Content-Length" := (Prod.mk.inj (Option.some.inj hcut)).1
  have hlen := congrArg List.length hname
  have hfourteen : (lit "Content-Length").length = 14 := by decide
  rw [m.name_length, List.length_append, hfourteen] at hlen
  have hs : s = [] := List.length_eq_zero_iff.mp (by omega)
  exact h (by rw [Spelled, hname, hs, List.nil_append])

theorem head_lines :
    m.head = endLines (m.start :: (m.fieldsBefore ++ m.lengthLine :: m.fieldsAfter)) ++ kCRLF := by
  rw [head, front, rest, ← List.cons_append, endLines_append, endLines_cons m.lengthLine]
  simp [kCRLF]

theorem line_mem {line : CStr}
    (h : line ∈ m.start :: (m.fieldsBefore ++ m.lengthLine :: m.fieldsAfter)) :
    line ∈ m.start :: (m.fieldsBefore ++ m.fieldsAfter) ∨ line = m.lengthLine := by
  simp only [List.mem_cons, List.mem_append] at h ⊢
  tauto

theorem line_free : ∀ line ∈ m.start :: (m.fieldsBefore ++ m.lengthLine :: m.fieldsAfter),
    line ≠ [] ∧ CR ∉ line ∧ 0 ∉ line := by
  intro line hline
  rcases m.line_mem hline with hline | rfl
  · exact m.lines line hline
  · exact m.lengthLine_free

theorem head_nul : (0 : UInt8) ∉ m.head := by
  rw [head_lines, List.mem_append, not_or]
  refine ⟨fun h => ?_, by decide⟩
  obtain ⟨line, hline, hmem⟩ := List.mem_flatMap.mp h
  rcases List.mem_append.mp hmem with hmem | hmem
  · exact (m.line_free line hline).2.2 hmem
  · exact absurd hmem (by decide)

theorem upTo_bytes : upTo 0 m.bytes = m.text := upTo_append m.head_nul

theorem find_head : find (kCRLF ++ kCRLF) m.text = some (m.head.length - 4) := by
  have hfind := find_blank_line (List.cons_ne_nil m.start _)
    (fun line hline => ⟨(m.line_free line hline).1, (m.line_free line hline).2.1⟩) (upTo 0 m.body)
  rw [text, head_lines, List.append_assoc, hfind, List.length_append]
  simp only [kCRLF, List.length_cons, List.length_nil, Option.some.injEq]
  omega

theorem front_content : ¬yangHttpContent <:+: m.front := by
  have hnil : ¬yangHttpContent <:+: [] := by decide
  have hfront := not_infix_lines (by decide) (by decide) (by decide) m.first hnil
  rwa [List.append_nil] at hfront

theorem lengthLine_spelled (h : m.Spelled) : m.lengthLine = yangHttpContent ++ m.lengthText := by
  rw [lengthLine, show m.name = _ from h, content_eq]
  simp

theorem find_content (h : m.Spelled) (ys : CStr) :
    find yangHttpContent (m.head ++ ys) = some m.front.length := by
  have htext : m.head ++ ys = m.front ++ (yangHttpContent ++ (m.lengthText ++ m.rest ++ ys)) := by
    simp [head, m.lengthLine_spelled h]
  rw [htext]
  have hall : ∀ i < yangHttpContent.length, 0 < i →
      ¬yangHttpContent.drop i <+: yangHttpContent ∧ ¬yangHttpContent <+: yangHttpContent.drop i := by
    decide
  exact find_first (by decide) m.front_content fun i hpos hi => hall i hi hpos

/-- Where the name is spelled otherwise, the phrase is nowhere. -/
theorem bytes_content (h : ¬m.Spelled) : ¬yangHttpContent <:+: m.bytes := by
  obtain ⟨hafter, hbody⟩ := m.apart.resolve_left h
  have hblank : ¬yangHttpContent <:+: kCRLF ++ m.body := by
    intro hin
    have hlf : yangHttpContent <:+: LF :: m.body :=
      infix_of_infix_cons (by decide) (by decide) hin
    exact hbody (infix_of_infix_cons (by decide) (by decide) hlf)
  rw [bytes, head_lines, List.append_assoc]
  apply not_infix_lines (by decide) (by decide) (by decide) _ hblank
  intro line hline
  rcases List.mem_cons.mp hline with rfl | hline
  · exact m.first _ List.mem_cons_self
  · rcases List.mem_append.mp hline with hline | hline
    · exact m.first line (List.mem_cons_of_mem _ hline)
    · rcases List.mem_cons.mp hline with rfl | hline
      · exact m.lengthLine_content h
      · exact hafter line hline

theorem text_start : m.text <+: m.bytes := by
  rw [← upTo_bytes]
  exact upTo_start 0 m.bytes

end Find

section Part

variable (m : HttpMessage) {size k : Nat}

theorem strstrIn_eq {bs : CStr} (h : bs.length < size) (word : CStr) :
    strstrIn size bs word = .ret (find word (upTo 0 bs)) := by
  unfold strstrIn
  split
  · rename_i hfind
    rw [hfind]
  · rename_i hfind
    rw [if_pos (.inl h), hfind]

theorem take_text (k : Nat) : upTo 0 (m.bytes.take k) = m.text.take k := by
  rw [upTo_take, upTo_bytes]

theorem take_lt (hk : k < size) : (m.bytes.take k).length < size :=
  Nat.lt_of_le_of_lt (List.length_take_le k _) hk

theorem head_length : m.lineEnd + 4 ≤ m.head.length := by
  simp only [lineEnd, head, rest, kCRLF, List.length_append, List.length_cons, List.length_nil]
  omega

theorem contetSize_lt : contetSize < m.lengthLine.length + 1 := by
  rw [lengthLine, List.length_append, m.name_length, List.length_cons, contetSize]
  omega

theorem lineEnd_pos : m.front.length + 15 ≤ m.lineEnd := by
  rw [lineEnd, lengthLine, List.length_append, m.name_length, List.length_cons]
  omega

theorem strstr_blank (hk : k < size) : strstrIn size (m.bytes.take k) (kCRLF ++ kCRLF) =
    .ret (if m.head.length ≤ k then some (m.head.length - 4) else none) := by
  have hlen := m.head_length
  have hfour : (kCRLF ++ kCRLF).length = 4 := rfl
  rw [strstrIn_eq (m.take_lt hk), take_text, find_take (by decide), m.find_head, hfour]
  simp only
  rw [Nat.sub_add_cancel (by omega)]

theorem strstr_content (hs : m.Spelled) (hk : k < size) :
    strstrIn size (m.bytes.take k) yangHttpContent =
      .ret (if m.front.length + 15 ≤ k then some m.front.length else none) := by
  have hlen : yangHttpContent.length = 15 := by decide
  rw [strstrIn_eq (m.take_lt hk), take_text, find_take (by decide), text, m.find_content hs, hlen]

theorem strstr_content_none (hs : ¬m.Spelled) (hk : k < size) :
    strstrIn size (m.bytes.take k) yangHttpContent = .ret none := by
  rw [strstrIn_eq (m.take_lt hk), take_text]
  congr 1
  apply find_none_of_absent (by decide)
  intro h
  apply m.bytes_content hs
  exact h.trans ((List.take_prefix k m.text).trans m.text_start).isInfix

/-- The phrase is in the first bytes if these reach to its end. -/
theorem content_start {c : CStr} (hc : c <+: m.bytes) :
    yangHttpContent <:+: c ↔ m.Spelled ∧ m.front.length + 15 ≤ c.length := by
  have hfind : m.Spelled → find yangHttpContent c =
      if m.front.length + 15 ≤ c.length then some m.front.length else none := by
    intro hs
    have hlen : yangHttpContent.length = 15 := by decide
    rw [List.prefix_iff_eq_take.mp hc, find_take (by decide), bytes, m.find_content hs, hlen,
      ← bytes, ← List.prefix_iff_eq_take.mp hc]
  constructor
  · intro h
    have hs : m.Spelled := by
      by_contra hnot
      exact m.bytes_content hnot (h.trans hc.isInfix)
    obtain ⟨n, hn⟩ := find_of_infix (by decide) h
    rw [hfind hs] at hn
    refine ⟨hs, ?_⟩
    by_contra hlt
    rw [if_neg hlt] at hn
    exact nomatch hn
  · rintro ⟨hs, hlen⟩
    have hsome := hfind hs
    rw [if_pos hlen, find_eq_some (by decide)] at hsome
    exact infix_of_prefix_drop hsome.1

/-- As soon as the carriage return is there, the line is. -/
theorem take_line (h : m.lineEnd < k) :
    ∃ t, m.bytes.take k = m.front ++ (m.lengthLine ++ CR :: t) := by
  have hpre : m.front ++ (m.lengthLine ++ [CR]) <+: m.bytes := by
    refine ⟨LF :: (endLines m.fieldsAfter ++ kCRLF ++ m.body), ?_⟩
    simp [bytes, head, rest, kCRLF]
  have htake : m.front ++ (m.lengthLine ++ [CR]) <+: m.bytes.take k := by
    refine List.prefix_take_iff.mpr ⟨hpre, ?_⟩
    simp only [lineEnd] at h
    simp only [List.length_append, List.length_cons, List.length_nil]
    omega
  obtain ⟨t, ht⟩ := htake
  exact ⟨t, by rw [← ht]; simp⟩

theorem find_return (hk : k < size) :
    yangCstrUserfindindex size (m.bytes.take k) m.front.length CR =
      .ret (if m.lineEnd < k then m.lengthLine.length + 1 else 0) := by
  have hread : readTo size (upTo 0 (m.bytes.take k)) = .ret (m.text.take k) := by
    rw [take_text, readTo, strcpy, if_pos]
    exact Nat.lt_of_le_of_lt (List.length_take_le k _) hk
  have hcut : cut CR (m.text.drop m.front.length) =
      some (m.lengthLine, LF :: (endLines m.fieldsAfter ++ kCRLF ++ upTo 0 m.body)) := by
    refine cut_eq_some.mpr ⟨?_, m.lengthLine_free.2.1⟩
    simp [text, head, rest, kCRLF]
  rw [yangCstrUserfindindex, hread, Call.ret_bind, List.drop_take, cut_take hcut]
  unfold lineEnd
  split
  · rename_i before after hsome
    split at hsome
    · rw [if_pos (by omega)]
      cases hsome
      rfl
    · cases hsome
  · rename_i hnone
    split at hnone
    · cases hnone
    · rw [if_neg (by omega)]
      rfl

/-- The line is copied from behind `Content-`, with its carriage return. -/
theorem line_copied (hs : m.Spelled) (hk : m.lineEnd < k) :
    (((m.bytes.take k).drop m.front.length).drop contetSize).take
      (m.lengthLine.length + 1 - contetSize) = lit "Length:" ++ (m.lengthText ++ [CR]) := by
  obtain ⟨t, ht⟩ := m.take_line hk
  have hline : m.lengthLine = lit "Content-" ++ (lit "Length:" ++ m.lengthText) := by
    rw [m.lengthLine_spelled hs, show yangHttpContent = lit "Content-" ++ lit "Length:" by decide,
      List.append_assoc]
  have height : (lit "Content-").length = contetSize := by decide
  rw [ht, List.drop_append_length, hline, List.append_assoc, ← height, List.drop_append_length]
  have hlen : (lit "Content-" ++ (lit "Length:" ++ m.lengthText)).length + 1 -
      (lit "Content-").length = (lit "Length:" ++ (m.lengthText ++ [CR])).length := by
    simp only [List.length_append, List.length_cons, List.length_nil]
    omega
  have htext : lit "Length:" ++ m.lengthText ++ CR :: t =
      (lit "Length:" ++ (m.lengthText ++ [CR])) ++ t := by simp
  rw [hlen, htext, List.take_left]

theorem number_index : yangCstrIsnumber (lit "Length:" ++ (m.lengthText ++ [CR])) =
    some (7 + m.ows.length) := by
  obtain ⟨b, bs, hb, hdigit⟩ := decimal_head m.body.length
  have htext : lit "Length:" ++ (m.lengthText ++ [CR]) =
      (lit "Length:" ++ m.ows) ++ b :: (bs ++ (m.ows' ++ [CR])) := by
    simp [lengthText, hb]
  have hnone : (lit "Length:" ++ m.ows).findIdx? isdigit = none := by
    rw [List.findIdx?_eq_none_iff]
    intro c hc
    rcases List.mem_append.mp hc with hc | hc
    · have hall : ∀ c ∈ lit "Length:", isdigit c = false := by decide
      exact hall c hc
    · rcases m.blank c (by simp [hc]) with rfl | rfl <;> decide
  have hseven : (lit "Length:").length = 7 := by decide
  rw [yangCstrIsnumber, htext, List.findIdx?_append, hnone, List.findIdx?_cons, if_pos hdigit]
  simp [hseven]

theorem read_length (hs : m.Spelled) (hk : m.lineEnd < k) (hn : m.body.length < 2 ^ 31) (old : Int32) :
    readContentLen (m.bytes.take k) m.front.length (m.lengthLine.length + 1) old =
      if m.lengthText.length ≤ 12 then .ret (.ofNat m.body.length) else .crash := by
  have hlen : (lit "Length:" ++ (m.lengthText ++ [CR])).length = m.lengthText.length + 8 := by
    have hseven : (lit "Length:").length = 7 := by decide
    simp only [List.length_append, List.length_cons, List.length_nil, hseven]
    omega
  rw [readContentLen, m.line_copied hs hk, memcpyTo, hlen]
  by_cases hfits : m.lengthText.length ≤ 12
  · have hdrop : (lit "Length:" ++ (m.lengthText ++ [CR])).drop (7 + m.ows.length) =
        decimal m.body.length ++ (m.ows' ++ [CR]) := by
      have htext : lit "Length:" ++ (m.lengthText ++ [CR]) =
          (lit "Length:" ++ m.ows) ++ (decimal m.body.length ++ (m.ows' ++ [CR])) := by
        simp [lengthText]
      have hseven : (lit "Length:" ++ m.ows).length = 7 + m.ows.length := by
        rw [List.length_append, show (lit "Length:").length = 7 by decide]
      rw [htext, ← hseven, List.drop_append_length]
    have hatoi : atoi (decimal m.body.length ++ (m.ows' ++ [CR])) = .ofNat m.body.length := by
      have hnil : ∀ b ∈ ([] : CStr), isspace b = true := by simp
      apply atoi_decimal hnil _ hn
      intro b hb
      have hmem : b ∈ m.ows' ++ [CR] := List.mem_of_mem_head? hb
      rcases List.mem_append.mp hmem with hmem | hmem
      · rcases m.blank b (by simp [hmem]) with rfl | rfl <;> decide
      · rw [List.mem_singleton.mp hmem]
        decide
    rw [if_pos (by omega), if_pos hfits, Call.ret_bind, m.number_index]
    simp only [hdrop, hatoi]
    rfl
  · rw [if_neg (by omega), if_neg hfits]
    rfl

end Part

end HttpMessage

end MetaRtc
