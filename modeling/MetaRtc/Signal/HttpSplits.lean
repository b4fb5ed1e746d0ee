import MetaRtc.Signal.HttpServer

/-! # What a split of a message decides -/
namespace MetaRtc

open Exec Bytes Tokens Occurrences

section Served

variable {body : CStr}

theorem filter_brace (xs : CStr) : replaceAll (lit "\x7d") [] xs = xs.filter (· ≠ closeBrace) := by
  rw [show lit "\x7d" = [closeBrace] by decide]
  exact replaceAll_char closeBrace xs

/-- A body is handed on as it came only without NULs, CR LFs and braces. -/
theorem served_eq : served body = body ↔ 0 ∉ body ∧ closeBrace ∉ body ∧ ¬kCRLF <:+: body := by
  constructor
  · intro h
    have hlf : (replaceAll kCRLF [LF] (upTo 0 body)).length ≤ (upTo 0 body).length :=
      replaceAll_length_le (by decide) (by decide) _
    have hup : (upTo 0 body).length ≤ body.length := (upTo_start 0 body).length_le
    have hserved : (served body).length ≤ (replaceAll kCRLF [LF] (upTo 0 body)).length :=
      replaceAll_length_le (by decide) (by decide) _
    rw [h] at hserved
    have hall : upTo 0 body = body := (upTo_start 0 body).eq_of_length (by omega)
    refine ⟨fun hmem => not_mem_upTo 0 body (hall.symm ▸ hmem), fun hmem => ?_, fun hin => ?_⟩
    · rw [← h, served, filter_brace] at hmem
      simp at hmem
    · have hless := replaceAll_length_lt (by decide : kCRLF ≠ []) (by decide : [LF].length < 2) hin
      rw [hall] at hserved
      omega
  · rintro ⟨hnul, hbrace, hcrlf⟩
    rw [served, upTo_free hnul, replaceAll_none (find_none_of_absent (by decide) hcrlf),
      filter_brace]
    apply List.filter_eq_self.mpr
    intro b hb
    exact decide_eq_true fun h => hbrace (h ▸ hb)

end Served

section Room

variable {size size' : Nat} {s : HttpState} {c word : CStr} {recvs : List Recv}

theorem strstrIn_narrows (h : size ≤ size') (c word : CStr) :
    (strstrIn size c word).Narrows (strstrIn size' c word) := by
  unfold strstrIn
  split
  · exact .refl _
  · split
    · rename_i hin
      rw [if_pos (hin.imp_left fun hlt => Nat.lt_of_lt_of_le hlt h)]
      exact .refl _
    · exact .inl rfl

theorem readTo_narrows (h : size ≤ size') (c : CStr) : (readTo size c).Narrows (readTo size' c) := by
  unfold readTo strcpy
  split
  · rename_i hlt
    rw [if_pos (Nat.lt_of_lt_of_le hlt h)]
    exact .refl _
  · exact .inl rfl

theorem userfindindex_narrows (h : size ≤ size') (c : CStr) (p : Nat) (b : UInt8) :
    (yangCstrUserfindindex size c p b).Narrows (yangCstrUserfindindex size' c p b) :=
  (readTo_narrows h _).bind fun _ => .refl _

theorem receive_narrows (h : size ≤ size') (s : HttpState) (c : CStr) :
    (receive size s c).Narrows (receive size' s c) := by
  by_cases hlong : size < s.rets.length + c.length
  · exact .inl (if_pos hlong)
  · have hshort : ¬size' < s.rets.length + c.length := by omega
    rw [receive, receive, if_neg hlong, if_neg hshort]
    exact .refl _

theorem postContentLen_narrows (h : size ≤ size') (s : HttpState) :
    (postContentLen size s).Narrows (postContentLen size' s) := by
  unfold postContentLen
  split
  · apply (strstrIn_narrows h _ _).bind
    intro found
    cases found with
    | none => exact .refl _
    | some p => exact (userfindindex_narrows h _ _ _).bind fun _ => .refl _
  · exact .refl _

theorem postHeaderLen_narrows (h : size ≤ size') (s : HttpState) :
    (postHeaderLen size s).Narrows (postHeaderLen size' s) := by
  unfold postHeaderLen
  split
  · exact (strstrIn_narrows h _ _).bind fun _ => .refl _
  · exact .refl _

theorem postStep_narrows (h : size ≤ size') (s : HttpState) (c : CStr) :
    (postStep size s c).Narrows (postStep size' s c) := by
  apply (receive_narrows h s c).bind
  intro r
  cases r with
  | error step => exact .refl _
  | ok s =>
    apply (postContentLen_narrows h s).bind
    intro r
    cases r with
    | error step => exact .refl _
    | ok s => exact (postHeaderLen_narrows h s).bind fun _ => .refl _

theorem serverHeader_narrows (h : size ≤ size') (s : HttpState) :
    (serverHeader size s).Narrows (serverHeader size' s) := by
  unfold serverHeader
  split
  · apply (strstrIn_narrows h _ _).bind
    intro found
    cases found with
    | none => exact .refl _
    | some contentPos =>
      apply (strstrIn_narrows h _ _).bind
      intro found
      cases found with
      | none => exact .refl _
      | some p =>
        simp only
        split
        · exact (userfindindex_narrows h _ _ _).bind fun _ => .refl _
        · exact .refl _
  · exact .refl _

theorem serverStep_narrows (h : size ≤ size') (s : HttpState) (c : CStr) :
    (serverStep size s c).Narrows (serverStep size' s c) := by
  apply (receive_narrows h s c).bind
  intro r
  cases r with
  | error step => exact .refl _
  | ok s => exact (serverHeader_narrows h s).bind fun _ => .refl _

theorem httpLoop_narrows {step step' : HttpState → CStr → Call HttpStep}
    (h : ∀ s c, (step s c).Narrows (step' s c)) (recvs : List Recv) (s : HttpState) :
    (httpLoop step recvs s).Narrows (httpLoop step' recvs s) := by
  induction recvs generalizing s with
  | nil => exact .refl _
  | cons r recvs ih =>
    cases r with
    | again => exact ih s
    | closed => exact .refl _
    | error => exact .refl _
    | bytes c =>
      apply (h s c).bind
      intro r
      cases r with
      | leave => exact .refl _
      | goOn s => exact ih s
      | success s => exact .refl _

end Room

section Bounded

/-- The bytes a step goes on with. -/
def HttpStep.Keeps (rets : CStr) : HttpStep → Prop
  | .leave => True
  | .goOn s => s.rets = rets
  | .success s => s.rets = rets

def KeepsOn (rets : CStr) : Except HttpStep HttpState → Prop
  | .error step => step.Keeps rets
  | .ok s => s.rets = rets

variable {size : Nat} {s s' : HttpState} {c : CStr}

theorem receive_noted {r : Except HttpStep HttpState} (h : receive size s c = .ret r) :
    KeepsOn (s.rets ++ c) r ∧ (s.rets ++ c).length ≤ size := by
  unfold receive at h
  split at h
  · exact nomatch h
  · rename_i hroom
    rw [List.length_append]
    refine ⟨?_, by omega⟩
    split at h
    · obtain ⟨found, -, h⟩ := Call.bind_eq_ret.mp h
      cases found <;> cases h
      · trivial
      · rfl
    · cases h
      rfl

theorem postContentLen_keeps {r : Except HttpStep HttpState} (h : postContentLen size s = .ret r) :
    KeepsOn s.rets r := by
  unfold postContentLen at h
  split at h
  · obtain ⟨found, -, h⟩ := Call.bind_eq_ret.mp h
    cases found with
    | none =>
      cases h
      trivial
    | some p =>
      obtain ⟨ind, -, h⟩ := Call.bind_eq_ret.mp h
      split at h
      · cases h
        rfl
      · split at h
        · obtain ⟨n, -, h⟩ := Call.bind_eq_ret.mp h
          cases h
          rfl
        · cases h
          rfl
  · cases h
    rfl

theorem postHeaderLen_keeps {r : Except HttpStep HttpState} (h : postHeaderLen size s = .ret r) :
    KeepsOn s.rets r := by
  unfold postHeaderLen at h
  split at h
  · obtain ⟨found, -, h⟩ := Call.bind_eq_ret.mp h
    cases found with
    | none =>
      cases h
      rfl
    | some contentPos =>
      cases h
      simp only [KeepsOn]
      split <;> rfl
  · cases h
    rfl

theorem postStep_keeps {r : HttpStep} (h : postStep size s c = .ret r) :
    r.Keeps (s.rets ++ c) ∧ (s.rets ++ c).length ≤ size := by
  obtain ⟨first, hfirst, h⟩ := Call.bind_eq_ret.mp h
  obtain ⟨hkeeps, hsize⟩ := receive_noted hfirst
  refine ⟨?_, hsize⟩
  cases first with
  | error step =>
    cases h
    exact hkeeps
  | ok s₁ =>
    rw [← show s₁.rets = s.rets ++ c from hkeeps]
    obtain ⟨second, hsecond, h⟩ := Call.bind_eq_ret.mp h
    have hkeeps := postContentLen_keeps hsecond
    cases second with
    | error step =>
      cases h
      exact hkeeps
    | ok s₂ =>
      rw [← show s₂.rets = s₁.rets from hkeeps]
      obtain ⟨third, hthird, h⟩ := Call.bind_eq_ret.mp h
      have hkeeps := postHeaderLen_keeps hthird
      cases third with
      | error step =>
        cases h
        exact hkeeps
      | ok s₃ =>
        rw [← show s₃.rets = s₂.rets from hkeeps]
        simp only at h
        split at h
        · cases h
          rfl
        · cases h
          rfl

theorem serverHeader_keeps {r : Except HttpStep HttpState} (h : serverHeader size s = .ret r) :
    KeepsOn s.rets r := by
  unfold serverHeader at h
  split at h
  · obtain ⟨found, -, h⟩ := Call.bind_eq_ret.mp h
    cases found with
    | none =>
      cases h
      rfl
    | some contentPos =>
      simp only at h
      generalize hs₁ :
        (if 0 < contentPos then { s with headerLen := contentPos + 4 } else s) = s₁ at h
      have hrets : s₁.rets = s.rets := by
        rw [← hs₁]
        split <;> rfl
      obtain ⟨word, -, h⟩ := Call.bind_eq_ret.mp h
      cases word with
      | none =>
        cases h
        exact hrets
      | some p =>
        simp only at h
        split at h
        · obtain ⟨ind, -, h⟩ := Call.bind_eq_ret.mp h
          split at h
          · obtain ⟨n, -, h⟩ := Call.bind_eq_ret.mp h
            cases h
            exact hrets
          · cases h
            exact hrets
        · cases h
          exact hrets
  · cases h
    rfl

theorem serverStep_keeps {r : HttpStep} (h : serverStep size s c = .ret r) :
    r.Keeps (s.rets ++ c) ∧ (s.rets ++ c).length ≤ size := by
  obtain ⟨first, hfirst, h⟩ := Call.bind_eq_ret.mp h
  obtain ⟨hkeeps, hsize⟩ := receive_noted hfirst
  refine ⟨?_, hsize⟩
  cases first with
  | error step =>
    cases h
    exact hkeeps
  | ok s₁ =>
    rw [← show s₁.rets = s.rets ++ c from hkeeps]
    obtain ⟨second, hsecond, h⟩ := Call.bind_eq_ret.mp h
    have hkeeps := serverHeader_keeps hsecond
    cases second with
    | error step =>
      cases h
      exact hkeeps
    | ok s₂ =>
      rw [← show s₂.rets = s₁.rets from hkeeps]
      simp only at h
      split at h
      · cases h
        rfl
      · split at h
        · obtain ⟨found, -, h⟩ := Call.bind_eq_ret.mp h
          cases found <;> cases h <;> rfl
        · cases h
          rfl

/-- What a loop ends with has gone through the buffer. -/
theorem httpLoop_room {step : HttpState → CStr → Call HttpStep} {recvs : List Recv}
    (hstep : ∀ s c r, step s c = .ret r → r.Keeps (s.rets ++ c) ∧ (s.rets ++ c).length ≤ size)
    (hroom : s.rets.length ≤ size) (h : httpLoop step recvs s = .ret (.success s')) :
    s'.rets.length ≤ size := by
  induction recvs generalizing s with
  | nil => exact nomatch h
  | cons r recvs ih =>
    cases r with
    | again => exact ih hroom h
    | closed => exact nomatch h
    | error => exact nomatch h
    | bytes c =>
      obtain ⟨r, hr, h⟩ := Call.bind_eq_ret.mp h
      obtain ⟨hkeeps, hsize⟩ := hstep s c r hr
      cases r with
      | leave => exact nomatch h
      | goOn s₁ =>
        have hrets : s₁.rets = s.rets ++ c := hkeeps
        exact ih (hrets ▸ hsize) h
      | success s₁ =>
        cases h
        rw [show s'.rets = s.rets ++ c from hkeeps]
        exact hsize

end Bounded

namespace HttpMessage

variable {m : HttpMessage} {recvs : List Recv}

/-- A message that would be received, given the room, is written past a smaller buffer. -/
theorem client_overruns (hint : m.body.length < 2 ^ 31) (hsplit : Split recvs m.bytes)
    (hready : m.ClientReady recvs) (hlong : yangSdpBufferlen < m.bytes.length) :
    yangHttpPost recvs = .crash := by
  obtain ⟨s, hrun, hheld⟩ := client_done (Nat.lt_succ_self _) hint hsplit hready
  have hless : yangSdpBufferlen ≤ m.bytes.length + 1 := by omega
  have hnarrow : (httpLoop (postStep yangSdpBufferlen) recvs {}).Narrows
      (httpLoop (postStep (m.bytes.length + 1)) recvs {}) :=
    httpLoop_narrows (fun s c => postStep_narrows hless s c) recvs {}
  rcases hnarrow with hcrash | hsame
  · exact hcrash
  · rw [hrun] at hsame
    have hroom := httpLoop_room (fun _ _ _ h => postStep_keeps h) (Nat.zero_le _) hsame
    rw [hheld.1] at hroom
    omega

theorem server_overruns (hint : m.body.length < 2 ^ 31) (hsplit : Split recvs m.bytes)
    (hready : m.ServerReady recvs) (hlong : p2pRetsLen < m.bytes.length) :
    yangRunHttpThread recvs = .crash := by
  obtain ⟨s, hrun, hheld⟩ := server_done (Nat.lt_succ_self _) hint hsplit hready
  have hless : p2pRetsLen ≤ m.bytes.length + 1 := by omega
  have hnarrow : (httpLoop (serverStep p2pRetsLen) recvs {}).Narrows
      (httpLoop (serverStep (m.bytes.length + 1)) recvs {}) :=
    httpLoop_narrows (fun s c => serverStep_narrows hless s c) recvs {}
  rcases hnarrow with hcrash | hsame
  · rw [yangRunHttpThread, hcrash]
    rfl
  · rw [hrun] at hsame
    have hroom := httpLoop_room (fun _ _ _ h => serverStep_keeps h) (Nat.zero_le _) hsame
    rw [hheld.1] at hroom
    omega

theorem receive_leaves {size : Nat} {c : CStr} (hnot : ¬lit "HTTP" <:+: c)
    (hc : c.length < yangHttpBuffer) (hroom : c.length ≤ size) :
    receive size {} c = .ret (.error .leave) := by
  have hnone : find (lit "HTTP") (upTo 0 c) = none :=
    find_none_of_absent (by decide) fun hin => hnot (hin.trans (upTo_start 0 c).isInfix)
  have hshort : ¬size < ([] : CStr).length + c.length := by simpa using hroom
  rw [receive, if_neg hshort, if_pos rfl, strstrIn_eq hc, hnone]
  rfl

/-- Nothing is passed by a message that fits, however it comes. -/
theorem client_safe (hsplit : Split recvs m.bytes) (hsize : m.bytes.length < yangSdpBufferlen)
    (hline : m.Spelled → m.lengthText.length ≤ 12) : yangHttpPost recvs ≠ .crash := by
  have hall := m.bytes_length
  have hbuffer : yangHttpBuffer = yangSdpBufferlen := rfl
  have hint : m.body.length < 2 ^ 31 := by
    unfold yangSdpBufferlen at hsize
    omega
  obtain ⟨hne, -, rest, bs', hbs, -, hloop⟩ := split_first hsplit (bytes_ne_nil m)
  have hc : firstBytes recvs <+: m.bytes := ⟨bs', hbs.symm⟩
  have hlen := hc.length_le
  rw [yangHttpPost]
  by_cases hhttp : lit "HTTP" <:+: firstBytes recvs
  · by_cases hcontent : yangHttpContent <:+: firstBytes recvs
    · have hs := ((m.content_start hc).mp hcontent).1
      obtain ⟨s, hrun, -⟩ := client_done hsize hint hsplit ⟨hhttp, hcontent, hline hs⟩
      rw [hrun]
      intro h
      cases h
    · rw [hloop, httpLoop_leave (postStep_no_content hc hne (by omega) hcontent hhttp)]
      intro h
      cases h
  · have hleave : postStep yangSdpBufferlen {} (firstBytes recvs) = .ret .leave := by
      rw [postStep, receive_leaves hhttp (by omega) (by omega)]
      rfl
    rw [hloop, httpLoop_leave hleave]
    intro h
    cases h

/-- Where the server has to guess, it still stays inside. -/
theorem server_ends {size j times : Nat} (hsize : m.bytes.length < size)
    (hbuffer : m.bytes.length < yangHttpBuffer) (hint : m.body.length < 2 ^ 31)
    (hline : m.Spelled → m.lengthText.length ≤ 12) (hunknown : ¬m.Announced)
    (hsplit : Split recvs (m.bytes.drop j)) (hready : ServerReads times (firstBytes recvs)) :
    ∃ e, httpLoop (serverStep size) recvs (m.serverAt times j) = .ret e ∧
      ∀ s, e = .success s → ∃ times' k, m.head.length ≤ k ∧ k ≤ m.bytes.length ∧
        s = m.serverAt times' k := by
  generalize hbs : m.bytes.drop j = bs at hsplit
  induction hsplit generalizing j times with
  | nil => exact ⟨_, rfl, fun s h => nomatch h⟩
  | again h ih => exact ih hready hbs
  | bytes hc hfits h ih =>
    rename_i recvs c bs
    have hpre : c <+: m.bytes.drop j := ⟨bs, hbs.symm⟩
    have hlen := (part_length hc hpre).2
    have hrest : m.bytes.drop (j + c.length) = bs := by
      rw [← List.drop_drop, hbs, List.drop_left]
    have hstep := serverStep_part hint (.inl hline) hc hpre (by omega : j + c.length < size) hready
    rw [if_pos hline, if_neg hunknown, strstrIn_eq (by omega), Call.ret_bind] at hstep
    split at hstep
    · rename_i hend
      split at hstep
      · refine ⟨_, httpLoop_success hstep, ?_⟩
        rintro s hs
        cases hs
        exact ⟨times + 1, j + c.length, hend, hlen, rfl⟩
      · rw [httpLoop_goOn hstep]
        exact ih (serverReads_next times _) hrest
    · rw [httpLoop_goOn hstep]
      exact ih (serverReads_next times _) hrest

theorem server_safe (hsplit : Split recvs m.bytes) (hsize : m.bytes.length < yangHttpBuffer)
    (hline : m.Spelled → m.lengthText.length ≤ 12) : yangRunHttpThread recvs ≠ .crash := by
  have hall := m.bytes_length
  have hless : yangHttpBuffer < p2pRetsLen := by decide
  have hint : m.body.length < 2 ^ 31 := by
    unfold yangHttpBuffer at hsize
    omega
  obtain ⟨hne, -, rest, bs', hbs, -, hloop⟩ := split_first hsplit (bytes_ne_nil m)
  have hc : firstBytes recvs <+: m.bytes := ⟨bs', hbs.symm⟩
  have hlen := hc.length_le
  by_cases hhttp : lit "HTTP" <:+: firstBytes recvs
  · have hreads : ServerReads 0 (firstBytes recvs) := fun _ => strstr_http hc hhttp
    by_cases hknown : m.Announced
    · obtain ⟨s, hret, -⟩ := (server_right_iff hsplit (by omega)).mpr ⟨hhttp, hline, .inl hknown⟩
      rw [hret]
      intro h
      cases h
    · have hdrop : Split recvs (m.bytes.drop 0) := hsplit
      obtain ⟨e, hrun, hsuccess⟩ :=
        server_ends (by omega : m.bytes.length < p2pRetsLen) hsize hint hline hknown hdrop hreads
      rw [m.serverAt_zero] at hrun
      cases e with
      | waiting s =>
        rw [yangRunHttpThread, hrun]
        intro h
        cases h
      | failed =>
        rw [yangRunHttpThread, hrun]
        intro h
        cases h
      | success s =>
        obtain ⟨times, k, hhead, hk, rfl⟩ := hsuccess s rfl
        have hroom : (m.serverAt times k).headerLen +
            ((m.serverAt times k).rets.drop (m.serverAt times k).headerLen).length < p2pRetsLen := by
          simp only [serverAt, if_pos hhead, List.length_drop, List.length_take]
          omega
        rw [served_handed rfl hroom hrun]
        intro h
        cases h
  · have hleave : serverStep p2pRetsLen {} (firstBytes recvs) = .ret .leave := by
      rw [serverStep, receive_leaves hhttp (by omega) (by omega)]
      rfl
    rw [yangRunHttpThread, hloop, httpLoop_leave hleave]
    intro h
    cases h

/-- Of a message that fits, both receivers hand on the body exactly when its first part and its braces
are as they expect. Neither writes past its buffer then, and both do for a longer one. -/
theorem http_right_iff (m : HttpMessage) {recvs : List Recv} (hsplit : Split recvs m.bytes) :
    (m.bytes.length < yangSdpBufferlen → (m.ClientRight recvs ↔ m.ClientReady recvs)) ∧
      (m.bytes.length < p2pRetsLen → (m.ServerRight recvs ↔ m.ServerReady recvs)) ∧
      (m.bytes.length < yangSdpBufferlen → (m.Spelled → m.lengthText.length ≤ 12) →
        yangHttpPost recvs ≠ .crash ∧ yangRunHttpThread recvs ≠ .crash) ∧
      (m.body.length < 2 ^ 31 →
        (yangSdpBufferlen < m.bytes.length → m.ClientReady recvs → yangHttpPost recvs = .crash) ∧
        (p2pRetsLen < m.bytes.length → m.ServerReady recvs →
          yangRunHttpThread recvs = .crash)) ∧
      (served m.body = m.body ↔ 0 ∉ m.body ∧ closeBrace ∉ m.body ∧ ¬kCRLF <:+: m.body) := by
  refine ⟨client_right_iff hsplit, server_right_iff hsplit, ?_, ?_, served_eq⟩
  · intro hsize hline
    exact ⟨client_safe hsplit hsize hline, server_safe hsplit hsize hline⟩
  · intro hint
    refine ⟨?_, ?_⟩
    · intro hlong hready
      exact client_overruns hint hsplit hready hlong
    · intro hlong hready
      exact server_overruns hint hsplit hready hlong

/-- An answer that a server may well give. -/
def okMessage : HttpMessage where
  start := lit "HTTP/1.1 200 OK"
  fieldsBefore := []
  name := lit "Content-Length"
  ows := [space]
  ows' := []
  fieldsAfter := []
  body := lit "ok"
  http := ⟨[], lit "/1.1 200 OK", by decide⟩
  named := by decide
  blank := by decide
  lines := by decide
  first := by
    intro line hline
    rw [List.mem_singleton.mp hline]
    exact absent_of_find_none (by decide) (by decide)
  apart := by decide

theorem okMessage_split : Split [.bytes okMessage.bytes] okMessage.bytes := by
  have h := Split.bytes (bytes_ne_nil okMessage) (by decide) Split.nil
  rwa [List.append_nil] at h

theorem okMessage_ready : okMessage.ClientReady [.bytes okMessage.bytes] :=
  ⟨⟨[], lit "/1.1 200 OK\r\nContent-Length: 2\r\n\r\nok", by decide⟩,
    ⟨lit "HTTP/1.1 200 OK\r\n", lit " 2\r\n\r\nok", by decide⟩, by decide⟩

theorem okMessage_whole : okMessage.ClientRight [.bytes okMessage.bytes] ∧
    okMessage.ServerRight [.bytes okMessage.bytes] := by
  obtain ⟨hhttp, hcontent, hline⟩ := okMessage_ready
  obtain ⟨hclient, hserver, -⟩ := http_right_iff okMessage okMessage_split
  refine ⟨(hclient (by decide)).mpr ⟨hhttp, hcontent, hline⟩, (hserver (by decide)).mpr ?_⟩
  exact ⟨hhttp, fun _ => hline, .inl (by decide)⟩

/-- The same answer is lost when its first line comes on its own. -/
theorem okMessage_line : okMessage.ClientRight [.bytes okMessage.bytes] ∧
    Split [.bytes (lit "HTTP/1.1 200 OK\r\n"), .bytes (lit "Content-Length: 2\r\n\r\nok")]
      okMessage.bytes ∧
    yangHttpPost [.bytes (lit "HTTP/1.1 200 OK\r\n"), .bytes (lit "Content-Length: 2\r\n\r\nok")] =
      .ret .failed := by
  have hparts : okMessage.bytes =
      lit "HTTP/1.1 200 OK\r\n" ++ (lit "Content-Length: 2\r\n\r\nok" ++ []) := by decide
  refine ⟨(client_right_iff okMessage_split (by decide)).mpr okMessage_ready, ?_, ?_⟩
  · rw [hparts]
    exact .bytes (by decide) (by decide) (.bytes (by decide) (by decide) .nil)
  · have hpre : lit "HTTP/1.1 200 OK\r\n" <+: okMessage.bytes := ⟨_, hparts.symm⟩
    have hhttp : lit "HTTP" <:+: lit "HTTP/1.1 200 OK\r\n" := ⟨[], lit "/1.1 200 OK\r\n", by decide⟩
    have hcontent : ¬yangHttpContent <:+: lit "HTTP/1.1 200 OK\r\n" :=
      absent_of_find_none (by decide) (by decide)
    apply httpLoop_leave
    exact postStep_no_content hpre (by decide) (by decide) hcontent hhttp

end HttpMessage

end MetaRtc
