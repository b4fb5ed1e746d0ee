import MetaRtc.Signal.HttpRuns
import MetaRtc.Signal.SrsText

/-! # Messages in parts at the P2P server

The server reads a length when it has the head. Where it knows none it takes a brace for the end. -/
namespace MetaRtc

open Exec Bytes Tokens Occurrences

/-- What the server hands on of a body. -/
def served (body : CStr) : CStr := replaceAll (lit "\x7d") [] (replaceAll kCRLF [LF] (upTo 0 body))

/-- No brace is seen in a part, and a NUL or the end of the buffer's zeros ends the search. -/
def Quiet (c : CStr) : Prop := closeBrace ∉ upTo 0 c ∧ (c.length < yangHttpBuffer ∨ 0 ∈ c)

namespace HttpMessage

/-- The length is read from the message, and is not zero. -/
def Announced (m : HttpMessage) : Prop := m.Spelled ∧ m.body ≠ []

/-- Of the parts that come from the end of the head on, the last and no other has a brace. -/
def BraceLast (m : HttpMessage) : Nat → List Recv → Prop
  | _, [] => True
  | k, .bytes c :: recvs =>
    (m.head.length ≤ k + c.length →
      if m.bytes.length ≤ k + c.length then closeBrace ∈ upTo 0 c else Quiet c) ∧
    m.BraceLast (k + c.length) recvs
  | k, .again :: recvs => m.BraceLast k recvs
  | k, .closed :: recvs => m.BraceLast k recvs
  | k, .error :: recvs => m.BraceLast k recvs

variable (m : HttpMessage) {size j times : Nat} {c : CStr}

instance : Decidable m.Announced := inferInstanceAs (Decidable (_ ∧ _))

/-- The length the server works with once it has the head. -/
def readLength : Int32 := if m.Spelled then .ofNat m.body.length else 0

/-- The state of the server when `k` bytes are there. -/
def serverAt (times k : Nat) : HttpState where
  recvtimes := times
  contentLen := if m.head.length ≤ k then m.readLength else 0
  headerLen := if m.head.length ≤ k then m.head.length else 0
  rets := m.bytes.take k

variable {m}

theorem brace_found (h : closeBrace ∈ upTo 0 c) :
    ∃ p, strstrIn yangHttpBuffer c (lit "\x7d") = .ret (some p) := by
  have hin : lit "\x7d" <:+: upTo 0 c := by
    obtain ⟨a, b, hab⟩ := List.append_of_mem h
    exact ⟨a, b, by rw [hab]; simp [show lit "\x7d" = [closeBrace] by decide]⟩
  obtain ⟨p, hp⟩ := find_of_infix (by decide) hin
  exact ⟨p, by rw [strstrIn, hp]⟩

theorem brace_missing (h : closeBrace ∉ upTo 0 c) :
    strstrIn yangHttpBuffer c (lit "\x7d") =
      if c.length < yangHttpBuffer ∨ 0 ∈ c then .ret none else .crash := by
  have hnone : find (lit "\x7d") (upTo 0 c) = none := by
    apply find_none_of_absent (by decide)
    intro hin
    exact h (hin.subset (by decide))
  rw [strstrIn, hnone]

section Step

variable {k : Nat} {s : HttpState}

/-- The head is taken note of once it is there, and with it the length if its line fits the array. -/
theorem serverHeader_part (hn : m.body.length < 2 ^ 31)
    (hline : (m.Spelled → m.lengthText.length ≤ 12) ∨ j < m.head.length) (hk : k < size)
    (hjk : j ≤ k) (hrets : s.rets = m.bytes.take k)
    (hlen : s.contentLen = if m.head.length ≤ j then m.readLength else 0)
    (hheader : s.headerLen = if m.head.length ≤ j then m.head.length else 0) :
    serverHeader size s = if m.head.length ≤ k
      then if m.Spelled → m.lengthText.length ≤ 12
        then .ret (.ok { s with headerLen := m.head.length, contentLen := m.readLength }) else .crash
      else .ret (.error (.goOn s)) := by
  have hhead := m.head_length
  have hpos := m.lineEnd_pos
  unfold serverHeader
  by_cases hold : m.head.length ≤ j
  · rw [if_pos hold] at hlen hheader
    have hfits := hline.resolve_right (by omega)
    rw [if_neg (by omega), if_pos (by omega), if_pos hfits, ← hlen, ← hheader]
    rfl
  · rw [if_neg hold] at hlen hheader
    rw [if_pos hheader, hrets, m.strstr_blank hk, Call.ret_bind]
    by_cases hend : m.head.length ≤ k
    · rw [if_pos hend, if_pos hend]
      simp only
      rw [if_pos (by omega), Nat.sub_add_cancel (by omega)]
      by_cases hs : m.Spelled
      · rw [m.strstr_content hs hk, if_pos (by omega), Call.ret_bind]
        simp only
        rw [if_pos (by omega), m.find_return hk, if_pos (by omega), Call.ret_bind,
          if_pos m.contetSize_lt, m.read_length hs (by omega) hn, readLength, if_pos hs]
        simp only [hs, true_implies]
        split <;> rfl
      · rw [m.strstr_content_none hs hk, Call.ret_bind, if_pos fun h => absurd h hs, readLength,
          if_neg hs, ← hlen]
        rfl
    · rw [if_neg hend, if_neg hend]
      rfl

theorem serverAt_zero (m : HttpMessage) : m.serverAt 0 0 = {} := by
  have hhead := m.head_length
  rw [serverAt, if_neg (by omega), if_neg (by omega), List.take_zero]

theorem readLength_eq_zero (hn : m.body.length < 2 ^ 31) : m.readLength = 0 ↔ ¬m.Announced := by
  unfold readLength Announced
  split
  · rename_i hs
    rw [ofNat_eq_zero hn, List.length_eq_zero_iff]
    simp [hs]
  · rename_i hs
    simp [hs]

theorem readLength_announced (h : m.Announced) : m.readLength = .ofNat m.body.length := if_pos h.1

/-- Before the end of the head parts are noted. From there on a length decides, or a brace. -/
theorem serverStep_part (hn : m.body.length < 2 ^ 31)
    (hline : (m.Spelled → m.lengthText.length ≤ 12) ∨ j < m.head.length) (hne : c ≠ [])
    (hc : c <+: m.bytes.drop j) (hsize : j + c.length < size)
    (hhttp : times = 0 → ∃ p, strstrIn yangHttpBuffer c (lit "HTTP") = .ret (some p)) :
    serverStep size (m.serverAt times j) c =
      if m.head.length ≤ j + c.length then
        if m.Spelled → m.lengthText.length ≤ 12 then
          if m.Announced then .ret (if m.bytes.length ≤ j + c.length
            then .success (m.serverAt (times + 1) (j + c.length))
            else .goOn (m.serverAt (times + 1) (j + c.length)))
          else do
            match ← strstrIn yangHttpBuffer c (lit "\x7d") with
            | some _ => return .success (m.serverAt (times + 1) (j + c.length))
            | none => return .goOn (m.serverAt (times + 1) (j + c.length))
        else .crash
      else .ret (.goOn (m.serverAt (times + 1) (j + c.length))) := by
  have hhead := m.head_length
  have hall := m.bytes_length
  have hlen := (part_length hne hc).2
  generalize hk : j + c.length = k at *
  have hreceive : receive size (m.serverAt times j) c = .ret (.ok { m.serverAt times j with
      rets := m.bytes.take k, recvtimes := times + 1 }) := by
    rw [← hk]
    exact receive_part hne hc (by omega) rfl hhttp
  rw [serverStep, hreceive, Call.ret_bind]
  simp only
  rw [serverReceived, serverHeader_part hn hline hsize (by omega : j ≤ k) rfl rfl rfl]
  by_cases hend : m.head.length ≤ k
  · rw [if_pos hend, if_pos hend]
    have hstate : m.serverAt (times + 1) k =
        ⟨times + 1, m.readLength, m.head.length, m.bytes.take k⟩ := by
      rw [serverAt, if_pos hend, if_pos hend]
    have htake : (m.bytes.take k).length = k := by
      rw [List.length_take]
      omega
    rw [hstate]
    by_cases hfits : m.Spelled → m.lengthText.length ≤ 12
    · rw [if_pos hfits, if_pos hfits, Call.ret_bind]
      simp only [htake]
      by_cases hknown : m.Announced
      · have hpos : 0 < m.body.length := List.length_pos_of_ne_nil hknown.2
        rw [if_pos hknown, readLength_announced hknown, held_eq hn]
        by_cases hdone : m.bytes.length ≤ k
        · rw [if_pos hdone, if_pos ⟨(ofNat_pos hn).mpr hpos, by omega⟩]
          rfl
        · have hnot : ¬(Int32.ofNat m.body.length = 0 ∧ 0 < m.head.length) := by
            rw [ofNat_eq_zero hn]
            omega
          rw [if_neg hdone, if_neg (fun h => by omega), if_neg hnot]
          rfl
      · have hzero := (readLength_eq_zero hn).mpr hknown
        rw [if_neg hknown, hzero, if_neg (fun h => absurd h.1 (by decide))]
        exact if_pos ⟨rfl, by omega⟩
    · rw [if_neg hfits, if_neg hfits]
      rfl
  · have hstate : m.serverAt (times + 1) k = ⟨times + 1, 0, 0, m.bytes.take k⟩ := by
      rw [serverAt, if_neg hend, if_neg hend]
    rw [if_neg hend, if_neg hend, hstate, Call.ret_bind, serverAt,
      if_neg (by omega : ¬m.head.length ≤ j), if_neg (by omega : ¬m.head.length ≤ j)]
    rfl

end Step

section Runs

variable {recvs : List Recv}

/-- What the server needs to know of a part. -/
def ServerReads (times : Nat) (c : CStr) : Prop :=
  times = 0 → ∃ p, strstrIn yangHttpBuffer c (lit "HTTP") = .ret (some p)

theorem serverReads_next (times : Nat) (c : CStr) : ServerReads (times + 1) c :=
  fun hzero => absurd hzero (Nat.succ_ne_zero times)

theorem serverAt_whole (m : HttpMessage) (times : Nat) :
    m.Held (m.serverAt times m.bytes.length) := by
  have hlen := m.bytes_length
  exact ⟨List.take_length, if_pos (by omega)⟩

section Whole

variable (hsize : m.bytes.length < size) (hint : m.body.length < 2 ^ 31)
  (hline : m.Spelled → m.lengthText.length ≤ 12)

include hsize hint

/-- A message with a length is waited for. -/
theorem server_waits (hline : m.Spelled → m.lengthText.length ≤ 12) (hknown : m.Announced)
    (hsplit : Split recvs m.bytes) (hready : ServerReads 0 (firstBytes recvs)) :
    ∃ times, httpLoop (serverStep size) recvs {} =
      .ret (.success (m.serverAt times m.bytes.length)) := by
  have hall := m.bytes_length
  have hstep : ∀ times j c, ServerReads times c → c ≠ [] → c <+: m.bytes.drop j →
      serverStep size (m.serverAt times j) c = .ret (if m.bytes.length ≤ j + c.length
        then .success (m.serverAt (times + 1) (j + c.length))
        else .goOn (m.serverAt (times + 1) (j + c.length))) := by
    intro times j c hready hne hc
    have hlen := (part_length hne hc).2
    rw [serverStep_part hint (.inl hline) hne hc (by omega) hready, if_pos hline, if_pos hknown]
    split
    · rfl
    · rw [if_neg (by omega)]
  have hgo : ∀ times j c, ServerReads times c → c ≠ [] → c <+: m.bytes.drop j →
      j + c.length < m.bytes.length →
      serverStep size (m.serverAt times j) c =
        .ret (.goOn (m.serverAt (times + 1) (j + c.length))) := by
    intro times j c hready hne hc hlt
    rw [hstep times j c hready hne hc, if_neg (by omega)]
  obtain ⟨times, j, c, rest, hready, -, hge, hc, hne, hloop⟩ :=
    httpLoop_until (fun times _ _ c' _ => serverReads_next times c') hgo hsplit hready
      (List.length_pos_of_ne_nil (bytes_ne_nil m)) (Nat.le_refl _)
  have hlast := hstep times j c hready hne hc
  have hlen := (part_length hne hc).2
  rw [if_pos hge, show j + c.length = m.bytes.length by omega] at hlast
  rw [m.serverAt_zero] at hloop
  exact ⟨times + 1, by rw [hloop, httpLoop_success hlast]⟩

theorem server_crashes (hline : ¬(m.Spelled → m.lengthText.length ≤ 12))
    (hsplit : Split recvs m.bytes) (hready : ServerReads 0 (firstBytes recvs)) :
    httpLoop (serverStep size) recvs {} = .crash := by
  have hhead := m.head_length
  have hall := m.bytes_length
  have hstep : ∀ times j c, ServerReads times c → j < m.head.length → c ≠ [] →
      c <+: m.bytes.drop j → serverStep size (m.serverAt times j) c =
        if m.head.length ≤ j + c.length then .crash
        else .ret (.goOn (m.serverAt (times + 1) (j + c.length))) := by
    intro times j c hready hj hne hc
    have hlen := (part_length hne hc).2
    rw [serverStep_part hint (.inr hj) hne hc (by omega) hready, if_neg hline]
  have hgo : ∀ times j c, ServerReads times c → c ≠ [] → c <+: m.bytes.drop j →
      j + c.length < m.head.length →
      serverStep size (m.serverAt times j) c =
        .ret (.goOn (m.serverAt (times + 1) (j + c.length))) := by
    intro times j c hready hne hc hlt
    rw [hstep times j c hready (by omega) hne hc, if_neg (by omega)]
  obtain ⟨times, j, c, rest, hready, hj, hge, hc, hne, hloop⟩ :=
    httpLoop_until (fun times _ _ c' _ => serverReads_next times c') hgo hsplit hready
      (show 0 < m.head.length by omega) (by omega)
  have hlast := hstep times j c hready hj hne hc
  rw [if_pos hge] at hlast
  rw [m.serverAt_zero] at hloop
  rw [hloop, httpLoop_crash hlast]

omit hsize hint in
/-- Nothing more comes of a message that is all there. -/
theorem httpLoop_rest (h : Split recvs []) (step : HttpState → CStr → Call HttpStep)
    (s : HttpState) (k : Nat) :
    httpLoop step recvs s = .ret (.waiting s) ∧ m.BraceLast k recvs := by
  generalize hbs : ([] : CStr) = bs at h
  induction h with
  | nil => exact ⟨rfl, trivial⟩
  | again h ih => exact ih hbs
  | bytes hc hfits h ih => exact absurd (List.append_eq_nil_iff.mp hbs.symm).1 hc

/-- Without a length everything depends on where the braces are. -/
theorem server_guesses (hline : m.Spelled → m.lengthText.length ≤ 12) (hunknown : ¬m.Announced)
    (hj : j < m.bytes.length) (hsplit : Split recvs (m.bytes.drop j))
    (hready : ServerReads times (firstBytes recvs)) :
    (∃ s, httpLoop (serverStep size) recvs (m.serverAt times j) = .ret (.success s) ∧ m.Held s) ↔
      m.BraceLast j recvs := by
  have hall := m.bytes_length
  generalize hbs : m.bytes.drop j = bs at hsplit
  induction hsplit generalizing j times with
  | nil =>
    have hlen := congrArg List.length hbs
    rw [List.length_drop, List.length_nil] at hlen
    omega
  | again h ih => exact ih hj hready hbs
  | bytes hc hfits h ih =>
    rename_i recvs c bs
    have hpre : c <+: m.bytes.drop j := ⟨bs, hbs.symm⟩
    have hlen := (part_length hc hpre).2
    have hrest : m.bytes.drop (j + c.length) = bs := by
      rw [← List.drop_drop, hbs, List.drop_left]
    have hstep := serverStep_part hint (.inl hline) hc hpre (by omega : j + c.length < size) hready
    rw [if_pos hline, if_neg hunknown] at hstep
    have hwhole : m.Held (m.serverAt (times + 1) (j + c.length)) →
        m.bytes.length ≤ j + c.length := by
      intro hheld
      have htake := congrArg List.length hheld.1
      simp only [serverAt, List.length_take] at htake
      omega
    have hgo : j + c.length < m.bytes.length → serverStep size (m.serverAt times j) c =
        .ret (.goOn (m.serverAt (times + 1) (j + c.length))) →
        ((∃ s, httpLoop (serverStep size) (.bytes c :: recvs) (m.serverAt times j) =
          .ret (.success s) ∧ m.Held s) ↔ m.BraceLast (j + c.length) recvs) := by
      intro hlt hret
      rw [httpLoop_goOn hret]
      exact ih hlt (serverReads_next times _) hrest
    rw [BraceLast]
    by_cases hend : m.head.length ≤ j + c.length
    · rw [if_pos hend] at hstep
      by_cases hbrace : closeBrace ∈ upTo 0 c
      · obtain ⟨p, hp⟩ := brace_found hbrace
        rw [hp, Call.ret_bind] at hstep
        rw [httpLoop_success hstep]
        by_cases hdone : m.bytes.length ≤ j + c.length
        · have hnone : bs = [] := by rw [← hrest, List.drop_eq_nil_of_le hdone]
          have hlast := (httpLoop_rest (m := m) (hnone ▸ h) (serverStep size) {} (j + c.length)).2
          rw [show j + c.length = m.bytes.length by omega] at hlast ⊢
          simp only [le_refl, ↓reduceIte, hbrace, implies_true, hlast, and_self, iff_true]
          exact ⟨_, rfl, m.serverAt_whole _⟩
        · have hnot : ¬Quiet c := fun hquiet => hquiet.1 hbrace
          simp only [hend, hdone, ↓reduceIte, hnot, imp_false, not_true_eq_false, false_and, iff_false]
          rintro ⟨s, hret, hheld⟩
          cases hret
          exact hdone (hwhole hheld)
      · rw [brace_missing hbrace] at hstep
        by_cases hzeros : c.length < yangHttpBuffer ∨ 0 ∈ c
        · rw [if_pos hzeros, Call.ret_bind] at hstep
          by_cases hdone : m.bytes.length ≤ j + c.length
          · have hnone : bs = [] := by rw [← hrest, List.drop_eq_nil_of_le hdone]
            rw [httpLoop_goOn hstep,
              (httpLoop_rest (m := m) (hnone ▸ h) (serverStep size) _ (j + c.length)).1]
            simp [hend, hdone, hbrace]
          · rw [hgo (by omega) hstep]
            have hquiet : Quiet c := ⟨hbrace, hzeros⟩
            simp [hdone, hquiet]
        · rw [if_neg hzeros] at hstep
          have hnot : ¬Quiet c := fun hquiet => hzeros hquiet.2
          rw [httpLoop_crash hstep]
          simp [hend, hbrace, hnot]
    · rw [if_neg hend] at hstep
      rw [hgo (by omega) hstep]
      simp [hend]

end Whole

/-- The thread hands on the body when it has the whole message, and not before. -/
def ServerRight (m : HttpMessage) (recvs : List Recv) : Prop :=
  ∃ s, yangRunHttpThread recvs = .ret (.success s, some (served m.body)) ∧ m.Held s

/-- The first part has the name of the protocol, the line with the length fits its array, and there is
a length or a brace to end the message. -/
def ServerReady (m : HttpMessage) (recvs : List Recv) : Prop :=
  lit "HTTP" <:+: firstBytes recvs ∧ (m.Spelled → m.lengthText.length ≤ 12) ∧
    (m.Announced ∨ m.BraceLast 0 recvs)

/-- What stands behind the head is handed on. -/
theorem served_handed {s : HttpState} {b : CStr} (hb : s.rets.drop s.headerLen = b)
    (hroom : s.headerLen + b.length < p2pRetsLen)
    (hloop : httpLoop (serverStep p2pRetsLen) recvs {} = .ret (.success s)) :
    yangRunHttpThread recvs = .ret (.success s, some (served b)) := by
  have hup : (upTo 0 b).length ≤ b.length := (upTo_start 0 b).length_le
  have hmax : p2pRetsLen ≤ 2 ^ 31 := by decide
  have hlf : (replaceAll kCRLF [LF] (upTo 0 b)).length ≤ (upTo 0 b).length :=
    replaceAll_length_le (by decide) (by decide) _
  have hbrace : (replaceAll (lit "\x7d") [] (replaceAll kCRLF [LF] (upTo 0 b))).length ≤
      (replaceAll kCRLF [LF] (upTo 0 b)).length :=
    replaceAll_length_le (by decide) (by decide) _
  have hnul := not_mem_upTo 0 b
  have hnul' : (0 : UInt8) ∉ replaceAll kCRLF [LF] (upTo 0 b) := by
    intro hmem
    rcases mem_replaceAll hmem with hmem | hmem
    · exact hnul hmem
    · exact absurd hmem (by decide)
  have hread : readTo (p2pRetsLen - s.headerLen) (upTo 0 b) = .ret (upTo 0 b) := by
    rw [readTo, strcpy, if_pos (by omega)]
  have hfirst : replaceTo p2pRetsLen (upTo 0 b) kCRLF [LF] =
      .ret (replaceAll kCRLF [LF] (upTo 0 b)) :=
    replaceTo_eq (by decide) hmax (by omega) (by decide) (by omega) hnul (by decide)
  have hsecond : replaceTo p2pRetsLen (replaceAll kCRLF [LF] (upTo 0 b)) (lit "\x7d") [] =
      .ret (served b) :=
    replaceTo_eq (by decide) hmax (by omega) (by decide) (by omega) hnul' (by decide)
  rw [yangRunHttpThread, hloop, Call.ret_bind]
  simp only
  rw [hb, hread, Call.ret_bind, hfirst, Call.ret_bind, hsecond]
  rfl

/-- With room for it a message that begins and ends well is received. -/
theorem server_done (hsize : m.bytes.length < size) (hint : m.body.length < 2 ^ 31)
    (hsplit : Split recvs m.bytes) (hready : m.ServerReady recvs) :
    ∃ s, httpLoop (serverStep size) recvs {} = .ret (.success s) ∧ m.Held s := by
  obtain ⟨hhttp, hline, hend⟩ := hready
  obtain ⟨-, -, -, bs', hbs, -, -⟩ := split_first hsplit (bytes_ne_nil m)
  have hc : firstBytes recvs <+: m.bytes := ⟨bs', hbs.symm⟩
  have hreads : ServerReads 0 (firstBytes recvs) := fun _ => strstr_http hc hhttp
  by_cases hknown : m.Announced
  · obtain ⟨times, hrun⟩ := server_waits hsize hint hline hknown hsplit hreads
    exact ⟨_, hrun, m.serverAt_whole times⟩
  · rw [← m.serverAt_zero]
    exact (server_guesses hsize hint hline hknown (List.length_pos_of_ne_nil (bytes_ne_nil m)) hsplit
      hreads).mpr (hend.resolve_left hknown)

theorem server_right_iff (hsplit : Split recvs m.bytes) (hsize : m.bytes.length < p2pRetsLen) :
    m.ServerRight recvs ↔ m.ServerReady recvs := by
  have hall := m.bytes_length
  have hhead := m.head_length
  have hint : m.body.length < 2 ^ 31 := by
    unfold p2pRetsLen at hsize
    omega
  obtain ⟨hne, -, rest, bs', hbs, hrest, hloop⟩ := split_first hsplit (bytes_ne_nil m)
  have hc : firstBytes recvs <+: m.bytes := ⟨bs', hbs.symm⟩
  constructor
  · rintro ⟨s, hret, hheld⟩
    obtain ⟨e, hend, hthread⟩ := Call.bind_eq_ret.mp hret
    have he : e = .success s := by
      cases e with
      | waiting s' => cases hthread
      | failed => cases hthread
      | success s' =>
        obtain ⟨body, -, hbody⟩ := Call.bind_eq_ret.mp hthread
        obtain ⟨tmp, -, htmp⟩ := Call.bind_eq_ret.mp hbody
        obtain ⟨rets, -, hpair⟩ := Call.bind_eq_ret.mp htmp
        cases hpair
        rfl
    subst he
    have hhttp : lit "HTTP" <:+: firstBytes recvs := by
      by_contra hnot
      rw [hloop, httpLoop, serverStep] at hend
      have hleft : receive p2pRetsLen {} (firstBytes recvs) = .crash ∨
          receive p2pRetsLen {} (firstBytes recvs) = .ret (.error .leave) :=
        receive_no_http hnot rfl
      rcases hleft with hcrash | hleave
      · rw [hcrash] at hend
        cases hend
      · rw [hleave] at hend
        cases hend
    have hready : ServerReads 0 (firstBytes recvs) := fun _ => strstr_http hc hhttp
    have hline : m.Spelled → m.lengthText.length ≤ 12 := by
      by_contra hnot
      rw [server_crashes hsize hint hnot hsplit hready] at hend
      cases hend
    refine ⟨hhttp, hline, ?_⟩
    by_cases hknown : m.Announced
    · exact .inl hknown
    · rw [← m.serverAt_zero] at hend
      exact .inr ((server_guesses hsize hint hline hknown (by omega) hsplit hready).mp
        ⟨s, hend, hheld⟩)
  · intro hready
    obtain ⟨s, hrun, hheld⟩ := server_done hsize hint hsplit hready
    exact ⟨s, served_handed hheld.body (by rw [hheld.2]; omega) hrun, hheld⟩

end Runs

end HttpMessage

end MetaRtc
