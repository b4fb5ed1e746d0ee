import MetaRtc.Signal.HttpMessage

/-! # Messages in parts

Both loops are in a state that the number of bytes received says, however these came. -/
namespace MetaRtc

open Exec Bytes Tokens Occurrences

/-- The bytes come in parts that fit the buffer, with any number of empty-handed calls between. -/
inductive Split : List Recv → CStr → Prop where
  | nil : Split [] []
  | again {recvs : List Recv} {bs : CStr} (h : Split recvs bs) : Split (.again :: recvs) bs
  | bytes {recvs : List Recv} {c bs : CStr} (hc : c ≠ []) (hfits : c.length ≤ yangHttpBuffer)
      (h : Split recvs bs) : Split (.bytes c :: recvs) (c ++ bs)

def firstBytes : List Recv → CStr
  | .bytes c :: _ => c
  | _ :: recvs => firstBytes recvs
  | [] => []

section Loop

attribute [local simp] httpLoop

variable {step : HttpState → CStr → Call HttpStep} {recvs : List Recv} {s s' : HttpState} {c : CStr}

theorem httpLoop_goOn (h : step s c = .ret (.goOn s')) :
    httpLoop step (.bytes c :: recvs) s = httpLoop step recvs s' := by
  simp [h]

theorem httpLoop_success (h : step s c = .ret (.success s')) :
    httpLoop step (.bytes c :: recvs) s = .ret (.success s') := by
  simp [h]

theorem httpLoop_leave (h : step s c = .ret .leave) :
    httpLoop step (.bytes c :: recvs) s = .ret .failed := by
  simp [h]

theorem httpLoop_crash (h : step s c = .crash) :
    httpLoop step (.bytes c :: recvs) s = .crash := by
  simp [h]

theorem split_first {bs : CStr} (h : Split recvs bs) (hne : bs ≠ []) :
    firstBytes recvs ≠ [] ∧ (firstBytes recvs).length ≤ yangHttpBuffer ∧
      ∃ rest bs', bs = firstBytes recvs ++ bs' ∧ Split rest bs' ∧ ∀ step s,
        httpLoop step recvs s = httpLoop step (.bytes (firstBytes recvs) :: rest) s := by
  induction h with
  | nil => exact absurd rfl hne
  | again h ih => exact ih hne
  | bytes hc hfits h ih => exact ⟨hc, hfits, _, _, rfl, h, fun _ _ => rfl⟩

/-- While the step only takes note of the bytes, the loop goes on to the part with the one that
makes `limit`. What a step needs to know of its part is in `ready`. -/
theorem httpLoop_until {bytes : CStr} {state : Nat → Nat → HttpState}
    {ready : Nat → Nat → CStr → Prop} {limit : Nat}
    (hnext : ∀ times j c c', ready times j c → ready (times + 1) (j + c.length) c')
    (hgo : ∀ times j c, ready times j c → c ≠ [] → c <+: bytes.drop j → j + c.length < limit →
      step (state times j) c = .ret (.goOn (state (times + 1) (j + c.length))))
    {j times : Nat} (h : Split recvs (bytes.drop j)) (hready : ready times j (firstBytes recvs))
    (hj : j < limit) (hlimit : limit ≤ bytes.length) :
    ∃ times' j' c rest, ready times' j' c ∧ j' < limit ∧ limit ≤ j' + c.length ∧
      c <+: bytes.drop j' ∧ c ≠ [] ∧
      httpLoop step recvs (state times j) = httpLoop step (.bytes c :: rest) (state times' j') := by
  generalize hbs : bytes.drop j = bs at h
  induction h generalizing j times with
  | nil =>
    have hlen := congrArg List.length hbs
    rw [List.length_drop, List.length_nil] at hlen
    omega
  | again h ih => exact ih hready hj hbs
  | bytes hc hfits h ih =>
    rename_i recvs c bs
    have hpre : c <+: bytes.drop j := ⟨bs, hbs.symm⟩
    rcases Nat.lt_or_ge (j + c.length) limit with hlt | hge
    · have hrest : bytes.drop (j + c.length) = bs := by
        rw [← List.drop_drop, hbs, List.drop_left]
      obtain ⟨times', j', c', rest, hready', hj', hge, hp, hne, hloop⟩ :=
        ih (hnext times j c _ hready) hlt hrest
      refine ⟨times', j', c', rest, hready', hj', hge, hp, hne, ?_⟩
      rw [httpLoop_goOn (hgo times j c hready hc hpre hlt), hloop]
    · exact ⟨times, j, c, recvs, hready, hj, hge, hpre, hc, rfl⟩

end Loop

section Int

variable {n : Nat}

theorem ofNat_eq_zero (h : n < 2 ^ 31) : Int32.ofNat n = 0 ↔ n = 0 := by
  rw [← Int32.toInt_inj, held_eq h]
  simp

theorem ofNat_pos (h : n < 2 ^ 31) : 0 < Int32.ofNat n ↔ 0 < n := by
  rw [Int32.lt_iff_toInt_lt, held_eq h]
  simp

end Int

namespace HttpMessage

variable (m : HttpMessage) {size j times : Nat} {c : CStr}

/-- The state of the client when `k` bytes are there. -/
def clientAt (times k : Nat) : HttpState where
  recvtimes := times
  contentLen := if m.lineEnd < k then .ofNat m.body.length else 0
  headerLen := if m.head.length ≤ k then m.head.length else 0
  rets := m.bytes.take k

section Receive

variable {m}

theorem take_part (hc : c <+: m.bytes.drop j) :
    m.bytes.take (j + c.length) = m.bytes.take j ++ c := by
  rw [List.take_add, ← List.prefix_iff_eq_take.mp hc]

theorem part_length (hne : c ≠ []) (hc : c <+: m.bytes.drop j) :
    j < m.bytes.length ∧ j + c.length ≤ m.bytes.length := by
  have hpos := List.length_pos_of_ne_nil hne
  have hlen := hc.length_le
  rw [List.length_drop] at hlen
  omega

/-- A NUL in the message comes behind its head, which has the word. -/
theorem strstr_http (hc : c <+: m.bytes) (h : lit "HTTP" <:+: c) :
    ∃ p, strstrIn yangHttpBuffer c (lit "HTTP") = .ret (some p) := by
  have hin : lit "HTTP" <:+: upTo 0 c := by
    by_cases hnul : (0 : UInt8) ∈ c
    · have htake : c = m.bytes.take c.length := List.prefix_iff_eq_take.mp hc
      have hlong : m.head.length < c.length := by
        by_contra hshort
        rw [bytes, List.take_append_of_le_length (by omega)] at htake
        rw [htake] at hnul
        exact m.head_nul (List.mem_of_mem_take hnul)
      have hhead : m.head <+: upTo 0 c := by
        rw [htake, take_text, text, List.prefix_take_iff]
        exact ⟨List.prefix_append _ _, Nat.le_of_lt hlong⟩
      have hstart : m.start <+: m.head := by
        rw [head, front, endLines_cons, List.append_assoc]
        exact List.prefix_append _ _
      exact m.http.trans (hstart.trans hhead).isInfix
    · rwa [upTo_free hnul]
  obtain ⟨p, hp⟩ := find_of_infix (by decide) hin
  exact ⟨p, by rw [strstrIn, hp]⟩

theorem strstr_no_http (h : ¬lit "HTTP" <:+: c) :
    strstrIn yangHttpBuffer c (lit "HTTP") = .crash ∨
      strstrIn yangHttpBuffer c (lit "HTTP") = .ret none := by
  have hnone : find (lit "HTTP") (upTo 0 c) = none :=
    find_none_of_absent (by decide) fun hin => h (hin.trans (upTo_start 0 c).isInfix)
  rw [strstrIn, hnone]
  simp only
  split
  · exact .inr rfl
  · exact .inl rfl

/-- A part goes behind those before it as long as there is room. -/
theorem receive_part (hne : c ≠ []) (hc : c <+: m.bytes.drop j) (hsize : j + c.length ≤ size)
    {s : HttpState} (hs : s.rets = m.bytes.take j)
    (hhttp : s.recvtimes = 0 → ∃ p, strstrIn yangHttpBuffer c (lit "HTTP") = .ret (some p)) :
    receive size s c = .ret (.ok { s with
      rets := m.bytes.take (j + c.length), recvtimes := s.recvtimes + 1 }) := by
  have hlen := part_length hne hc
  have hrets : s.rets.length = j := by
    rw [hs, List.length_take]
    omega
  rw [receive, if_neg (by omega), hs, ← take_part hc]
  simp only
  split
  · rename_i hzero
    obtain ⟨p, hp⟩ := hhttp hzero
    rw [hp]
    rfl
  · rfl

end Receive

section Client

variable {m} {k : Nat} {s : HttpState}

/-- The length is taken over once its line is there, if the line fits the array. -/
theorem postContentLen_part (hs : m.Spelled) (hn : m.body.length < 2 ^ 31)
    (hline : m.lengthText.length ≤ 12 ∨ j ≤ m.lineEnd) (hk : k < size) (hjk : j ≤ k)
    (hcontent : m.front.length + 15 ≤ k) (hrets : s.rets = m.bytes.take k)
    (hlen : s.contentLen = if m.lineEnd < j then .ofNat m.body.length else 0) :
    postContentLen size s = if m.lineEnd < k
      then if m.lengthText.length ≤ 12
        then .ret (.ok { s with contentLen := .ofNat m.body.length }) else .crash
      else .ret (.error (.goOn s)) := by
  unfold postContentLen
  by_cases hzero : s.contentLen = 0
  · rw [if_pos hzero, hrets, m.strstr_content hs hk, if_pos hcontent, Call.ret_bind]
    simp only
    rw [m.find_return hk, Call.ret_bind]
    by_cases hend : m.lineEnd < k
    · rw [if_pos hend, if_neg (Nat.succ_ne_zero _), if_pos m.contetSize_lt,
        m.read_length hs hend hn, if_pos hend]
      split <;> rfl
    · rw [if_neg hend, if_pos rfl, if_neg hend]
      rfl
  · have hend : m.lineEnd < j := by
      by_contra hnot
      rw [if_neg hnot] at hlen
      exact hzero hlen
    rw [if_pos hend] at hlen
    rw [if_neg hzero, if_pos (by omega), if_pos (by omega), ← hlen]
    rfl

theorem postHeaderLen_part (hk : k < size) (hjk : j ≤ k) (hrets : s.rets = m.bytes.take k)
    (hlen : s.headerLen = if m.head.length ≤ j then m.head.length else 0) :
    postHeaderLen size s = .ret (if m.head.length ≤ k
      then .ok { s with headerLen := m.head.length } else .error (.goOn s)) := by
  have hhead := m.head_length
  unfold postHeaderLen
  by_cases hzero : s.headerLen = 0
  · rw [if_pos hzero, hrets, m.strstr_blank hk, Call.ret_bind]
    by_cases hend : m.head.length ≤ k
    · have hpos : 0 < m.head.length - 4 := by
        have hpos := m.lineEnd_pos
        omega
      rw [if_pos hend, if_pos hend]
      simp only
      rw [if_pos hpos, Nat.sub_add_cancel (by omega)]
      rfl
    · rw [if_neg hend, if_neg hend]
      rfl
  · have hend : m.head.length ≤ j := by
      by_contra hnot
      rw [if_neg hnot] at hlen
      exact hzero hlen
    rw [if_pos hend] at hlen
    rw [if_neg hzero, if_pos (by omega), ← hlen]
    rfl

theorem clientAt_zero (m : HttpMessage) : m.clientAt 0 0 = {} := by
  have hhead := m.head_length
  rw [clientAt, if_neg (Nat.not_lt_zero _), if_neg (by omega), List.take_zero]

theorem bytes_length (m : HttpMessage) : m.bytes.length = m.head.length + m.body.length := by
  rw [bytes, List.length_append]

/-- Each part is noted, and the last one ends the loop, unless the line with the length writes past
its array. -/
theorem postStep_part (hs : m.Spelled) (hn : m.body.length < 2 ^ 31)
    (hline : m.lengthText.length ≤ 12 ∨ j ≤ m.lineEnd) (hne : c ≠ []) (hc : c <+: m.bytes.drop j)
    (hsize : j + c.length < size) (hcontent : m.front.length + 15 ≤ j + c.length)
    (hhttp : times = 0 → ∃ p, strstrIn yangHttpBuffer c (lit "HTTP") = .ret (some p)) :
    postStep size (m.clientAt times j) c =
      if m.lineEnd < j + c.length ∧ 12 < m.lengthText.length then .crash
      else .ret (if m.bytes.length ≤ j + c.length
        then .success (m.clientAt (times + 1) (j + c.length))
        else .goOn (m.clientAt (times + 1) (j + c.length))) := by
  have hhead := m.head_length
  have hall := m.bytes_length
  have hlen := (part_length hne hc).2
  generalize hk : j + c.length = k at *
  have hreceive : receive size (m.clientAt times j) c = .ret (.ok { m.clientAt times j with
      rets := m.bytes.take k, recvtimes := times + 1 }) := by
    rw [← hk]
    exact receive_part hne hc (by omega) rfl hhttp
  rw [postStep, hreceive, Call.ret_bind]
  simp only
  rw [postReceived, postContentLen_part hs hn hline hsize (by omega : j ≤ k) hcontent rfl rfl]
  by_cases hlong : m.lineEnd < k ∧ 12 < m.lengthText.length
  · rw [if_pos hlong.1, if_neg (by omega), if_pos hlong]
    rfl
  rw [if_neg hlong]
  by_cases hend : m.lineEnd < k
  · rw [if_pos hend, if_pos (by omega), Call.ret_bind]
    simp only
    rw [postHeaderLen_part hsize (by omega : j ≤ k) rfl rfl, Call.ret_bind]
    by_cases hblank : m.head.length ≤ k
    · have hstate : m.clientAt (times + 1) k =
          ⟨times + 1, .ofNat m.body.length, m.head.length, m.bytes.take k⟩ := by
        rw [clientAt, if_pos hend, if_pos hblank]
      have htake : (m.bytes.take k).length = k := by
        rw [List.length_take]
        omega
      rw [if_pos hblank, hstate]
      simp only [htake, held_eq hn]
      by_cases hdone : m.bytes.length ≤ k
      · rw [if_pos hdone, if_pos (by omega)]
        rfl
      · rw [if_neg hdone, if_neg (by omega)]
        rfl
    · have hstate : m.clientAt (times + 1) k =
          ⟨times + 1, .ofNat m.body.length, 0, m.bytes.take k⟩ := by
        rw [clientAt, if_pos hend, if_neg hblank]
      have hbefore : ¬m.head.length ≤ j := by omega
      rw [if_neg hblank, if_neg (by omega), hstate, clientAt, if_neg hbefore]
      rfl
  · have hstate : m.clientAt (times + 1) k = ⟨times + 1, 0, 0, m.bytes.take k⟩ := by
      rw [clientAt, if_neg hend, if_neg (by omega)]
    rw [if_neg hend, if_neg (by omega), hstate, Call.ret_bind, clientAt,
      if_neg (by omega : ¬m.lineEnd < j),
      if_neg (by omega : ¬m.head.length ≤ j)]
    rfl

/-- Without the protocol's name in the first part the loop is left. -/
theorem receive_no_http (h : ¬lit "HTTP" <:+: c) (hs : s.recvtimes = 0) :
    receive size s c = .crash ∨ receive size s c = .ret (.error .leave) := by
  unfold receive
  split
  · exact .inl rfl
  · simp only [hs]
    rcases strstr_no_http h with hcrash | hnone
    · rw [hcrash]
      exact .inl rfl
    · rw [hnone]
      exact .inr rfl

/-- Nor does the client wait for the phrase. -/
theorem postStep_no_content (hc : c <+: m.bytes) (hne : c ≠ []) (hsize : c.length < size)
    (hcontent : ¬yangHttpContent <:+: c) (hhttp : lit "HTTP" <:+: c) :
    postStep size {} c = .ret .leave := by
  have htake : m.bytes.take c.length = c := (List.prefix_iff_eq_take.mp hc).symm
  have hfirst : receive size {} c = .ret (.ok { rets := c, recvtimes := 1 }) := by
    obtain ⟨p, hp⟩ := strstr_http hc hhttp
    have hpart := receive_part hne (show c <+: m.bytes.drop 0 from hc)
      (show 0 + c.length ≤ size by omega) (s := {}) (by simp) fun _ => ⟨p, hp⟩
    simp only [Nat.zero_add, htake] at hpart
    exact hpart
  have hnone : strstrIn size c yangHttpContent = .ret none := by
    rw [strstrIn_eq hsize]
    congr 1
    exact find_none_of_absent (by decide) fun h => hcontent (h.trans (upTo_start 0 c).isInfix)
  rw [postStep, hfirst, Call.ret_bind]
  simp only [postReceived, postContentLen, ↓reduceIte, hnone, Call.ret_bind]
  rfl

end Client

section Runs

variable {m} {recvs : List Recv}

/-- The message is all there, and it is known where its body begins. -/
def Held (m : HttpMessage) (s : HttpState) : Prop :=
  s.rets = m.bytes ∧ s.headerLen = m.head.length

/-- The client returns without an error when it has the whole message, and not before. -/
def ClientRight (m : HttpMessage) (recvs : List Recv) : Prop :=
  ∃ s, yangHttpPost recvs = .ret (.success s) ∧ m.Held s

/-- The first part has the name of the protocol and that of the length, whose line fits its array. -/
def ClientReady (m : HttpMessage) (recvs : List Recv) : Prop :=
  lit "HTTP" <:+: firstBytes recvs ∧ yangHttpContent <:+: firstBytes recvs ∧
    m.lengthText.length ≤ 12

theorem bytes_ne_nil (m : HttpMessage) : m.bytes ≠ [] := by
  have hhead := m.head_length
  intro h
  have hlen := m.bytes_length
  rw [h, List.length_nil] at hlen
  omega

theorem clientAt_whole (m : HttpMessage) (times : Nat) :
    m.Held (m.clientAt times m.bytes.length) := by
  have hlen := m.bytes_length
  exact ⟨List.take_length, if_pos (by omega)⟩

theorem Held.body {s : HttpState} (h : m.Held s) : s.rets.drop s.headerLen = m.body := by
  rw [h.1, h.2, bytes, List.drop_left]

/-- What the client needs to know of a part. -/
def ClientReads (m : HttpMessage) (times j : Nat) (c : CStr) : Prop :=
  (times = 0 → ∃ p, strstrIn yangHttpBuffer c (lit "HTTP") = .ret (some p)) ∧
    m.front.length + 15 ≤ j + c.length

theorem clientReads_next (m : HttpMessage) (times j : Nat) (c c' : CStr)
    (h : m.ClientReads times j c) : m.ClientReads (times + 1) (j + c.length) c' :=
  ⟨fun hzero => absurd hzero (Nat.succ_ne_zero times), Nat.le_add_right_of_le h.2⟩

section Whole

variable (hs : m.Spelled) (hsize : m.bytes.length < size) (hint : m.body.length < 2 ^ 31)
  (hsplit : Split recvs m.bytes) (hready : m.ClientReads 0 0 (firstBytes recvs))

include hs hsize hint hsplit hready

/-- Once the phrase is there the client waits for the rest of a message whose length it can read. -/
theorem client_waits (hline : m.lengthText.length ≤ 12) :
    ∃ times, httpLoop (postStep size) recvs {} =
      .ret (.success (m.clientAt times m.bytes.length)) := by
  have hstep : ∀ times j c, m.ClientReads times j c → c ≠ [] → c <+: m.bytes.drop j →
      postStep size (m.clientAt times j) c = .ret (if m.bytes.length ≤ j + c.length
        then .success (m.clientAt (times + 1) (j + c.length))
        else .goOn (m.clientAt (times + 1) (j + c.length))) := by
    intro times j c hready hne hc
    have hlen := (part_length hne hc).2
    rw [postStep_part hs hint (.inl hline) hne hc (by omega) hready.2 hready.1, if_neg (by omega)]
  have hgo : ∀ times j c, m.ClientReads times j c → c ≠ [] → c <+: m.bytes.drop j →
      j + c.length < m.bytes.length →
      postStep size (m.clientAt times j) c = .ret (.goOn (m.clientAt (times + 1) (j + c.length))) := by
    intro times j c hready hne hc hlt
    rw [hstep times j c hready hne hc, if_neg (by omega)]
  obtain ⟨times, j, c, rest, hready, -, hge, hc, hne, hloop⟩ :=
    httpLoop_until m.clientReads_next hgo hsplit hready
      (List.length_pos_of_ne_nil (bytes_ne_nil m)) (Nat.le_refl _)
  have hlast := hstep times j c hready hne hc
  have hlen := (part_length hne hc).2
  rw [if_pos hge, show j + c.length = m.bytes.length by omega] at hlast
  rw [m.clientAt_zero] at hloop
  exact ⟨times + 1, by rw [hloop, httpLoop_success hlast]⟩

/-- A longer line is written past its array as soon as it is there. -/
theorem client_crashes (hline : 12 < m.lengthText.length) :
    httpLoop (postStep size) recvs {} = .crash := by
  have hhead := m.head_length
  have hall := m.bytes_length
  have hstep : ∀ times j c, m.ClientReads times j c → j ≤ m.lineEnd → c ≠ [] →
      c <+: m.bytes.drop j → postStep size (m.clientAt times j) c =
        if m.lineEnd < j + c.length then .crash
        else .ret (.goOn (m.clientAt (times + 1) (j + c.length))) := by
    intro times j c hready hmore hne hc
    have hlen := (part_length hne hc).2
    rw [postStep_part hs hint (.inr hmore) hne hc (by omega) hready.2 hready.1]
    by_cases hend : m.lineEnd < j + c.length
    · rw [if_pos ⟨hend, hline⟩, if_pos hend]
    · rw [if_neg (fun h => hend h.1), if_neg hend, if_neg (by omega)]
  have hgo : ∀ times j c, m.ClientReads times j c → c ≠ [] → c <+: m.bytes.drop j →
      j + c.length < m.lineEnd + 1 →
      postStep size (m.clientAt times j) c = .ret (.goOn (m.clientAt (times + 1) (j + c.length))) := by
    intro times j c hready hne hc hlt
    rw [hstep times j c hready (by omega) hne hc, if_neg (by omega)]
  obtain ⟨times, j, c, rest, hready, hj, hge, hc, hne, hloop⟩ :=
    httpLoop_until m.clientReads_next hgo hsplit hready
      (Nat.succ_pos m.lineEnd) (by omega)
  have hlast := hstep times j c hready (by omega) hne hc
  rw [if_pos (by omega)] at hlast
  rw [m.clientAt_zero] at hloop
  rw [hloop, httpLoop_crash hlast]

end Whole

/-- With room for it a message that begins well is received. -/
theorem client_done (hsize : m.bytes.length < size) (hint : m.body.length < 2 ^ 31)
    (hsplit : Split recvs m.bytes) (hready : m.ClientReady recvs) :
    ∃ s, httpLoop (postStep size) recvs {} = .ret (.success s) ∧ m.Held s := by
  obtain ⟨hhttp, hcontent, hline⟩ := hready
  obtain ⟨-, -, -, bs', hbs, -, -⟩ := split_first hsplit (bytes_ne_nil m)
  have hc : firstBytes recvs <+: m.bytes := ⟨bs', hbs.symm⟩
  obtain ⟨hs, hfirst⟩ := (m.content_start hc).mp hcontent
  have hreads : m.ClientReads 0 0 (firstBytes recvs) := ⟨fun _ => strstr_http hc hhttp, by omega⟩
  obtain ⟨times, hrun⟩ := client_waits hs hsize hint hsplit hreads hline
  exact ⟨_, hrun, clientAt_whole m times⟩

theorem client_right_iff (hsplit : Split recvs m.bytes)
    (hsize : m.bytes.length < yangSdpBufferlen) : m.ClientRight recvs ↔ m.ClientReady recvs := by
  have hall := m.bytes_length
  have hint : m.body.length < 2 ^ 31 := by
    unfold yangSdpBufferlen at hsize
    omega
  obtain ⟨hne, -, rest, bs', hbs, hrest, hloop⟩ := split_first hsplit (bytes_ne_nil m)
  have hc : firstBytes recvs <+: m.bytes := ⟨bs', hbs.symm⟩
  have hlen := hc.length_le
  constructor
  · rintro ⟨s, hret, hwhole⟩
    rw [yangHttpPost] at hret
    have hhttp : lit "HTTP" <:+: firstBytes recvs := by
      by_contra hnot
      rw [hloop, httpLoop, postStep] at hret
      have hleft : receive yangSdpBufferlen {} (firstBytes recvs) = .crash ∨
          receive yangSdpBufferlen {} (firstBytes recvs) = .ret (.error .leave) :=
        receive_no_http hnot rfl
      rcases hleft with hcrash | hleave
      · rw [hcrash] at hret
        exact nomatch hret
      · rw [hleave] at hret
        exact nomatch hret
    have hcontent : yangHttpContent <:+: firstBytes recvs := by
      by_contra hnot
      rw [hloop, httpLoop_leave (postStep_no_content hc hne (by omega) hnot hhttp)] at hret
      exact nomatch hret
    obtain ⟨hs, hfirst⟩ := (m.content_start hc).mp hcontent
    have hready : m.ClientReads 0 0 (firstBytes recvs) :=
      ⟨fun _ => strstr_http hc hhttp, by omega⟩
    refine ⟨hhttp, hcontent, ?_⟩
    by_contra hline
    rw [client_crashes hs hsize hint hsplit hready (by omega)] at hret
    exact nomatch hret
  · exact client_done hsize hint hsplit

end Runs

end HttpMessage

end MetaRtc
