import MetaRtc.Rtcp.Feedback
import MetaRtc.Rtcp.TwccDecode

/-! # Feedback messages made of runs

Where no chunk is a vector, the chunks of a message are the runs of its symbols. -/
namespace MetaRtc

open Bytes

/-- The word of a run, its symbol first. -/
def runWord (run : Nat × Nat) : Nat := run.1 * 8192 + run.2

def runSymbols (run : Nat × Nat) : List Nat := List.replicate run.2 run.1

/-- A chunk with a run is put away when this symbol comes behind it. -/
def EndsRun (symbol count d : Nat) : Prop := 14 ≤ count ∨ 7 ≤ count ∧ (symbol = 2 ∨ d = 2)

instance (symbol count d : Nat) : Decidable (EndsRun symbol count d) := by
  unfold EndsRun
  exact inferInstance

/-- Behind a run of some symbol, all of these are packed in runs. -/
def RunsOnly : Nat → Nat → List Nat → Prop
  | _, _, [] => True
  | symbol, count, d :: syms =>
    if d = symbol ∨ count = 0 then RunsOnly d (count + 1) syms
    else EndsRun symbol count d ∧ RunsOnly d 1 syms

instance decidableRunsOnly : ∀ symbol count syms, Decidable (RunsOnly symbol count syms)
  | _, _, [] => isTrue trivial
  | symbol, count, d :: syms => by
    have := decidableRunsOnly d (count + 1) syms
    have := decidableRunsOnly d 1 syms
    unfold RunsOnly
    exact inferInstance

/-- A distance in microseconds in units of a delta, to the nearest. -/
def quantum (us : Int) : Int :=
  (us + if us < 0 then -(kTwccFbDeltaUnit / 2) else kTwccFbDeltaUnit / 2).tdiv kTwccFbDeltaUnit

/-- What is to be told of a number: how many were lost before it, and its delta. -/
structure Report where
  gap : Nat
  sn : Nat
  delta : Int

/-- The reports of a list behind a number and a time. Each delta is taken from the time the one
before it stands for. -/
def reports (tss : Nat → Int) : Nat → Int → List Nat → List Report
  | _, _, [] => []
  | lastSn, last, sn :: rest =>
    let delta := quantum (tss (sn &&& 511) - last)
    ⟨twccGap lastSn sn, sn, delta⟩ :: reports tss sn (last + delta * kTwccFbDeltaUnit) rest

def Report.symbols (report : Report) : List Nat :=
  List.replicate report.gap 0 ++ [recvDeltaSize report.delta]

/-- The 16 bits of a delta. -/
def Report.word (report : Report) : Nat := (report.delta % 65536).toNat

/-- The chunks put away are these runs, and the one being filled is another. -/
structure PackedRuns (chucks : List Nat) (chunk : RtcpTWCCChunk) (syms : List Nat)
    (runs : List (Nat × Nat)) (symbol count : Nat) : Prop where
  words : chucks = runs.map runWord
  closed : ∀ run ∈ runs, run.1 < 3 ∧ 7 ≤ run.2 ∧ run.2 < 8192
  all : syms = runs.flatMap runSymbols ++ List.replicate count symbol
  held : Holds chunk (List.replicate count symbol)
  some : syms ≠ [] → count ≠ 0

section Packing

variable {twcc : RecvTwccFeedback} {chunk : RtcpTWCCChunk} {syms : List Nat}
  {runs : List (Nat × Nat)} {symbol count d : Nat}

theorem runs_length (h : ∀ run ∈ runs, run.1 < 3 ∧ 7 ≤ run.2 ∧ run.2 < 8192) :
    7 * runs.length ≤ (runs.flatMap runSymbols).length := by
  induction runs with
  | nil => exact Nat.le_refl _
  | cons run runs ih =>
    have hrun := (h run List.mem_cons_self).2.1
    have hrest := ih fun r hr => h r (List.mem_cons_of_mem _ hr)
    simp only [List.flatMap_cons, List.length_append, runSymbols, List.length_replicate,
      List.length_cons]
    omega

theorem PackedRuns.length (h : PackedRuns twcc.encodedChucks chunk syms runs symbol count) :
    7 * twcc.encodedChucks.length + count ≤ syms.length := by
  have hruns := runs_length h.closed
  rw [h.words, h.all, List.length_append, List.length_map, List.length_replicate]
  omega

/-- The run held is put away as its word. -/
theorem Holds.encodeRun_word (h : Holds chunk (List.replicate count symbol)) (hcount : count ≠ 0)
    (hmax : count < 8192) (twcc : RecvTwccFeedback) : chunk.allSame = true ∧
      twccEncodeChunkRunLength twcc chunk = (yangOk, twcc.insertChunks [runWord (symbol, count)]) := by
  have hsize : chunk.size = count := by simpa using h.size
  have hne : List.replicate count symbol ≠ [] := by simpa using hcount
  obtain ⟨hsame, hfirst⟩ := (h.run_of (d := symbol) hne).mpr fun x hx => List.eq_of_mem_replicate hx
  have hsmall : symbol < 3 := h.symbol symbol (by simpa using hcount)
  have hword : symbol <<< 13 ||| count = runWord (symbol, count) := by
    rw [← Nat.shiftLeft_add_eq_or_of_lt (by simpa using hmax), Nat.shiftLeft_eq, runWord]
  have hlt : runWord (symbol, count) % 65536 = runWord (symbol, count) :=
    Nat.mod_eq_of_lt (by unfold runWord; dsimp only; omega)
  refine ⟨hsame, ?_⟩
  unfold twccEncodeChunkRunLength kTwccFbMaxRunLength
  rw [if_neg (by rw [hsame, hsize]; simp; omega), hfirst, hsize, hword]
  simp [RecvTwccFeedback.insertChunk, RecvTwccFeedback.insertChunks, hlt]

/-- A symbol behind a run makes it longer, or comes where the run is put away. -/
theorem PackedRuns.process (h : PackedRuns twcc.encodedChucks chunk syms runs symbol count)
    (hd : d < 3) (hroom : HasRoom twcc chunk d) (hmax : count < 8191)
    (hnext : d = symbol ∨ count = 0 ∨ EndsRun symbol count d) : ∃ more chunk',
      twccProcessPktChunk twcc chunk d =
        (yangOk, twcc.insertChunks (more.map runWord), chunk') ∧
      PackedRuns (twcc.encodedChucks ++ more.map runWord) chunk' (syms ++ [d]) (runs ++ more) d
        (if d = symbol ∨ count = 0 then count + 1 else 1) := by
  have hcan := canAddToChunk_iff h.held (d := d)
  rw [List.length_replicate] at hcan
  unfold twccProcessPktChunk
  rw [if_neg (by unfold HasRoom at hroom; omega)]
  by_cases hsame : d = symbol ∨ count = 0
  · have heq : List.replicate count symbol = List.replicate count d := by
      rcases hsame with rfl | rfl <;> rfl
    have hadd : twccCanAddToChunk chunk d = true := by
      refine hcan.mpr (.inr (.inr ⟨hmax, fun x hx => ?_⟩))
      rw [heq] at hx
      exact List.eq_of_mem_replicate hx
    have hheld := h.held.add hd hadd
    rw [heq, ← List.replicate_succ'] at hheld
    rw [if_pos hadd, if_pos hsame]
    refine ⟨[], twccAddToChunk chunk d, by simp [RecvTwccFeedback.insertChunks], ?_⟩
    exact {
      words := by simp [h.words]
      closed := by simpa using h.closed
      all := by rw [List.append_nil, List.replicate_succ', ← List.append_assoc, ← heq, ← h.all]
      held := hheld
      some := fun _ => Nat.succ_ne_zero _ }
  · have hclose : EndsRun symbol count d := by
      rcases hnext with hnext | hnext | hnext
      · exact absurd (.inl hnext) hsame
      · exact absurd (.inr hnext) hsame
      · exact hnext
    have hfull : ¬ twccCanAddToChunk chunk d = true := by
      have hmem : symbol ∈ List.replicate count symbol :=
        List.mem_replicate.mpr ⟨fun hzero => hsame (.inr hzero), rfl⟩
      unfold EndsRun at hclose
      rw [hcan]
      rintro (hshort | ⟨hshort, hlarge, hd2⟩ | ⟨-, hall⟩)
      · omega
      · have hsymbol : symbol ≠ 2 := fun h2 => hlarge (h2 ▸ hmem)
        omega
      · exact hsame (.inl (hall symbol hmem).symm)
    have hopen : ¬ (twccCanAddToChunk chunk 0 = true ∧ twccCanAddToChunk chunk 1 = true ∧
        twccCanAddToChunk chunk 2 = true) := by
      rintro ⟨h0, h1, h2⟩
      obtain rfl | rfl | rfl : d = 0 ∨ d = 1 ∨ d = 2 := by omega
      all_goals contradiction
    obtain ⟨hall, hrun⟩ := h.held.encodeRun_word (by omega) (by omega) twcc
    have hreset := (Holds.reset chunk).add hd ((canAddToChunk_iff (Holds.reset chunk)).mpr
      (.inl (by decide)))
    have hsmall : symbol < 3 := h.held.symbol symbol (by simp; omega)
    rw [if_neg hfull, if_neg hsame]
    refine ⟨[(symbol, count)], twccAddToChunk (twccResetChunk chunk) d, ?_, ?_⟩
    · unfold twccEncodeChunk
      rw [if_neg hopen, if_pos hall, hrun]
      rfl
    · exact {
        words := by rw [List.map_append, h.words]
        closed := by
          intro run hrun
          rcases List.mem_append.mp hrun with hrun | hrun
          · exact h.closed run hrun
          · obtain rfl := List.mem_singleton.mp hrun
            unfold EndsRun at hclose
            exact ⟨hsmall, by dsimp only; omega, by dsimp only; omega⟩
        all := by simp [h.all, runSymbols]
        held := hreset
        some := fun _ => Nat.one_ne_zero }

end Packing

/-- What the loop over the numbers has packed so far. -/
structure RunsEncoded (s : TwccEncoding) (syms : List Nat) (runs : List (Nat × Nat))
    (symbol count : Nat) : Prop where
  packed : PackedRuns s.twcc.encodedChucks s.chunk syms runs symbol count
  pktLen : s.twcc.pktLen = kTwccFbPktHeaderSize + 2 * s.twcc.encodedChucks.length + deltaBytes syms

section Encoding

variable {s : TwccEncoding} {syms more : List Nat} {runs : List (Nat × Nat)}
  {symbol count d n : Nat}

theorem statusBytes_le (d : Nat) : statusBytes d ≤ 2 := by
  unfold statusBytes
  split
  · decide
  · split <;> decide

theorem deltaBytes_le (syms : List Nat) : deltaBytes syms ≤ 2 * syms.length := by
  induction syms with
  | nil => exact Nat.le_refl _
  | cons d syms ih =>
    have hd := statusBytes_le d
    simp only [deltaBytes, List.map_cons, List.sum_cons, List.length_cons] at ih ⊢
    omega

theorem deltaBytes_append (xs ys : List Nat) :
    deltaBytes (xs ++ ys) = deltaBytes xs + deltaBytes ys := by
  simp [deltaBytes]

/-- While no more than 512 numbers are told of, there is room. -/
theorem RunsEncoded.length (h : RunsEncoded s syms runs symbol count) (hlen : syms.length ≤ 512) :
    s.twcc.pktLen + 2 ≤ 1200 ∧ count ≤ 512 := by
  have hruns := h.packed.length
  have hdeltas := deltaBytes_le syms
  have hpkt := h.pktLen
  unfold kTwccFbPktHeaderSize at hpkt
  omega

theorem RunsEncoded.process (h : RunsEncoded s syms runs symbol count) (hd : d < 3)
    (hlen : syms.length ≤ 512) (hruns : RunsOnly symbol count (d :: more)) : ∃ put chunk' count',
      twccProcessPktChunk s.twcc s.chunk d =
        (yangOk, s.twcc.insertChunks (put.map runWord), chunk') ∧
      PackedRuns (s.twcc.encodedChucks ++ put.map runWord) chunk' (syms ++ [d]) (runs ++ put) d
        count' ∧
      RunsOnly d count' more := by
  obtain ⟨hpkt, hcount⟩ := h.length hlen
  have hroom : HasRoom s.twcc s.chunk d := by
    unfold HasRoom kRtcpPacketSize kTwccFbChunkBytes
    split <;> omega
  have hnext : d = symbol ∨ count = 0 ∨ EndsRun symbol count d := by
    unfold RunsOnly at hruns
    split at hruns
    · rename_i hsame
      exact hsame.imp_right .inl
    · exact .inr (.inr hruns.1)
  obtain ⟨put, chunk', hproc, hpacked⟩ := h.packed.process hd hroom (by omega) hnext
  refine ⟨put, chunk', _, hproc, hpacked, ?_⟩
  unfold RunsOnly at hruns
  split
  · rename_i hsame
    rwa [if_pos hsame] at hruns
  · rename_i hsame
    rw [if_neg hsame] at hruns
    exact hruns.2

/-- The numbers passed over are packed, and nothing else changes but their count. -/
theorem RunsEncoded.lost (h : RunsEncoded s syms runs symbol count)
    (hlen : syms.length + n ≤ 512) (hcount : s.packetCount + n < 65536)
    (hruns : RunsOnly symbol count (List.replicate n 0 ++ more)) : ∃ runs' symbol' count',
      RunsEncoded (twccLost n s) (syms ++ List.replicate n 0) runs' symbol' count' ∧
      RunsOnly symbol' count' more ∧
      (twccLost n s).packetCount = s.packetCount + n ∧
      (twccLost n s).lastTs = s.lastTs ∧ (twccLost n s).lastSn = s.lastSn ∧
      (twccLost n s).twcc = { s.twcc with
        encodedChucks := (twccLost n s).twcc.encodedChucks
        pktLen := (twccLost n s).twcc.pktLen } := by
  induction n generalizing s syms runs symbol count with
  | zero => exact ⟨runs, symbol, count, by simpa [twccLost] using h, by simpa using hruns, rfl, rfl,
      rfl, rfl⟩
  | succ n ih =>
    obtain ⟨put, chunk', count', hproc, hpacked, hrest⟩ := h.process (d := 0) (by decide)
      (by omega) hruns
    let t : TwccEncoding := { s with
      twcc := s.twcc.insertChunks (put.map runWord)
      chunk := chunk'
      packetCount := (s.packetCount + 1) % 65536 }
    have hstep : twccLost (n + 1) s = twccLost n t := by
      rw [twccLost, hproc]
    have ht : RunsEncoded t (syms ++ [0]) (runs ++ put) 0 count' := by
      refine ⟨hpacked, ?_⟩
      have hpkt := h.pktLen
      simp only [t, RecvTwccFeedback.insertChunks, List.length_append, deltaBytes_append,
        kTwccFbChunkBytes] at hpkt ⊢
      have hzero : deltaBytes [0] = 0 := rfl
      omega
    have htc : t.packetCount = s.packetCount + 1 := Nat.mod_eq_of_lt (by omega)
    obtain ⟨runs', symbol', count'', henc, hmore, hpc, hts, hsn, htwcc⟩ := ih ht
      (by rw [List.length_append, List.length_singleton]; omega) (by omega) hrest
    rw [hstep]
    refine ⟨runs', symbol', count'', ?_, hmore, by omega, hts, hsn, ?_⟩
    · simpa [List.replicate_succ] using henc
    · rw [htwcc]
      rfl

end Encoding

theorem quantum_of_nonneg {us : Int} (h : 0 ≤ us) : quantum us = (us + 125) / 250 := by
  unfold quantum kTwccFbDeltaUnit
  rw [if_neg (by omega), Int.tdiv_eq_ediv_of_nonneg (by omega)]
  rfl

theorem quantum_of_neg {us : Int} (h : us < 0) : quantum us = -((125 - us) / 250) := by
  unfold quantum kTwccFbDeltaUnit
  rw [if_pos h, show us + -(250 / 2) = -(125 - us) by omega, Int.neg_tdiv,
    Int.tdiv_eq_ediv_of_nonneg (by omega)]

/-- A delta is no further from the distance than half of its unit. -/
theorem quantum_near (us : Int) : (us - quantum us * kTwccFbDeltaUnit).natAbs ≤ 125 := by
  unfold kTwccFbDeltaUnit
  rcases lt_or_ge us 0 with hneg | hpos
  · rw [quantum_of_neg hneg]
    omega
  · rw [quantum_of_nonneg hpos]
    omega

theorem tmod_near {d x q : Int} (hlo : -d < x) (hhi : x < d) (hq : 0 ≤ q) :
    (x + q * d).tmod d = x ∨ (x + q * d).tmod d = x + d ∧ x < 0 := by
  have hmul : 0 ≤ q * d := Int.mul_nonneg hq (by omega)
  rcases lt_or_ge x 0 with hneg | hpos
  · rcases lt_or_ge 0 q with hq1 | hq0
    · have hle : 1 * d ≤ q * d := Int.mul_le_mul_of_nonneg_right hq1 (by omega)
      refine .inr ⟨?_, hneg⟩
      rw [Int.tmod_eq_emod_of_nonneg (by omega), Int.add_mul_emod_self_right,
        ← Int.add_emod_right, Int.emod_eq_of_lt (by omega) (by omega)]
    · obtain rfl : q = 0 := Int.le_antisymm hq0 hq
      refine .inl ?_
      rw [Int.zero_mul, Int.add_zero, ← Int.neg_neg x, Int.neg_tmod,
        Int.tmod_eq_of_lt (by omega) (by omega)]
  · refine .inl ?_
    rw [Int.tmod_eq_emod_of_nonneg (by omega), Int.add_mul_emod_self_right,
      Int.emod_eq_of_lt hpos hhi]

theorem Representable.near {us : Int} (h : Representable (quantum us)) :
    -9000000 < us ∧ us < 9000000 := by
  have hnear := quantum_near us
  unfold kTwccFbDeltaUnit at hnear
  unfold Representable at h
  omega

/-- The distance of two times is the one the code takes, whatever multiple of the divisor lies
between its time and the one meant. -/
theorem calculateDeltaUs_eq {ts last q : Int} (hq : 0 ≤ q)
    (h : Representable (quantum (ts - last))) :
    twccCalculateDeltaUs ts (last - q * kTwccFbReferenceTimeDivisor) = quantum (ts - last) := by
  obtain ⟨x, hx⟩ : ∃ x, x = ts - last := ⟨_, rfl⟩
  rw [← hx] at h ⊢
  have hsum : ts - (last - q * kTwccFbReferenceTimeDivisor) =
      x + q * kTwccFbReferenceTimeDivisor := by
    rw [hx]
    ring
  have hdiv : kTwccFbReferenceTimeDivisor = 1073741824000 := by decide
  obtain ⟨hlo, hhi⟩ := h.near
  unfold twccCalculateDeltaUs
  dsimp only
  rw [hsum]
  rcases tmod_near (x := x) (show -kTwccFbReferenceTimeDivisor < x by omega) (by omega) hq
    with hmod | ⟨hmod, hneg⟩
  · rw [hmod, if_neg (by omega)]
    rfl
  · rw [hmod, if_pos (by omega), Int.add_sub_cancel]
    rfl

/-- The symbols of a list of reports. -/
def symbolsOf (rs : List Report) : List Nat := rs.flatMap Report.symbols

theorem symbolsOf_cons (r : Report) (rs : List Report) :
    symbolsOf (r :: rs) = List.replicate r.gap 0 ++ (recvDeltaSize r.delta :: symbolsOf rs) := by
  simp [symbolsOf, Report.symbols]

theorem symbolsOf_length (tss : Nat → Int) (lastSn : Nat) (last : Int) (list : List Nat) :
    (symbolsOf (reports tss lastSn last list)).length = symbolCount lastSn list := by
  induction list generalizing lastSn last with
  | nil => rfl
  | cons sn rest ih =>
    rw [reports, symbolsOf_cons, List.length_append, List.length_cons, ih, List.length_replicate]
    simp only [symbolCount]
    omega

theorem statusBytes_recvDeltaSize (delta : Int) :
    statusBytes (recvDeltaSize delta) = recvDeltaSize delta := by
  unfold recvDeltaSize
  split <;> rfl

/-- Where its symbols are runs that fill their chunks, and few, a list is packed in runs. -/
theorem encodeLoop_runs {left : Int} (hleft : 1472 ≤ left) {tss : Nat → Int} (list : List Nat)
    (i : Nat) {s : TwccEncoding} {syms : List Nat} {runs : List (Nat × Nat)} {symbol count : Nat}
    {last q : Int} (h : RunsEncoded s syms runs symbol count) (htss : s.twcc.tss = tss)
    (hq : 0 ≤ q) (hts : s.lastTs = last - q * kTwccFbReferenceTimeDivisor)
    (hpc : s.packetCount = syms.length)
    (hdelta : ∀ r ∈ reports tss s.lastSn last list, Representable r.delta)
    (hlen : syms.length + (symbolsOf (reports tss s.lastSn last list)).length ≤ 512)
    (hruns : RunsOnly symbol count (symbolsOf (reports tss s.lastSn last list))) :
    ∃ s' runs' symbol' count', twccEncodeLoop left i list s = (yangOk, s') ∧
      RunsEncoded s' (syms ++ symbolsOf (reports tss s.lastSn last list)) runs' symbol' count' ∧
      s'.packetCount = syms.length + (symbolsOf (reports tss s.lastSn last list)).length ∧
      s'.twcc.pktDeltas = s.twcc.pktDeltas ++ (reports tss s.lastSn last list).map Report.word ∧
      s'.twcc = { s.twcc with
        encodedChucks := s'.twcc.encodedChucks
        pktLen := s'.twcc.pktLen
        pktDeltas := s'.twcc.pktDeltas
        newSnsIndex := s'.twcc.newSnsIndex } := by
  induction list generalizing i s syms runs symbol count last with
  | nil => exact ⟨s, runs, symbol, count, rfl, by simpa [reports, symbolsOf] using h,
      by simpa [reports, symbolsOf] using hpc, by simp [reports], rfl⟩
  | cons sn rest ih =>
    obtain ⟨delta, hdef⟩ : ∃ delta, delta = quantum (tss (sn &&& 511) - last) := ⟨_, rfl⟩
    have hreports : reports tss s.lastSn last (sn :: rest) = ⟨twccGap s.lastSn sn, sn, delta⟩ ::
        reports tss sn (last + delta * kTwccFbDeltaUnit) rest := by
      rw [hdef]
      rfl
    rw [hreports] at hdelta hlen hruns ⊢
    have hrep : Representable delta := hdelta _ List.mem_cons_self
    rw [symbolsOf_cons] at hlen hruns ⊢
    dsimp only at hlen hruns ⊢
    rw [List.length_append, List.length_cons, List.length_replicate] at hlen
    have hus : (s.start i).deltaUs sn = delta := by
      show twccCalculateDeltaUs (s.twcc.tss (sn &&& 511)) s.lastTs = delta
      rw [htss, hts, calculateDeltaUs_eq hq (hdef ▸ hrep), hdef]
    have hstart : RunsEncoded (s.start i) syms runs symbol count := ⟨h.packed, h.pktLen⟩
    have hstartpc : (s.start i).packetCount = syms.length + 1 := by
      show (s.packetCount + 1) % 65536 = _
      omega
    obtain ⟨runs₁, symbol₁, count₁, hlost, hruns, hlostpc, hlostts, hlostsn, hlosttwcc⟩ :=
      hstart.lost (n := twccGap s.lastSn sn) (by omega) (by omega) hruns
    obtain ⟨t, ht⟩ : ∃ t, t = twccLost (twccGap s.lastSn sn) (s.start i) := ⟨_, rfl⟩
    rw [← ht] at hlost hlostpc hlostts hlostsn hlosttwcc
    obtain ⟨hd0, hd3⟩ := recvDeltaSize_pos delta
    obtain ⟨put, chunk', count₂, hproc, hpacked, hruns⟩ := hlost.process hd3
      (by rw [List.length_append, List.length_replicate]; omega) hruns
    obtain ⟨u, hu⟩ : ∃ u, u = t.received (t.twcc.insertChunks (put.map runWord)) chunk' sn delta
      (recvDeltaSize delta) := ⟨_, rfl⟩
    have henc : RunsEncoded u (syms ++ List.replicate (twccGap s.lastSn sn) 0 ++
        [recvDeltaSize delta]) (runs₁ ++ put) (recvDeltaSize delta) count₂ := by
      rw [hu]
      refine ⟨hpacked, ?_⟩
      have hpkt := hlost.pktLen
      have hone : deltaBytes [recvDeltaSize delta] = recvDeltaSize delta := by
        simp [deltaBytes, statusBytes_recvDeltaSize]
      simp only [TwccEncoding.received, RecvTwccFeedback.insertChunks, List.length_append,
        deltaBytes_append _ [recvDeltaSize delta], hone, kTwccFbChunkBytes] at hpkt ⊢
      omega
    have huts : u.lastTs = last + delta * kTwccFbDeltaUnit - q * kTwccFbReferenceTimeDivisor := by
      rw [hu]
      show t.lastTs + delta * kTwccFbDeltaUnit = _
      rw [hlostts]
      show s.lastTs + _ = _
      rw [hts]
      ring
    have husn : u.lastSn = sn := by rw [hu]; rfl
    have hutss : u.twcc.tss = tss := by
      rw [hu]
      show t.twcc.tss = tss
      rw [hlosttwcc]
      exact htss
    have hupc : u.packetCount = (syms ++ List.replicate (twccGap s.lastSn sn) 0 ++
        [recvDeltaSize delta]).length := by
      rw [hu]
      show t.packetCount = _
      simp only [List.length_append, List.length_replicate, List.length_singleton]
      omega
    obtain ⟨s', runs', symbol', count', hloop, henc', hpc', hdeltas', htwcc'⟩ :=
      ih (i + 1) henc hutss huts hupc
        (by rw [husn]; exact fun r hr => hdelta r (List.mem_cons_of_mem _ hr))
        (by
          rw [husn]
          simp only [List.length_append, List.length_replicate, List.length_singleton]
          omega)
        (by rwa [husn])
    rw [husn] at henc' hpc' hdeltas'
    refine ⟨s', runs', symbol', count', ?_, ?_, ?_, ?_, ?_⟩
    · obtain ⟨hpkt, -⟩ := h.length (by omega)
      unfold twccEncodeLoop
      rw [if_neg (by omega)]
      dsimp only
      rw [hus, if_neg (not_not.mpr hrep), show (s.start i).lastSn = s.lastSn from rfl, ← ht, hproc]
      dsimp only
      rw [if_neg (not_not.mpr rfl), ← hu]
      exact hloop
    · simpa using henc'
    · rw [hpc']
      simp only [List.length_append, List.length_replicate, List.length_cons, List.length_nil]
      omega
    · have hword : u.twcc.pktDeltas = s.twcc.pktDeltas ++ [(delta % 65536).toNat] := by
        rw [hu]
        show t.twcc.pktDeltas ++ [(delta % 65536).toNat] = _
        rw [hlosttwcc]
        rfl
      rw [hdeltas', hword, List.append_assoc]
      rfl
    · rw [htwcc', hu]
      simp only [TwccEncoding.received, RecvTwccFeedback.insertChunks]
      rw [hlosttwcc]
      rfl

/-- The chunk being filled is put away behind the others. -/
theorem RunsEncoded.remaining {s : TwccEncoding} {syms : List Nat} {runs : List (Nat × Nat)}
    {symbol count : Nat} (h : RunsEncoded s syms runs symbol count) (hne : syms ≠ [])
    (hmax : count < 8192) : ∃ all : List (Nat × Nat),
      (∀ run ∈ all, run.1 < 3 ∧ 0 < run.2 ∧ run.2 < 8192) ∧ all.flatMap runSymbols = syms ∧
      s.twcc.encodedChucks ++ [runWord (symbol, count)] = all.map runWord ∧ 0 < s.chunk.size ∧
      ∀ twcc, twccEncodeRemainingChunk twcc s.chunk =
        (yangOk, twcc.insertChunks [runWord (symbol, count)]) := by
  have hcount := h.packed.some hne
  have hsize : s.chunk.size = count := by simpa using h.packed.held.size
  have hsmall : symbol < 3 := h.packed.held.symbol symbol (by simpa using hcount)
  refine ⟨runs ++ [(symbol, count)], ?_, ?_, ?_, by omega, fun twcc => ?_⟩
  · intro run hrun
    rcases List.mem_append.mp hrun with hrun | hrun
    · obtain ⟨h3, h7, h8192⟩ := h.packed.closed run hrun
      exact ⟨h3, by omega, h8192⟩
    · obtain rfl := List.mem_singleton.mp hrun
      exact ⟨hsmall, Nat.pos_of_ne_zero hcount, hmax⟩
  · simp [h.packed.all, runSymbols]
  · simp [h.packed.words]
  · obtain ⟨hsame, hrun⟩ := h.packed.held.encodeRun_word hcount hmax twcc
    unfold twccEncodeRemainingChunk
    rw [if_pos hsame, hrun]

/-- A time in the units of the reference time of a message. -/
def twccReference (ts : Int) : Int := ts / kTwccFbTimeMultiplier * kTwccFbTimeMultiplier

theorem encodeStart_time (chunk : RtcpTWCCChunk) {twcc : RecvTwccFeedback} {first : Nat}
    {rest : List Nat} (hbase : twcc.nextBaseSn = 0) (hlist : twcc.sns.list = first :: rest)
    (hts : 0 ≤ twcc.tss (first &&& 511)) :
    (twccEncodeStart chunk twcc).twcc.referenceTime =
        twcc.tss (first &&& 511) / kTwccFbTimeMultiplier % 2 ^ 24 ∧
      (twccEncodeStart chunk twcc).lastTs = twccReference (twcc.tss (first &&& 511)) -
        twcc.tss (first &&& 511) / kTwccFbReferenceTimeDivisor * kTwccFbReferenceTimeDivisor := by
  have hbaseSn : (if twcc.nextBaseSn = 0 then twcc.sns.payload 0 else twcc.nextBaseSn) = first := by
    rw [if_pos hbase, list_first hlist]
  have hmult : kTwccFbTimeMultiplier = 64000 := by decide
  have hdiv : kTwccFbReferenceTimeDivisor = 1073741824000 := by decide
  have href : (twccEncodeStart chunk twcc).twcc.referenceTime =
      (twcc.tss (first &&& 511) % 1073741824000) / 64000 := by
    unfold twccEncodeStart
    dsimp only
    rw [hbaseSn, hmult, hdiv, Int.tmod_eq_emod_of_nonneg hts,
      Int.tdiv_eq_ediv_of_nonneg (Int.emod_nonneg _ (by decide))]
  refine ⟨by rw [href, hmult]; omega, ?_⟩
  show (twccEncodeStart chunk twcc).twcc.referenceTime * kTwccFbTimeMultiplier = _
  rw [href, twccReference, hmult, hdiv]
  omega

/-- What is to be told of the numbers of a record. -/
def RecvTwccFeedback.reports (twcc : RecvTwccFeedback) : List Report :=
  MetaRtc.reports twcc.tss (twcc.sns.payload 0) (twccReference (twcc.tss (twcc.sns.payload 0 &&& 511)))
    twcc.sns.list

/-- A record that nothing is left in from before, with the time of its first number. -/
structure RecvTwccFeedback.Fresh (twcc : RecvTwccFeedback) : Prop where
  chucks : twcc.encodedChucks = []
  deltas : twcc.pktDeltas = []
  next : twcc.nextBaseSn = 0
  some : twcc.sns.vsize ≠ 0
  time : 0 ≤ twcc.tss (twcc.sns.payload 0 &&& 511)

/-- A message that tells of a record in runs. -/
structure MadeOfRuns (twcc packed : RecvTwccFeedback) (runs : List (Nat × Nat)) (len pad : Nat)
    (msg : List UInt8) : Prop where
  bytes : ∃ b0 b1, msg = [b0, b1] ++ (beBytes 2 len ++ feedbackBody packed
    (symbolsOf twcc.reports).length
    ((twcc.reports.map Report.word).flatMap deltaOctets ++ List.replicate pad 0))
  valid : ∀ run ∈ runs, run.1 < 3 ∧ 0 < run.2 ∧ run.2 < 8192
  symbols : runs.flatMap runSymbols = symbolsOf twcc.reports
  words : packed.encodedChucks = runs.map runWord
  baseSn : packed.baseSn = twcc.sns.payload 0
  referenceTime : packed.referenceTime =
    twcc.tss (twcc.sns.payload 0 &&& 511) / kTwccFbTimeMultiplier % 2 ^ 24
  padded : 4 * (len + 1) = 20 + 2 * runs.length + deltaBytes (symbolsOf twcc.reports) + pad
  short : len < 65536

/-- The loop over a record that nothing is left in from before. -/
theorem encodeLoop_fresh {chunk : RtcpTWCCChunk} {twcc : RecvTwccFeedback} {left : Int}
    (hchunk : chunk.Unfilled) (hfresh : twcc.Fresh) (hleft : 1472 ≤ left)
    (hdelta : ∀ r ∈ twcc.reports, Representable r.delta)
    (hlen : (symbolsOf twcc.reports).length ≤ 512) (hruns : RunsOnly 0 0 (symbolsOf twcc.reports)) :
    ∃ s runs symbol count,
      twccEncodeLoop left 0 twcc.sns.list (twccEncodeStart chunk twcc) = (yangOk, s) ∧
      RunsEncoded s (symbolsOf twcc.reports) runs symbol count ∧
      s.packetCount = (symbolsOf twcc.reports).length ∧
      s.twcc.pktDeltas = twcc.reports.map Report.word ∧ s.twcc.baseSn = twcc.sns.payload 0 ∧
      s.twcc.referenceTime =
        twcc.tss (twcc.sns.payload 0 &&& 511) / kTwccFbTimeMultiplier % 2 ^ 24 := by
  obtain ⟨first, rest, hlist, hfirst⟩ := list_some hfresh.some
  obtain ⟨hreftime, hlastts⟩ := encodeStart_time chunk hfresh.next hlist (hfirst ▸ hfresh.time)
  obtain ⟨start, hstart⟩ : ∃ start, start = twccEncodeStart chunk twcc := ⟨_, rfl⟩
  have hsn : start.lastSn = twcc.sns.payload 0 := by
    rw [hstart, encodeStart_first hfresh.next hlist, hfirst]
  have hreports : twcc.reports = reports twcc.tss start.lastSn
      (twccReference (twcc.tss (first &&& 511))) twcc.sns.list := by
    rw [hsn, ← hfirst]
    rfl
  have henc : RunsEncoded start [] [] 0 0 := by
    rw [hstart]
    refine ⟨⟨hfresh.chucks, by simp, rfl, .of_unfilled hchunk, fun h => absurd rfl h⟩, ?_⟩
    simp [twccEncodeStart, hfresh.chucks, deltaBytes]
  have hq : 0 ≤ twcc.tss (first &&& 511) / kTwccFbReferenceTimeDivisor :=
    Int.ediv_nonneg (hfirst ▸ hfresh.time) (by decide)
  obtain ⟨s, runs, symbol, count, hloop, hs, hpc, hdeltas, hframe⟩ :=
    encodeLoop_runs hleft twcc.sns.list 0 henc
      (show start.twcc.tss = twcc.tss by rw [hstart]; rfl) hq (by rw [hstart]; exact hlastts)
      (by rw [hstart]; rfl) (by rwa [← hreports]) (by rw [← hreports]; simpa using hlen)
      (by rwa [← hreports])
  rw [← hreports, List.nil_append] at hs
  rw [← hreports, List.length_nil, Nat.zero_add] at hpc
  rw [← hreports, show start.twcc.pktDeltas = [] by rw [hstart]; exact hfresh.deltas,
    List.nil_append] at hdeltas
  refine ⟨s, runs, symbol, count, hstart ▸ hloop, hs, hpc, hdeltas, ?_, ?_⟩
  · rw [hframe, ← hsn, hstart]
    rfl
  · rw [hframe, hfirst, ← hreftime, hstart]

theorem recvEncode_runs {chunk : RtcpTWCCChunk} {twcc : RecvTwccFeedback} {buf : OutBuffer}
    (hchunk : chunk.Unfilled) (hfresh : twcc.Fresh) (hbuf : buf.require kMaxUDPDataSize = true)
    (hdelta : ∀ r ∈ twcc.reports, Representable r.delta)
    (hlen : (symbolsOf twcc.reports).length ≤ 512) (hruns : RunsOnly 0 0 (symbolsOf twcc.reports)) :
    ∃ packed runs len pad msg twcc' buf',
      twccRecvEncode chunk twcc buf = (yangOk, twcc', buf') ∧ buf'.bytes = buf.bytes ++ msg ∧
      MadeOfRuns twcc packed runs len pad msg := by
  have hleft : 1472 ≤ (buf.size : Int) - buf.pos := by
    simp only [OutBuffer.require, Bool.and_eq_true, decide_eq_true_eq] at hbuf
    exact hbuf.2
  obtain ⟨s, runs, symbol, count, hloop, hs, hpc, hdeltas, hbase, hreftime⟩ :=
    encodeLoop_fresh hchunk hfresh hleft hdelta hlen hruns
  have hne : symbolsOf twcc.reports ≠ [] := by
    obtain ⟨first, rest, hlist, -⟩ := list_some hfresh.some
    rw [RecvTwccFeedback.reports, hlist, reports, symbolsOf_cons]
    simp
  obtain ⟨hpkt, hcount⟩ := hs.length hlen
  obtain ⟨all, hall, hsymbols, hwords, hsize, hrem⟩ := hs.remaining hne (by omega)
  obtain ⟨packed, hpacked⟩ : ∃ packed, packed = RecvTwccFeedback.insertChunks
    { s.twcc with nextBaseSn := 0 } [runWord (symbol, count)] := ⟨_, rfl⟩
  have hchucks : packed.encodedChucks = all.map runWord := by
    rw [hpacked]
    exact hwords
  have hlong : packed.pktLen = 20 + 2 * all.length + deltaBytes (symbolsOf twcc.reports) := by
    have hlength := congrArg List.length hwords
    have hpkt := hs.pktLen
    rw [hpacked]
    simp only [RecvTwccFeedback.insertChunks, List.length_append, List.length_map,
      List.length_singleton, kTwccFbChunkBytes, kTwccFbPktHeaderSize] at hlength hpkt ⊢
    omega
  obtain ⟨b0, b1, len, tail, pktLen, buf', hpacket, hbytes, hlen', htail⟩ :=
    encodePacket_eq packed s.packetCount
      (show buf.require 8 = true by simp [OutBuffer.require]; omega)
  have hpktDeltas : packed.pktDeltas = twcc.reports.map Report.word := by
    rw [hpacked]
    exact hdeltas
  rw [hpktDeltas] at htail
  rw [hpc, htail] at hbytes
  have hcode : twccRecvEncode chunk twcc buf = twccEncodePacket packed s.packetCount buf := by
    unfold twccRecvEncode
    rw [if_neg (by simp [hbuf]), hloop]
    dsimp only
    rw [if_neg (not_not.mpr rfl), if_pos hsize, hrem]
    dsimp only
    rw [if_neg (not_not.mpr rfl), ← hpacked]
  refine ⟨packed, all, len, _, _, _, buf', hcode.trans hpacket, hbytes, ⟨b0, b1, rfl⟩, hall,
    hsymbols, hchucks, ?_, ?_, ?_, ?_⟩
  · rw [hpacked]
    exact hbase
  · rw [hpacked]
    exact hreftime
  · omega
  · have hshort : packed.pktLen < 2000 := by
      rw [hpacked]
      simp only [RecvTwccFeedback.insertChunks, List.length_singleton, kTwccFbChunkBytes]
      omega
    omega

end MetaRtc
