import Mathlib.Data.List.Nodup
import MetaRtc.Rtcp.Runs

/-! # Feedback from one side to the other

What is encoded of the numbers received, and what the sender's side makes of it. -/
namespace MetaRtc

open Bytes Loop

/-- The numbers and times that the decoding of some reports puts down, from a number and a time on.
The ones lost are put down with a time of -1. -/
def marks : Nat → Int → List Report → List (Nat × Int)
  | _, _, [] => []
  | next, time, r :: rs =>
    let told := Int.bmod (time + r.delta * kTwccFbDeltaUnit) (2 ^ 32)
    (List.range r.gap).map (fun k => ((next + k) % 65536, -1)) ++
      ((next + r.gap) % 65536, told) :: marks ((next + r.gap + 1) % 65536) told rs

def tell (twcc : TwccSession) (told : List (Nat × Int)) : TwccSession :=
  told.foldl (fun twcc mark => insertTwccRemote twcc mark.1 mark.2) twcc

/-- The byte of a small delta is read with a sign, and the smallest delta stands for none. -/
def ReadsBack (delta : Int) : Prop :=
  Representable delta ∧ delta ≠ int16Min ∧ ¬ (127 < delta ∧ delta ≤ 255)

instance (delta : Int) : Decidable (ReadsBack delta) := by
  unfold ReadsBack
  exact inferInstance

section Words

variable {runs : List (Nat × Nat)}

theorem runWord_statuses {run : Nat × Nat} (h : run.1 < 3 ∧ 0 < run.2 ∧ run.2 < 8192)
    (remaining : Nat) : chunkStatuses (runWord run) remaining = runSymbols run ∧
      countDown (runWord run) remaining = (remaining + 65536 - run.2) % 65536 := by
  obtain ⟨hsymbol, -, hcount⟩ := h
  have h15 : (runWord run).testBit 15 = false :=
    Nat.testBit_lt_two_pow (by unfold runWord; omega)
  have hrun : isTwccRunLen (runWord run) = true := by
    unfold isTwccRunLen
    rw [h15]
    rfl
  have hlow : runWord run % 0x2000 = run.2 := by
    unfold runWord
    omega
  have hhigh : runWord run >>> 13 &&& 3 = run.1 := by
    rw [Nat.and_two_pow_sub_one_eq_mod _ 2, Nat.shiftRight_eq_div_pow]
    unfold runWord
    omega
  unfold countDown chunkStatuses chunkCount
  rw [if_pos hrun, if_pos hrun, hlow, hhigh]
  exact ⟨rfl, rfl⟩

/-- The runs of a message announce their own symbols. -/
theorem announced_runs (hruns : ∀ run ∈ runs, run.1 < 3 ∧ 0 < run.2 ∧ run.2 < 8192)
    (words : List Nat) (hlen : (runs.flatMap runSymbols).length < 65536) :
    announced (runs.map runWord ++ words) (runs.flatMap runSymbols).length =
      some (runs.length, deltaBytes (runs.flatMap runSymbols)) := by
  induction runs with
  | nil => cases words <;> rfl
  | cons run runs ih =>
    have hrun := hruns run List.mem_cons_self
    rw [List.flatMap_cons, List.length_append] at hlen ⊢
    have hsize : (runSymbols run).length = run.2 := List.length_replicate
    obtain ⟨hstatuses, hdown⟩ :=
      runWord_statuses hrun ((runSymbols run).length + (runs.flatMap runSymbols).length)
    have hrest : countDown (runWord run) ((runSymbols run).length +
        (runs.flatMap runSymbols).length) = (runs.flatMap runSymbols).length := by
      rw [hdown]
      omega
    rw [List.map_cons, List.cons_append, announced, if_neg (by omega), hrest, hstatuses,
      ih (fun r hr => hruns r (List.mem_cons_of_mem _ hr)) (by omega), deltaBytes_append]
    rfl

theorem decodeStatuses_pchunk (statuses : List Nat) (s : TwccDecoding) (pchunk : YangBuffer) :
    statuses.foldl twccDecodeStatus { s with pchunk } =
      { statuses.foldl twccDecodeStatus s with pchunk } := by
  induction statuses generalizing s with
  | nil => rfl
  | cons status statuses ih => exact ih (twccDecodeStatus s status)

/-- The second loop goes over the symbols of the runs. -/
theorem decode_runs {s : TwccDecoding} {words : List Nat}
    (hruns : ∀ run ∈ runs, run.1 < 3 ∧ 0 < run.2 ∧ run.2 < 8192)
    (hahead : Ahead s.pchunk (runs.map runWord ++ words)) (hcount : s.remainingPackets < 65536)
    (hlen : s.remainingPackets = (runs.flatMap runSymbols).length) :
    run twccDecodePass (runs.length + 1) s =
      some ((runs.flatMap runSymbols).foldl twccDecodeStatus
        { s with pchunk := s.pchunk.take (2 * runs.length) }) := by
  induction runs generalizing s with
  | nil =>
    have hzero : s.remainingPackets = 0 := hlen
    have hdone : twccDecodePass s = .done s := by simp [twccDecodePass, hzero]
    exact (run_done hdone 0).trans (by simp)
  | cons r runs ih =>
    have hr := hruns r List.mem_cons_self
    have hsize : (runSymbols r).length = r.2 := List.length_replicate
    rw [List.flatMap_cons, List.length_append] at hlen
    rw [List.map_cons, List.cons_append] at hahead
    obtain ⟨hstatuses, -⟩ := runWord_statuses hr s.remainingPackets
    let t := (runSymbols r).foldl twccDecodeStatus { s with pchunk := s.pchunk.take 2 }
    have hpass : twccDecodePass s = .next t := by
      simp [twccDecodePass, show s.remainingPackets > 0 by omega, hahead.first, hstatuses, t]
    obtain ⟨-, hchunk, hleft⟩ := decodeStatuses (runSymbols r)
      { s with pchunk := s.pchunk.take 2 } hcount
    have htchunk : t.pchunk = s.pchunk.take 2 := hchunk
    have htleft : t.remainingPackets = (runs.flatMap runSymbols).length := by
      refine hleft.trans ?_
      show (s.remainingPackets + 65535 * (runSymbols r).length) % 65536 = _
      omega
    have htbelow : t.remainingPackets < 65536 := by omega
    rw [List.length_cons, run_next hpass, ih (fun r hr => hruns r (List.mem_cons_of_mem _ hr))
      (by rw [htchunk]; exact hahead.rest) htbelow htleft, List.flatMap_cons, List.foldl_append,
      htchunk, YangBuffer.take_take, Nat.mul_succ, Nat.add_comm (2 * runs.length)]
    simp only [t, decodeStatuses_pchunk]

end Words

section Deltas

theorem tell_append (twcc : TwccSession) (xs ys : List (Nat × Int)) :
    tell twcc (xs ++ ys) = tell (tell twcc xs) ys := List.foldl_append

theorem deltaOctets_length {delta : Int} (h : Representable delta) :
    (deltaOctets (delta % 65536).toNat).length = recvDeltaSize delta := by
  unfold Representable at h
  unfold deltaOctets recvDeltaSize
  by_cases hone : 0 ≤ delta ∧ delta ≤ 0xff
  · rw [if_pos hone, if_pos (by omega)]
    rfl
  · rw [if_neg hone, if_neg (by omega), beBytes_length]

theorem octets_length {rs : List Report} (h : ∀ r ∈ rs, Representable r.delta) :
    ((rs.map Report.word).flatMap deltaOctets).length = deltaBytes (symbolsOf rs) := by
  induction rs with
  | nil => rfl
  | cons r rs ih =>
    have hlost : deltaBytes (List.replicate r.gap 0) = 0 := by
      simp [deltaBytes, statusBytes]
    have hone : deltaBytes (recvDeltaSize r.delta :: symbolsOf rs) =
        recvDeltaSize r.delta + deltaBytes (symbolsOf rs) := by
      simp [deltaBytes, statusBytes_recvDeltaSize]
    rw [List.map_cons, List.flatMap_cons, List.length_append,
      ih fun r hr => h r (List.mem_cons_of_mem _ hr), symbolsOf_cons, deltaBytes_append, hlost, hone,
      Report.word, deltaOctets_length (h r List.mem_cons_self), Nat.zero_add]

/-- A delta is read as it was written. -/
theorem readRecvDelta_octets {delta : Int} (h : ReadsBack delta) {buf : YangBuffer} {n : Nat}
    {tail : List UInt8}
    (hbytes : buf.data.slice buf.head n = deltaOctets (delta % 65536).toNat ++ tail) :
    (readRecvDelta buf (recvDeltaSize delta)).1 = delta := by
  obtain ⟨hfirst, -⟩ := Mem.slice_parts hbytes
  obtain ⟨hrep, hmin, hsmall⟩ := h
  unfold Representable at hrep
  unfold int16Min at hmin
  unfold deltaOctets at hfirst
  unfold readRecvDelta recvDeltaSize
  by_cases hone : 0 ≤ delta ∧ delta ≤ 0xff
  · have hoctet : (delta % 65536).toNat ≤ 0xff := by omega
    rw [if_pos hoctet] at hfirst
    have hbe : buf.data.be buf.head 1 = (delta % 65536).toNat % 256 ^ 1 := by
      refine Mem.be_of_slice (hfirst.trans ?_)
      simp [beBytes]
    rw [if_pos hone, if_pos rfl]
    dsimp only [YangBuffer.read1bytes, YangBuffer.readNum]
    rw [hbe, Int.bmod_def]
    split <;> omega
  · have hoctets : ¬ (delta % 65536).toNat ≤ 0xff := by omega
    rw [if_neg hoctets] at hfirst
    rw [beBytes_length] at hfirst
    have hbe := Mem.be_of_slice hfirst
    rw [if_neg hone, if_neg (by decide), if_pos rfl]
    dsimp only [YangBuffer.read2bytes, YangBuffer.readNum]
    rw [hbe, Int.bmod_def]
    split <;> omega

/-- Statuses of nothing put down a time of -1 and read no delta. -/
theorem decode_lost (n : Nat) {s : TwccDecoding} (hsn : s.packetSn < 65536) :
    ((List.replicate n 0).foldl twccDecodeStatus s).twcc =
        tell s.twcc ((List.range n).map fun k => ((s.packetSn + k) % 65536, -1)) ∧
      ((List.replicate n 0).foldl twccDecodeStatus s).buf = s.buf ∧
      ((List.replicate n 0).foldl twccDecodeStatus s).packetSn = (s.packetSn + n) % 65536 ∧
      ((List.replicate n 0).foldl twccDecodeStatus s).referenceTime = s.referenceTime := by
  induction n with
  | zero => exact ⟨rfl, rfl, (Nat.mod_eq_of_lt hsn).symm, rfl⟩
  | succ n ih =>
    obtain ⟨htwcc, hbuf, hnext, htime⟩ := ih
    rw [List.replicate_succ', List.foldl_append]
    refine ⟨?_, hbuf, ?_, htime⟩
    · show insertTwccRemote _ _ (-1) = _
      rw [htwcc, hnext, List.range_succ, List.map_append, tell_append]
      rfl
    · show (_ + 1) % 65536 = _
      rw [hnext]
      omega

/-- A status with a delta moves the time on and puts it down. -/
theorem decode_received {delta : Int} (h : ReadsBack delta) {s : TwccDecoding} {n : Nat}
    {tail : List UInt8}
    (hbytes : s.buf.data.slice s.buf.head n = deltaOctets (delta % 65536).toNat ++ tail) :
    (twccDecodeStatus s (recvDeltaSize delta)).referenceTime =
        Int.bmod (s.referenceTime + delta * kTwccFbDeltaUnit) (2 ^ 32) ∧
      (twccDecodeStatus s (recvDeltaSize delta)).twcc = insertTwccRemote s.twcc s.packetSn
        (Int.bmod (s.referenceTime + delta * kTwccFbDeltaUnit) (2 ^ 32)) := by
  have hread := readRecvDelta_octets h hbytes
  have hsome := (recvDeltaSize_pos delta).1
  unfold twccDecodeStatus
  obtain ⟨r, hr⟩ : ∃ r, r = readRecvDelta s.buf (recvDeltaSize delta) := ⟨_, rfl⟩
  rw [← hr] at hread ⊢
  obtain ⟨recvDelta, buf⟩ := r
  obtain rfl : recvDelta = delta := hread
  dsimp only
  rw [if_pos h.2.1, if_neg (by omega)]
  exact ⟨rfl, rfl⟩

/-- The symbols of some reports over their deltas put down the numbers and times of the reports. -/
theorem decode_reports {rs : List Report} (h : ∀ r ∈ rs, ReadsBack r.delta) {s : TwccDecoding}
    {n : Nat} {tail : List UInt8} (hsn : s.packetSn < 65536)
    (hbytes : s.buf.data.slice s.buf.head n =
      (rs.map Report.word).flatMap deltaOctets ++ tail) :
    ((symbolsOf rs).foldl twccDecodeStatus s).twcc =
      tell s.twcc (marks s.packetSn s.referenceTime rs) := by
  induction rs generalizing s n with
  | nil => rfl
  | cons r rs ih =>
    obtain ⟨htwcc, hbuf, hnext, htime⟩ := decode_lost r.gap hsn
    let t := (List.replicate r.gap 0).foldl twccDecodeStatus s
    let u := twccDecodeStatus t (recvDeltaSize r.delta)
    have hr := h r List.mem_cons_self
    rw [List.map_cons, List.flatMap_cons, List.append_assoc] at hbytes
    have htbytes : t.buf.data.slice t.buf.head n = deltaOctets (r.delta % 65536).toNat ++
        ((rs.map Report.word).flatMap deltaOctets ++ tail) := by
      rw [show t.buf = s.buf from hbuf]
      exact hbytes
    have hsize := deltaOctets_length hr.1
    obtain ⟨hutime, hutwcc⟩ := decode_received hr htbytes
    have hubuf : u.buf = t.buf.take (recvDeltaSize r.delta) := by
      rw [decodeStatus_buf, statusBytes_recvDeltaSize]
    have hubytes : u.buf.data.slice u.buf.head
        ((rs.map Report.word).flatMap deltaOctets ++ tail).length =
        (rs.map Report.word).flatMap deltaOctets ++ tail := by
      rw [hubuf]
      exact hsize ▸ (Mem.slice_parts htbytes).2
    have husn : u.packetSn = (s.packetSn + r.gap + 1) % 65536 := by
      show (t.packetSn + 1) % 65536 = _
      rw [show t.packetSn = _ from hnext]
      omega
    rw [symbolsOf_cons, List.foldl_append, List.foldl_cons]
    show ((symbolsOf rs).foldl twccDecodeStatus u).twcc = _
    rw [ih (fun r hr => h r (List.mem_cons_of_mem _ hr)) (by omega) hubytes, marks, tell_append,
      ← htwcc, husn, show u.referenceTime = _ from hutime, show t.referenceTime = _ from htime,
      show u.twcc = _ from hutwcc, show t.packetSn = _ from hnext, show t.referenceTime = _ from htime]
    rfl

end Deltas

section Marks

/-- A time put down for one of arrival: the same but for a multiple of 2^32 and half of the unit of
a delta. The ones put down are even. -/
def Stands (told ts : Int) : Prop :=
  told % 2 = 0 ∧ ∃ j, (told + j * 2 ^ 32 - ts).natAbs ≤ 125

theorem marks_numbers {next : Nat} (hnext : next < 65536) (time : Int) (rs : List Report) :
    (marks next time rs).map Prod.fst =
      (List.range (symbolsOf rs).length).map fun k => (next + k) % 65536 := by
  induction rs generalizing next time with
  | nil => rfl
  | cons r rs ih =>
    rw [marks, symbolsOf_cons, List.map_append, List.map_cons, ih (Nat.mod_lt _ (by decide)),
      List.length_append, List.length_replicate, List.length_cons, List.range_add,
      List.range_succ_eq_map, List.map_append, List.map_map, List.map_map, List.map_cons,
      List.map_map]
    refine congrArg₂ _ rfl (congrArg₂ _ rfl ?_)
    refine List.map_congr_left fun k _ => ?_
    simp only [Function.comp_apply]
    omega

/-- Every number of a list is put down with its time, and nothing else but the lost ones. -/
theorem marks_reports (tss : Nat → Int) {list : List Nat} {next lastSn : Nat} {last time j : Int}
    (hlt : ∀ x ∈ list, x < 65536) (hgap : NoWrapGap list)
    (hhead : ∀ x ∈ list.head?, (next + twccGap lastSn x) % 65536 = x)
    (htime : time + j * 2 ^ 32 = last) (heven : time % 2 = 0) :
    (∀ sn ∈ list, ∃ told, (sn, told) ∈ marks next time (reports tss lastSn last list) ∧
      Stands told (tss (sn &&& 511))) ∧
    ∀ mark ∈ marks next time (reports tss lastSn last list), mark.2 = -1 ∨ mark.1 ∈ list := by
  induction list generalizing next lastSn last time j with
  | nil => exact ⟨fun _ h => (nomatch h), fun _ h => (nomatch h)⟩
  | cons sn rest ih =>
    obtain ⟨delta, hdef⟩ : ∃ delta, delta = quantum (tss (sn &&& 511) - last) := ⟨_, rfl⟩
    obtain ⟨told, htold⟩ : ∃ told, told = Int.bmod (time + delta * kTwccFbDeltaUnit) (2 ^ 32) :=
      ⟨_, rfl⟩
    have hnear := quantum_near (tss (sn &&& 511) - last)
    rw [← hdef] at hnear
    have hunit : kTwccFbDeltaUnit = 250 := rfl
    rw [hunit] at htold hnear
    obtain ⟨j', hj', heven'⟩ : ∃ j', told + j' * 2 ^ 32 = last + delta * 250 ∧ told % 2 = 0 := by
      rw [Int.bmod_def] at htold
      refine ⟨j + (last + delta * 250 - j * 2 ^ 32 - told) / 2 ^ 32, ?_⟩
      split at htold <;> omega
    have hfirst := hhead sn rfl
    have hmarks : marks next time (reports tss lastSn last (sn :: rest)) =
        (List.range (twccGap lastSn sn)).map (fun k => ((next + k) % 65536, -1)) ++
          (sn, told) :: marks ((sn + 1) % 65536) told
            (reports tss sn (last + delta * kTwccFbDeltaUnit) rest) := by
      rw [reports, marks, ← hdef]
      dsimp only
      rw [hfirst, hunit, ← htold, show (next + twccGap lastSn sn + 1) % 65536 = (sn + 1) % 65536 by
        omega]
    have hnext : ∀ x ∈ rest.head?, ((sn + 1) % 65536 + twccGap sn x) % 65536 = x := by
      intro x hx
      obtain ⟨rest', rfl⟩ := List.head?_eq_some_iff.mp hx
      have hfollows := gap_follows (List.isChain_cons_cons.mp hgap).1 (hlt x (by simp))
      omega
    obtain ⟨hall, honly⟩ := ih
      (fun x hx => hlt x (List.mem_cons_of_mem _ hx)) hgap.tail hnext
      (show told + j' * 2 ^ 32 = last + delta * kTwccFbDeltaUnit by rw [hunit]; exact hj') heven'
    rw [hmarks]
    refine ⟨?_, ?_⟩
    · intro x hx
      rcases List.mem_cons.mp hx with rfl | hx
      · refine ⟨told, List.mem_append_right _ List.mem_cons_self, heven', j', ?_⟩
        omega
      · obtain ⟨t, ht, hstands⟩ := hall x hx
        exact ⟨t, List.mem_append_right _ (List.mem_cons_of_mem _ ht), hstands⟩
    · intro mark hmark
      rcases List.mem_append.mp hmark with hlost | hmark
      · obtain ⟨k, -, rfl⟩ := List.mem_map.mp hlost
        exact .inl rfl
      · rcases List.mem_cons.mp hmark with rfl | hmark
        · exact .inr List.mem_cons_self
        · exact (honly mark hmark).imp_right (List.mem_cons_of_mem _)

theorem tell_other (twcc : TwccSession) {told : List (Nat × Int)} {slot : Nat}
    (h : ∀ mark ∈ told, mark.1 &&& 511 ≠ slot) : (tell twcc told).remoteTs slot =
      twcc.remoteTs slot := by
  induction told generalizing twcc with
  | nil => rfl
  | cons mark told ih =>
    refine (ih _ fun m hm => h m (List.mem_cons_of_mem _ hm)).trans ?_
    exact Function.update_of_ne (h mark List.mem_cons_self).symm _ _

/-- Where the numbers have slots of their own, each is found with its time. -/
theorem tell_told (twcc : TwccSession) {told : List (Nat × Int)}
    (hslots : (told.map fun mark => mark.1 &&& 511).Nodup) {mark : Nat × Int} (h : mark ∈ told) :
    (tell twcc told).remoteTs (mark.1 &&& 511) = mark.2 := by
  induction told generalizing twcc with
  | nil => cases h
  | cons first told ih =>
    rw [List.map_cons, List.nodup_cons] at hslots
    rcases List.mem_cons.mp h with rfl | h
    · have hframe := tell_other (insertTwccRemote twcc mark.1 mark.2) fun m hm heq =>
        hslots.1 (List.mem_map.mpr ⟨m, hm, heq⟩)
      exact hframe.trans (Function.update_self _ _ _)
    · exact ih _ hslots.2 h

theorem slots_nodup {next n : Nat} (h : n ≤ 512) :
    ((List.range n).map fun k => (next + k) % 65536 &&& 511).Nodup := by
  refine List.nodup_range.map_on fun a ha b hb heq => ?_
  have ha := List.mem_range.mp ha
  have hb := List.mem_range.mp hb
  rw [Nat.and_two_pow_sub_one_eq_mod _ 9, Nat.and_two_pow_sub_one_eq_mod _ 9] at heq
  omega

end Marks

/-- How many numbers there are from the first of a record to the last. -/
def RecvTwccFeedback.spanned (twcc : RecvTwccFeedback) : Nat :=
  (twcc.sns.payload (twcc.sns.vsize - 1) + 65536 - twcc.sns.payload 0) % 65536 + 1

/-- Two times of 32 bits are no further apart than the unit of a delta. -/
def InStep (u v : Int) : Prop := (Int.bmod (u - v) (2 ^ 32)).natAbs ≤ 250

/-- From the first number of a record to the last, the ones received are known with their times
behind the time of reference, and the others as lost. -/
def Knows (twcc : RecvTwccFeedback) (reference : Int) (session : TwccSession) : Prop :=
  ∀ k < twcc.spanned,
    let sn := (twcc.sns.payload 0 + k) % 65536
    let told := session.remoteTs (sn &&& 511)
    (sn ∈ twcc.sns.list → told ≠ -1 ∧ InStep (told - reference)
      (twcc.tss (sn &&& 511) - twccReference (twcc.tss (twcc.sns.payload 0 &&& 511)))) ∧
    (sn ∉ twcc.sns.list → told = -1)

/-- What is encoded of a record has the length in its header, and is decoded to what was encoded. -/
def TwccRoundTrips (chunk : RtcpTWCCChunk) (twcc : RecvTwccFeedback) (session : TwccSession)
    (buf : OutBuffer) : Prop :=
  ∀ twcc' buf', twccRecvEncode chunk twcc buf = (yangOk, twcc', buf') →
    let msg := buf'.bytes.drop buf.bytes.length
    4 * ((ofList msg).be 2 2 + 1) = msg.length ∧
    ∃ fuel session',
      twccDecode fuel session (ofList (msg.drop 8)) (msg.length - 8) = some (session', false) ∧
      Knows twcc ((ofList msg).be 16 3 * kTwccFbTimeMultiplier) session'

/-- A record whose numbers have slots of their own, with deltas that are read as they are written
and symbols that fill their chunks as runs. -/
structure ToldInRuns (chunk : RtcpTWCCChunk) (twcc : RecvTwccFeedback) : Prop where
  chunk : chunk.Unfilled
  fresh : twcc.Fresh
  below : ∀ x ∈ twcc.sns.list, x < 65536
  gap : NoWrapGap twcc.sns.list
  slots : symbolCount (twcc.sns.payload 0) twcc.sns.list ≤ 512
  deltas : ∀ r ∈ twcc.reports, ReadsBack r.delta
  runs : RunsOnly 0 0 (symbolsOf twcc.reports)

section RoundTrip

variable {chunk : RtcpTWCCChunk} {twcc : RecvTwccFeedback} {session : TwccSession}

theorem twccGap_self (sn : Nat) : twccGap sn sn = 0 := if_neg (by omega)

/-- The symbols of a list end at its last number. -/
theorem symbolCount_last (xs : List Nat) (x next lastSn : Nat) (hlt : ∀ y ∈ xs ++ [x], y < 65536)
    (hgap : NoWrapGap (xs ++ [x]))
    (hhead : ∀ y ∈ (xs ++ [x]).head?, (next + twccGap lastSn y) % 65536 = y) :
    (next + symbolCount lastSn (xs ++ [x])) % 65536 = (x + 1) % 65536 := by
  induction xs generalizing next lastSn with
  | nil =>
    have hx := hhead x rfl
    simp only [List.nil_append, symbolCount]
    omega
  | cons y ys ih =>
    have hy := hhead y rfl
    rw [List.cons_append] at hlt hgap ⊢
    have hnext : ∀ z ∈ (ys ++ [x]).head?, (y + 1 + twccGap y z) % 65536 = z := by
      intro z hz
      obtain ⟨rest, hrest⟩ := List.head?_eq_some_iff.mp hz
      rw [hrest] at hlt hgap
      exact gap_follows (List.isChain_cons_cons.mp hgap).1 (hlt z (by simp))
    have hrest := ih (y + 1) y (fun z hz => hlt z (List.mem_cons_of_mem _ hz)) hgap.tail hnext
    simp only [symbolCount]
    omega

theorem ToldInRuns.spanned (h : ToldInRuns chunk twcc) :
    twcc.spanned = (symbolsOf twcc.reports).length := by
  obtain ⟨n, hn⟩ := Nat.exists_eq_succ_of_ne_zero h.fresh.some
  have hlist : twcc.sns.list = (List.range n).map twcc.sns.payload ++ [twcc.sns.payload n] := by
    rw [Uint16Sort.list, hn, List.range_succ, List.map_append]
    rfl
  have hcount : (symbolsOf twcc.reports).length = symbolCount (twcc.sns.payload 0) twcc.sns.list :=
    symbolsOf_length _ _ _ _
  have hslots := h.slots
  have hfirst : twcc.sns.list.head? = some (twcc.sns.payload 0) := by
    simp [Uint16Sort.list, hn, List.range_succ_eq_map]
  have hbelow : twcc.sns.payload 0 < 65536 := h.below _ (List.mem_of_mem_head? hfirst)
  have hlast : twcc.sns.payload n < 65536 := h.below _ (by simp [hlist])
  have hend := symbolCount_last ((List.range n).map twcc.sns.payload) (twcc.sns.payload n)
    (twcc.sns.payload 0) (twcc.sns.payload 0) (hlist ▸ h.below) (hlist ▸ h.gap) (by
      rw [← hlist, hfirst]
      intro y hy
      obtain rfl := Option.some.inj hy
      rw [twccGap_self]
      omega)
  rw [← hlist, ← hcount] at hend
  have hpos : 0 < (symbolsOf twcc.reports).length := by
    rw [hcount, hlist]
    cases (List.range n).map twcc.sns.payload <;> simp [symbolCount] 
  unfold RecvTwccFeedback.spanned
  rw [hn, Nat.succ_sub_one]
  omega

/-- Where each number was put down with its time, they are known. -/
theorem ToldInRuns.knows (h : ToldInRuns chunk twcc) {reference j : Int}
    (href : reference + j * 2 ^ 32 = twccReference (twcc.tss (twcc.sns.payload 0 &&& 511)))
    (heven : reference % 2 = 0) :
    Knows twcc reference (tell session (marks (twcc.sns.payload 0)
      (Int.bmod reference (2 ^ 32)) twcc.reports)) := by
  obtain ⟨first, rest, hlist, hfirst⟩ := list_some h.fresh.some
  have hbelow : first < 65536 := h.below first (by simp [hlist])
  have hhead : ∀ x ∈ twcc.sns.list.head?,
      (twcc.sns.payload 0 + twccGap (twcc.sns.payload 0) x) % 65536 = x := by
    intro x hx
    rw [hlist] at hx
    obtain rfl := Option.some.inj hx
    rw [hfirst, twccGap_self]
    omega
  obtain ⟨time, htime⟩ : ∃ time, time = Int.bmod reference (2 ^ 32) := ⟨_, rfl⟩
  obtain ⟨j', hj', heven'⟩ : ∃ j', time + j' * 2 ^ 32 =
      twccReference (twcc.tss (twcc.sns.payload 0 &&& 511)) ∧ time % 2 = 0 := by
    rw [Int.bmod_def] at htime
    refine ⟨j + (reference - time) / 2 ^ 32, ?_⟩
    split at htime <;> omega
  obtain ⟨hall, honly⟩ := marks_reports twcc.tss h.below h.gap hhead hj' heven'
  obtain ⟨told, htold⟩ : ∃ told, told = marks (twcc.sns.payload 0) time twcc.reports := ⟨_, rfl⟩
  rw [show reports twcc.tss _ _ _ = twcc.reports from rfl, ← htold] at hall honly
  have hnumbers : told.map Prod.fst = (List.range twcc.spanned).map fun k =>
      (twcc.sns.payload 0 + k) % 65536 := by
    rw [htold, h.spanned, marks_numbers (by omega)]
  have hslots : (told.map fun mark => mark.1 &&& 511).Nodup := by
    have hmap : (told.map fun mark => mark.1 &&& 511) = (told.map Prod.fst).map (· &&& 511) := by
      rw [List.map_map]
      rfl
    rw [hmap, hnumbers, List.map_map]
    refine slots_nodup ?_
    rw [h.spanned]
    exact (symbolsOf_length _ _ _ _).trans_le h.slots
  rw [← htime, ← htold]
  intro k hk
  dsimp only
  obtain ⟨sn, hsn⟩ : ∃ sn, sn = (twcc.sns.payload 0 + k) % 65536 := ⟨_, rfl⟩
  rw [← hsn]
  refine ⟨fun hmem => ?_, fun hno => ?_⟩
  · obtain ⟨v, hv, heven, i, hnear⟩ := hall sn hmem
    rw [tell_told session hslots hv]
    refine ⟨by dsimp only; omega, ?_⟩
    unfold InStep
    dsimp only
    rw [Int.bmod_def]
    split <;> omega
  · have hput : sn ∈ told.map Prod.fst := by
      rw [hnumbers, hsn]
      exact List.mem_map_of_mem (List.mem_range.mpr hk)
    obtain ⟨mark, hmark, rfl⟩ := List.mem_map.mp hput
    exact (tell_told session hslots hmark).trans ((honly mark hmark).resolve_right hno)

/-- What is read of a message made of runs, from its header and from the payload behind it and its
source. -/
theorem MadeOfRuns.parts {packed : RecvTwccFeedback} {runs : List (Nat × Nat)} {len pad : Nat}
    {msg : List UInt8} (h : MadeOfRuns twcc packed runs len pad msg) :
    (ofList msg).be 2 2 = len ∧ (ofList msg).be 16 3 = packed.referenceTime.toNat % 2 ^ 24 ∧
    msg.length = 20 + 2 * runs.length +
      ((twcc.reports.map Report.word).flatMap deltaOctets).length + pad ∧
    (ofList (msg.drop 8)).be 4 2 = packed.baseSn % 65536 ∧
    (ofList (msg.drop 8)).be 6 2 = (symbolsOf twcc.reports).length % 65536 ∧
    (ofList (msg.drop 8)).be 8 3 = packed.referenceTime.toNat % 2 ^ 24 ∧
    (ofList (msg.drop 8)).slice 12 (msg.length - 20) = (runs.map runWord).flatMap (beBytes 2) ++
      ((twcc.reports.map Report.word).flatMap deltaOctets ++ List.replicate pad 0) := by
  obtain ⟨b0, b1, hmsg⟩ := h.bytes
  obtain ⟨rest, hrest⟩ : ∃ rest, rest = beBytes 4 packed.mediaSsrc ++ (beBytes 2 packed.baseSn ++
      (beBytes 2 (symbolsOf twcc.reports).length ++ (beBytes 3 packed.referenceTime.toNat ++
        ([UInt8.ofNat packed.fbPktCount] ++ ((runs.map runWord).flatMap (beBytes 2) ++
          ((twcc.reports.map Report.word).flatMap deltaOctets ++ List.replicate pad 0)))))) :=
    ⟨_, rfl⟩
  have hwhole : msg = [b0, b1] ++ (beBytes 2 len ++ (beBytes 4 packed.ssrc ++ rest)) := by
    rw [hmsg, feedbackBody, h.words, hrest]
  have hdrop : msg.drop 8 = rest := by
    rw [hwhole]
    rfl
  have hlen : msg.length = rest.length + 8 := by
    rw [hwhole]
    simp only [List.length_append, beBytes_length, List.length_cons, List.length_nil]
    omega
  have hrestlen : rest.length = 12 + 2 * runs.length +
      ((twcc.reports.map Report.word).flatMap deltaOctets).length + pad := by
    rw [hrest]
    simp only [List.length_append, beBytes_length, words_length, List.length_map, List.length_cons,
      List.length_nil, List.length_replicate]
    omega
  have hslice := slice_ofList msg
  nth_rewrite 3 [hwhole] at hslice
  rw [hrest] at hslice
  obtain ⟨-, hslice⟩ := Mem.slice_parts hslice
  obtain ⟨hheader, hslice⟩ := Mem.slice_parts hslice
  obtain ⟨-, hslice⟩ := Mem.slice_parts hslice
  obtain ⟨-, hslice⟩ := Mem.slice_parts hslice
  obtain ⟨-, hslice⟩ := Mem.slice_parts hslice
  obtain ⟨-, hslice⟩ := Mem.slice_parts hslice
  obtain ⟨htime, -⟩ := Mem.slice_parts hslice
  have hbody := slice_ofList rest
  nth_rewrite 3 [hrest] at hbody
  obtain ⟨-, hbody⟩ := Mem.slice_parts hbody
  obtain ⟨hbase, hbody⟩ := Mem.slice_parts hbody
  obtain ⟨hcount, hbody⟩ := Mem.slice_parts hbody
  obtain ⟨href, hbody⟩ := Mem.slice_parts hbody
  obtain ⟨-, hbody⟩ := Mem.slice_parts hbody
  simp only [beBytes_length, List.length_cons, List.length_nil, Nat.zero_add, Nat.reduceAdd]
    at hheader htime hbase hcount href hbody
  have hbodylen := congrArg List.length hbody
  rw [Mem.slice_length] at hbodylen
  refine ⟨(Mem.be_of_slice hheader).trans (Nat.mod_eq_of_lt h.short), Mem.be_of_slice htime,
    by omega, ?_⟩
  rw [hdrop]
  refine ⟨Mem.be_of_slice hbase, Mem.be_of_slice hcount, Mem.be_of_slice href, ?_⟩
  have hn : msg.length - 20 = ((runs.map runWord).flatMap (beBytes 2) ++
      ((twcc.reports.map Report.word).flatMap deltaOctets ++ List.replicate pad 0)).length := by
    simp only [List.length_append, words_length, List.length_map, List.length_replicate]
    omega
  rw [hn]
  exact hbody

theorem payloadWords_slice {payload : Mem} (payloadLen : Nat) {n : Nat} {words : List Nat}
    {tail : List UInt8} (hwords : ∀ w ∈ words, w < 65536) (hlen : 12 + 2 * words.length ≤ payloadLen)
    (h : payload.slice 12 n = words.flatMap (beBytes 2) ++ tail) :
    ∃ more, payloadWords payload payloadLen = words ++ more := by
  obtain ⟨k, hk⟩ := Nat.exists_eq_add_of_le
    (show words.length ≤ (payloadLen - 12) / 2 by omega)
  have hsame : words.map (· % 65536) = words :=
    (List.map_congr_left fun w hw => Nat.mod_eq_of_lt (hwords w hw)).trans (List.map_id _)
  unfold payloadWords
  rw [hk, List.range_add, List.map_append, read_words h, hsame]
  exact ⟨_, rfl⟩

theorem runWords_lt {runs : List (Nat × Nat)}
    (h : ∀ run ∈ runs, run.1 < 3 ∧ 0 < run.2 ∧ run.2 < 8192) : ∀ w ∈ runs.map runWord, w < 65536 := by
  intro w hw
  obtain ⟨run, hrun, rfl⟩ := List.mem_map.mp hw
  have hvalid := h run hrun
  unfold runWord
  omega

/-- A message made of runs is decoded to what it was made of. -/
theorem ToldInRuns.decodes (h : ToldInRuns chunk twcc) {packed : RecvTwccFeedback}
    {runs : List (Nat × Nat)} {len pad : Nat} {msg : List UInt8}
    (hmsg : MadeOfRuns twcc packed runs len pad msg) :
    4 * ((ofList msg).be 2 2 + 1) = msg.length ∧
    ∃ fuel session',
      twccDecode fuel session (ofList (msg.drop 8)) (msg.length - 8) = some (session', false) ∧
      Knows twcc ((ofList msg).be 16 3 * kTwccFbTimeMultiplier) session' := by
  obtain ⟨hlen, htime, hlong, hbase, hcount, href, hbody⟩ := hmsg.parts
  have hpadded := hmsg.padded
  have hoctets := octets_length fun r hr => (h.deltas r hr).1
  have hsymbols : (symbolsOf twcc.reports).length ≤ 512 :=
    (symbolsOf_length _ _ _ _).trans_le h.slots
  have hbelow : twcc.sns.payload 0 < 65536 := by
    obtain ⟨n, hn⟩ := Nat.exists_eq_succ_of_ne_zero h.fresh.some
    exact h.below _ (by simp [Uint16Sort.list, hn, List.range_succ_eq_map])
  refine ⟨by omega, ?_⟩
  obtain ⟨payload, hpayload⟩ : ∃ payload, payload = ofList (msg.drop 8) := ⟨_, rfl⟩
  obtain ⟨payloadLen, hpayloadLen⟩ : ∃ n, n = msg.length - 8 := ⟨_, rfl⟩
  rw [← hpayload] at hbase hcount href hbody ⊢
  rw [← hpayloadLen]
  rw [Nat.mod_eq_of_lt (by omega), ← hmsg.symbols] at hcount
  rw [hmsg.baseSn, Nat.mod_eq_of_lt hbelow] at hbase
  obtain ⟨words, hwords⟩ := payloadWords_slice payloadLen (runWords_lt hmsg.valid)
    (by rw [List.length_map]; omega) hbody
  have hahead := body_ahead payload payloadLen
  rw [hwords] at hahead
  have hannounced := announced_runs hmsg.valid words (by rw [hmsg.symbols]; omega)
  rw [← hcount] at hannounced
  have hskip := skip_ends hahead hannounced
  obtain ⟨s, hs⟩ : ∃ s, s = deltaLoop session payload payloadLen
    ((bodyCursor payload payloadLen).take (2 * runs.length)) := ⟨_, rfl⟩
  have hscount : s.remainingPackets = payload.be 6 2 := by rw [hs]; rfl
  have hsahead : Ahead s.pchunk (runs.map runWord ++ words) := by rw [hs]; exact hahead
  obtain ⟨t, hdecode, hchunk, hbuf⟩ := decode_ends hsahead (hscount ▸ be_lt payload 6)
    (hscount ▸ hannounced)
  have hfold := decode_runs hmsg.valid hsahead (hscount ▸ be_lt payload 6) (hscount.trans hcount)
  have ht := run_unique hdecode hfold
  have hdeltas := (Mem.slice_parts hbody).2
  rw [words_length, List.length_map] at hdeltas
  refine ⟨runs.length + 1, t.twcc, ?_, ?_⟩
  · have hhead : 12 ≤ payloadLen := by omega
    have hchunkInside : ((bodyCursor payload payloadLen).take (2 * runs.length)).fault = false :=
      (bodyTake_fault _ hhead).mpr (by omega)
    have hbufInside : (((bodyCursor payload payloadLen).take (2 * runs.length)).take
        (deltaBytes (runs.flatMap runSymbols))).fault = false := by
      rw [YangBuffer.take_take, hmsg.symbols]
      exact (bodyTake_fault _ hhead).mpr (by omega)
    rw [twccDecode_eq, hskip, Option.bind_some, ← hs, hdecode, Option.map_some, hchunk, hbuf, hs]
    show some (_, ((bodyCursor payload payloadLen).take (2 * runs.length)).fault ||
      (((bodyCursor payload payloadLen).take (2 * runs.length)).take
        (deltaBytes (runs.flatMap runSymbols))).fault) = _
    rw [hchunkInside, hbufInside]
    rfl
  · have hsn : s.packetSn = twcc.sns.payload 0 := by
      rw [hs]
      exact hbase
    have hstime : s.referenceTime =
        Int.bmod ((ofList msg).be 16 3 * kTwccFbTimeMultiplier) (2 ^ 32) := by
      rw [hs, htime, ← href, deltaLoop]
    have hold : t.twcc = tell session (marks (twcc.sns.payload 0) s.referenceTime twcc.reports) := by
      have htwcc := decode_reports h.deltas (s := s) (by omega) (by rw [hs]; exact hdeltas)
      rw [hsn] at htwcc
      rw [ht, decodeStatuses_pchunk, hmsg.symbols]
      exact htwcc.trans (by rw [hs]; rfl)
    have hmult : kTwccFbTimeMultiplier = 64000 := by decide
    rw [hold, hstime]
    refine h.knows (j := twcc.tss (twcc.sns.payload 0 &&& 511) / 1073741824000 * 250) ?_ ?_
    · have hpos := h.fresh.time
      rw [htime, hmsg.referenceTime, twccReference, hmult]
      omega
    · rw [hmult]
      omega

/-- A record that can be told of in runs is told of as it is, whatever is known before. -/
theorem feedback_round_trip (chunk : RtcpTWCCChunk) (twcc : RecvTwccFeedback)
    (session : TwccSession) (buf : OutBuffer) (h : ToldInRuns chunk twcc) :
    TwccRoundTrips chunk twcc session buf := by
  intro twcc' buf' hencode
  have hbuf : buf.require kMaxUDPDataSize = true := by
    by_contra hshort
    unfold twccRecvEncode at hencode
    rw [if_pos (by simpa using hshort)] at hencode
    have herr : errorRtcRtcp = yangOk := congrArg Prod.fst hencode
    exact absurd herr (by decide)
  obtain ⟨packed, runs, len, pad, msg, twcc'', buf'', hencode', hbytes, hmsg⟩ := recvEncode_runs
    h.chunk h.fresh hbuf (fun r hr => (h.deltas r hr).1)
    ((symbolsOf_length _ _ _ _).trans_le h.slots) h.runs
  rw [hencode] at hencode'
  obtain ⟨-, rfl⟩ := Prod.mk.inj (Prod.mk.inj hencode').2
  dsimp only
  rw [hbytes, List.drop_left]
  exact h.decodes hmsg

/-- Fourteen numbers over the wrap, one each millisecond, and after fourteen lost ones another. -/
theorem feedback_round_trip_wrap : TwccRoundTrips ⟨fun _ => 0, 0, true, false⟩
    { tss := fun i => ((i + 6) % 512 : Nat) * 1000
      sns := ⟨15, 512, fun i => if i < 14 then (i + 65530) % 65536 else 22, by decide⟩ }
    ⟨0, fun _ => 0⟩ { size := kRtpPacketSize } :=
  feedback_round_trip _ _ _ _ ⟨by decide, ⟨rfl, rfl, rfl, by decide, by decide⟩, by decide,
    by unfold NoWrapGap; decide +kernel, by decide +kernel, by decide +kernel, by decide +kernel⟩

theorem twccDecode_unique {n m : Nat} {payload : Mem} {payloadLen : Nat}
    {r q : TwccSession × Bool} (hn : twccDecode n session payload payloadLen = some r)
    (hm : twccDecode m session payload payloadLen = some q) : r = q := by
  rw [twccDecode_eq] at hn hm
  obtain ⟨buf, hskip, hn⟩ := Option.bind_eq_some_iff.mp hn
  obtain ⟨buf', hskip', hm⟩ := Option.bind_eq_some_iff.mp hm
  obtain rfl := run_unique hskip hskip'
  obtain ⟨s, hs, rfl⟩ := Option.map_eq_some_iff.mp hn
  obtain ⟨s', hs', rfl⟩ := Option.map_eq_some_iff.mp hm
  rw [run_unique hs hs']

/-- Numbers 5 and 7 were received, one millisecond apart. What is decoded has 7 as lost. -/
theorem seven_lost : ¬ TwccRoundTrips ⟨fun _ => 0, 0, true, false⟩
    { tss := fun i => if i = 7 then 1000 else 0, sns := ⟨2, 512, fun i => 2 * i + 5, by decide⟩ }
    ⟨0, fun _ => 0⟩ { size := kRtpPacketSize } := by
  intro h
  obtain ⟨r, hr⟩ : ∃ r, r = twccRecvEncode ⟨fun _ => 0, 0, true, false⟩
    { tss := fun i => if i = 7 then 1000 else 0, sns := ⟨2, 512, fun i => 2 * i + 5, by decide⟩ }
    { size := kRtpPacketSize } := ⟨_, rfl⟩
  have hok : r.1 = yangOk := by
    rw [hr]
    decide +kernel
  have hbytes : r.2.2.bytes =
      [143, 205, 0, 5, 0, 0, 0, 0, 0, 0, 0, 0, 0, 5, 0, 3, 0, 0, 0, 0, 209, 0, 0, 4] := by
    rw [hr]
    decide +kernel
  obtain ⟨-, fuel, session, hdecode, hknows⟩ := h r.2.1 r.2.2 (hr ▸ Prod.ext hok rfl)
  rw [hbytes] at hdecode
  obtain ⟨q, hq⟩ : ∃ q, twccDecode 2 ⟨0, fun _ => 0⟩
      (ofList [0, 0, 0, 0, 0, 5, 0, 3, 0, 0, 0, 0, 209, 0, 0, 4]) 16 = some q :=
    Option.isSome_iff_exists.mp (by decide +kernel)
  have hlost : (twccDecode 2 ⟨0, fun _ => 0⟩
      (ofList [0, 0, 0, 0, 0, 5, 0, 3, 0, 0, 0, 0, 209, 0, 0, 4]) 16).map
      (fun q => q.1.remoteTs 7) = some (-1) := by decide +kernel
  rw [hq] at hlost
  obtain rfl := twccDecode_unique hdecode hq
  exact ((hknows 2 (by decide)).1 (by decide)).1 (Option.some.inj hlost)

end RoundTrip

end MetaRtc
