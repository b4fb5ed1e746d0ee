import MetaRtc.Rtcp.Chunks
import MetaRtc.Rtp.Payload

/-! # What a feedback message reports -/
namespace MetaRtc

open Bytes

/-- The numbers from one on whose symbols are not zero. -/
def receivedFrom : Nat → List Nat → List Nat
  | _, [] => []
  | sn, d :: syms =>
    let rest := receivedFrom ((sn + 1) % 65536) syms
    if d = 0 then rest else sn :: rest

/-- The symbols of a message: as many of those of its chunks as it counts. What follows the
chunks is never reached. -/
def feedbackSymbols (msg : List UInt8) : List Nat :=
  let m := ofList msg
  ((List.range ((msg.length - kTwccFbPktHeaderSize) / 2)).flatMap fun i =>
    chunkSymbols (m.be (kTwccFbPktHeaderSize + 2 * i) 2)).take (m.be 14 2)

/-- The numbers a message says have been received. -/
def feedbackNumbers (msg : List UInt8) : List Nat :=
  receivedFrom ((ofList msg).be 12 2) (feedbackSymbols msg)

/-- The numbers of a list follow each other without a gap where they wrap. -/
def NoWrapGap (list : List Nat) : Prop := List.IsChain (fun a b => a < b ∨ a = 65535 ∧ b = 0) list

/-- How many symbols report a list, behind the number before it. -/
def symbolCount : Nat → List Nat → Nat
  | _, [] => 0
  | lastSn, sn :: rest => twccGap lastSn sn + 1 + symbolCount sn rest

/-- What the code's chunk holds after it was reset. -/
def RtcpTWCCChunk.Unfilled (chunk : RtcpTWCCChunk) : Prop :=
  chunk.size = 0 ∧ chunk.allSame = true ∧ chunk.hasLargeDelta = false

instance (chunk : RtcpTWCCChunk) : Decidable chunk.Unfilled := by
  unfold RtcpTWCCChunk.Unfilled
  exact inferInstance

/-- The message has room for every number of the list, and each delta is representable. -/
def TakesAll (left : Int) : Nat → List Nat → TwccEncoding → Prop
  | _, [], _ => True
  | i, currentSn :: rest, s =>
    (s.twcc.pktLen : Int) + 2 < left ∧
      let s := s.start i
      let deltaUs := s.deltaUs currentSn
      let gap := twccGap s.lastSn currentSn
      let lost := twccLost gap s
      let size := recvDeltaSize deltaUs
      let (_, twcc, chunk) := twccProcessPktChunk lost.twcc lost.chunk size
      Representable deltaUs ∧
      (∀ k < gap, HasRoom (twccLost k s).twcc (twccLost k s).chunk 0) ∧
      HasRoom lost.twcc lost.chunk size ∧
      TakesAll left (i + 1) rest (lost.received twcc chunk currentSn deltaUs size)

instance decidableTakesAll (left : Int) : ∀ i list s, Decidable (TakesAll left i list s)
  | _, [], _ => isTrue trivial
  | i, currentSn :: rest, s => by
    have := decidableTakesAll left (i + 1) rest
    unfold TakesAll
    exact inferInstance

theorem receivedFrom_append (sn : Nat) (hsn : sn < 65536) (xs ys : List Nat) :
    receivedFrom sn (xs ++ ys) =
      receivedFrom sn xs ++ receivedFrom ((sn + xs.length) % 65536) ys := by
  induction xs generalizing sn with
  | nil => simp [receivedFrom, Nat.mod_eq_of_lt hsn]
  | cons d xs ih =>
    have hpos : ((sn + 1) % 65536 + xs.length) % 65536 = (sn + (xs.length + 1)) % 65536 := by omega
    rw [List.cons_append, receivedFrom, receivedFrom, ih _ (by omega), hpos, List.length_cons]
    split <;> rfl

theorem receivedFrom_lost (sn n : Nat) : receivedFrom sn (List.replicate n 0) = [] := by
  induction n generalizing sn with
  | zero => rfl
  | succ n ih => simpa [List.replicate_succ, receivedFrom] using ih _

/-- From one state of the loop to another these symbols are packed, and nothing else
happens to the record but that its index and its deltas move on. -/
structure Packs (s s' : TwccEncoding) (syms more : List Nat) : Prop where
  packed : Packed s'.twcc.encodedChucks s'.chunk (syms ++ more)
  words : (∀ c ∈ s.twcc.encodedChucks, c < 65536) → ∀ c ∈ s'.twcc.encodedChucks, c < 65536
  frame : s'.twcc = { s.twcc with
    encodedChucks := s'.twcc.encodedChucks
    pktLen := s'.twcc.pktLen
    pktDeltas := s'.twcc.pktDeltas
    newSnsIndex := s'.twcc.newSnsIndex }

theorem Packs.trans {s t u : TwccEncoding} {syms xs ys : List Nat} (h : Packs s t syms xs)
    (h' : Packs t u (syms ++ xs) ys) : Packs s u syms (xs ++ ys) := by
  refine ⟨?_, fun hw => h'.words (h.words hw), ?_⟩
  · rw [← List.append_assoc]
    exact h'.packed
  · rw [h'.frame, h.frame]

theorem Packs.sns {s t : TwccEncoding} {syms more : List Nat} (h : Packs s t syms more) :
    t.twcc.sns = s.twcc.sns := by
  rw [h.frame]

theorem Packs.isSendtwcc {s t : TwccEncoding} {syms more : List Nat} (h : Packs s t syms more) :
    t.twcc.isSendtwcc = s.twcc.isSendtwcc := by
  rw [h.frame]

theorem Packs.baseSn {s t : TwccEncoding} {syms more : List Nat} (h : Packs s t syms more) :
    t.twcc.baseSn = s.twcc.baseSn := by
  rw [h.frame]

theorem start_packs {s : TwccEncoding} {syms : List Nat} (i : Nat)
    (h : Packed s.twcc.encodedChucks s.chunk syms) : Packs s (s.start i) syms [] :=
  ⟨by rwa [List.append_nil], fun h => h, rfl⟩

theorem lost_packs {s : TwccEncoding} {syms : List Nat} {n : Nat}
    (h : Packed s.twcc.encodedChucks s.chunk syms)
    (hroom : ∀ k < n, HasRoom (twccLost k s).twcc (twccLost k s).chunk 0) :
    Packs s (twccLost n s) syms (List.replicate n 0) ∧
      (twccLost n s).packetCount % 65536 = (s.packetCount + n) % 65536 ∧
      (twccLost n s).lastTs = s.lastTs ∧ (twccLost n s).lastSn = s.lastSn ∧
      (twccLost n s).twcc.newSnsIndex = s.twcc.newSnsIndex := by
  induction n generalizing s syms with
  | zero => exact ⟨⟨by simpa [twccLost] using h, fun h => h, rfl⟩, rfl, rfl, rfl, rfl⟩
  | succ n ih =>
    obtain ⟨chucks, chunk', hproc, hwords, hpacked⟩ := h.process (d := 0) (by omega)
      (hroom 0 (by omega))
    let t : TwccEncoding := { s with
      twcc := s.twcc.insertChunks chucks
      chunk := chunk'
      packetCount := (s.packetCount + 1) % 65536 }
    have hstep : ∀ k, twccLost (k + 1) s = twccLost k t := by
      intro k
      rw [twccLost, hproc]
    rw [hstep]
    have hrest : ∀ k < n, HasRoom (twccLost k t).twcc (twccLost k t).chunk 0 := by
      intro k hk
      rw [← hstep]
      exact hroom (k + 1) (by omega)
    obtain ⟨⟨hp, hw, hf⟩, hcount, hts, hsn, hidx⟩ := ih (s := t) hpacked hrest
    refine ⟨⟨?_, ?_, ?_⟩, ?_, hts, hsn, hidx⟩
    · simpa [List.replicate_succ] using hp
    · intro h
      refine hw fun c hc => ?_
      rcases List.mem_append.mp hc with hc | hc
      · exact h c hc
      · exact hwords c hc
    · rw [hf]
      rfl
    · rw [hcount]
      simp only [t]
      omega

/-- The symbol of a number that is received. -/
theorem received_packs {s : TwccEncoding} {syms : List Nat} {d : Nat} (hd : d < 3)
    (h : Packed s.twcc.encodedChucks s.chunk syms) (hroom : HasRoom s.twcc s.chunk d) :
    ∃ twcc chunk, twccProcessPktChunk s.twcc s.chunk d = (yangOk, twcc, chunk) ∧
      ∀ sn deltaUs, Packs s (s.received twcc chunk sn deltaUs d) syms [d] ∧
        (s.received twcc chunk sn deltaUs d).twcc.newSnsIndex = s.twcc.newSnsIndex := by
  obtain ⟨chucks, chunk, hproc, hwords, hpacked⟩ := h.process hd hroom
  refine ⟨_, chunk, hproc, fun sn deltaUs => ⟨⟨hpacked, ?_, rfl⟩, rfl⟩⟩
  intro hw c hc
  rcases List.mem_append.mp hc with hc | hc
  · exact hw c hc
  · exact hwords c hc

theorem recvDeltaSize_pos (deltaUs : Int) :
    0 < recvDeltaSize deltaUs ∧ recvDeltaSize deltaUs < 3 := by
  unfold recvDeltaSize
  split <;> omega

theorem gap_follows {a b : Nat} (h : a < b ∨ a = 65535 ∧ b = 0) (hb : b < 65536) :
    (a + 1 + twccGap a b) % 65536 = b := by
  unfold twccGap
  split <;> omega

/-- Where all of it is taken, the loop packs the symbols that report the list. -/
theorem encodeLoop_packs {left : Int} {i base : Nat} {list syms : List Nat} {s : TwccEncoding}
    (h : Packed s.twcc.encodedChucks s.chunk syms) (hlt : ∀ x ∈ list, x < 65536)
    (hgap : NoWrapGap list)
    (hhead : ∀ x ∈ list.head?, (base + syms.length + twccGap s.lastSn x) % 65536 = x)
    (hall : TakesAll left i list s) : ∃ s' more, twccEncodeLoop left i list s = (yangOk, s') ∧
      Packs s s' syms more ∧ more.length = symbolCount s.lastSn list ∧
      s'.packetCount % 65536 = (s.packetCount + more.length) % 65536 ∧
      s'.twcc.newSnsIndex = (if list = [] then s.twcc.newSnsIndex else i + list.length - 1) ∧
      receivedFrom ((base + syms.length) % 65536) more = list := by
  induction list generalizing i s syms with
  | nil => exact ⟨s, [], rfl, ⟨by simpa using h, fun h => h, rfl⟩, rfl, rfl, rfl, rfl⟩
  | cons currentSn rest ih =>
    have hcurrent := hhead currentSn rfl
    simp only [TakesAll] at hall
    obtain ⟨hleft, hdelta, hlost, hroom, hrest⟩ := hall
    obtain ⟨hd0, hd3⟩ := recvDeltaSize_pos ((s.start i).deltaUs currentSn)
    have hstart := start_packs i h
    obtain ⟨hlostp, hlostc, -, hlostsn, hlosti⟩ := lost_packs (s := s.start i) h hlost
    obtain ⟨twcc, chunk, hproc, hrec⟩ := received_packs hd3 hlostp.packed hroom
    obtain ⟨hrecp, hreci⟩ := hrec currentSn ((s.start i).deltaUs currentSn)
    rw [hproc] at hrest
    have hpacks := (hstart.trans (by rwa [List.append_nil])).trans hrecp
    rw [List.nil_append] at hpacks
    have hnext : ∀ x ∈ rest.head?, (base + (syms ++ (List.replicate
        (twccGap s.lastSn currentSn) 0 ++ [recvDeltaSize ((s.start i).deltaUs currentSn)])).length +
        twccGap currentSn x) % 65536 = x := by
      intro x hx
      obtain ⟨rest', rfl⟩ := List.head?_eq_some_iff.mp hx
      have hfollows := (List.isChain_cons_cons.mp hgap).1
      have hx := hlt x (by simp)
      have hgap' := gap_follows hfollows hx
      simp only [List.length_append, List.length_replicate, List.length_singleton]
      omega
    obtain ⟨s', more, hloop, hmore, hlen, hcount, hindex, hfrom⟩ :=
      ih hpacks.packed (fun x hx => hlt x (List.mem_cons_of_mem _ hx)) hgap.tail hnext hrest
    refine ⟨s', _, ?_, hpacks.trans hmore, ?_, ?_, ?_, ?_⟩
    · unfold twccEncodeLoop
      rw [if_neg (by omega)]
      simp only [hdelta, not_true_eq_false, if_false]
      rw [hproc]
      exact hloop
    · simp only [List.length_append, List.length_replicate, List.length_singleton, hlen]
      rfl
    · have hstartc : (s.start i).packetCount = (s.packetCount + 1) % 65536 := rfl
      rw [hcount]
      simp only [TwccEncoding.received, List.length_append, List.length_replicate,
        List.length_singleton]
      omega
    · rw [hindex, if_neg (List.cons_ne_nil _ _), List.length_cons, hreci, hlosti]
      split
      · rename_i hrest
        subst hrest
        rfl
      · omega
    · have hlen : (base + syms.length) % 65536 < 65536 := Nat.mod_lt _ (by decide)
      rw [receivedFrom_append _ hlen, receivedFrom_append _ hlen, receivedFrom_lost]
      simp only [List.length_append, List.length_replicate, List.length_singleton,
        List.nil_append, Nat.mod_add_mod, ← Nat.add_assoc] at hfrom ⊢
      have hpos : ((base + syms.length) % 65536 + twccGap s.lastSn currentSn + 1) % 65536 =
          (base + syms.length + twccGap s.lastSn currentSn + 1) % 65536 := by omega
      rw [show (s.start i).lastSn = s.lastSn from rfl] at hfrom ⊢
      rw [hpos, hfrom, hcurrent, receivedFrom, if_neg (by omega)]
      rfl

/-- The bytes of a message behind its common header. -/
def feedbackBody (twcc : RecvTwccFeedback) (packetCount : Nat) (tail : List UInt8) : List UInt8 :=
  beBytes 4 twcc.ssrc ++ (beBytes 4 twcc.mediaSsrc ++ (beBytes 2 twcc.baseSn ++
    (beBytes 2 packetCount ++ (beBytes 3 twcc.referenceTime.toNat ++
      ([UInt8.ofNat twcc.fbPktCount] ++ (twcc.encodedChucks.flatMap (beBytes 2) ++ tail))))))

theorem write2bytes_bytes (words : List Nat) (buf : OutBuffer) :
    (words.foldl OutBuffer.write2bytes buf).bytes = buf.bytes ++ words.flatMap (beBytes 2) := by
  induction words generalizing buf with
  | nil => simp
  | cons word words ih => simp [ih, OutBuffer.write2bytes]

/-- The bytes of a delta. -/
def deltaOctets (it : Nat) : List UInt8 :=
  if it ≤ 0xff then [UInt8.ofNat it] else beBytes 2 it

theorem writeDelta_bytes (deltas : List Nat) (buf : OutBuffer) :
    (deltas.foldl writeDelta buf).bytes = buf.bytes ++ deltas.flatMap deltaOctets := by
  induction deltas generalizing buf with
  | nil => simp
  | cons delta deltas ih =>
    have hone : (writeDelta buf delta).bytes = buf.bytes ++ deltaOctets delta := by
      unfold writeDelta deltaOctets
      split <;> rfl
    rw [List.foldl_cons, ih, hone, List.flatMap_cons, List.append_assoc]

theorem words_length (words : List Nat) : (words.flatMap (beBytes 2)).length = 2 * words.length := by
  induction words with
  | nil => rfl
  | cons word words ih =>
    rw [List.flatMap_cons, List.length_append, ih, beBytes_length, List.length_cons]
    omega

theorem read_words {m : Mem} {p n : Nat} {words : List Nat} {tail : List UInt8}
    (h : m.slice p n = words.flatMap (beBytes 2) ++ tail) :
    (List.range words.length).map (fun i => m.be (p + 2 * i) 2) = words.map (· % 65536) := by
  induction words generalizing p n with
  | nil => rfl
  | cons word words ih =>
    rw [List.flatMap_cons, List.append_assoc] at h
    obtain ⟨hword, h⟩ := Mem.slice_parts h
    rw [beBytes_length] at hword h
    have hfirst : m.be p 2 = word % 65536 := Mem.be_of_slice hword
    rw [List.length_cons, List.range_succ_eq_map, List.map_cons, List.map_cons, ← ih h,
      Nat.mul_zero, Nat.add_zero, hfirst, List.map_map]
    refine congrArg _ (List.map_congr_left fun i _ => ?_)
    rw [Function.comp_apply, show p + 2 * i.succ = p + 2 + 2 * i by omega]

/-- What is read out of a message: the symbols its chunks stand for, up to the count. -/
theorem feedbackNumbers_eq (b0 b1 : UInt8) (len packetCount : Nat) (twcc : RecvTwccFeedback)
    (tail : List UInt8) (hwords : ∀ c ∈ twcc.encodedChucks, c < 65536) : ∃ more,
    feedbackNumbers ([b0, b1] ++ (beBytes 2 len ++ feedbackBody twcc packetCount tail)) =
      receivedFrom (twcc.baseSn % 65536)
        ((twcc.encodedChucks.flatMap chunkSymbols ++ more).take (packetCount % 65536)) := by
  generalize hmsg : [b0, b1] ++ (beBytes 2 len ++ feedbackBody twcc packetCount tail) = msg
  have hlen : msg.length = 20 + (2 * twcc.encodedChucks.length + tail.length) := by
    rw [← hmsg]
    simp only [feedbackBody, List.length_append, beBytes_length, words_length, List.length_cons,
      List.length_nil]
    omega
  have hslice := slice_ofList msg
  nth_rewrite 3 [← hmsg] at hslice
  unfold feedbackBody at hslice
  obtain ⟨_, hslice⟩ := Mem.slice_parts hslice
  obtain ⟨_, hslice⟩ := Mem.slice_parts hslice
  obtain ⟨_, hslice⟩ := Mem.slice_parts hslice
  obtain ⟨_, hslice⟩ := Mem.slice_parts hslice
  obtain ⟨hbase, hslice⟩ := Mem.slice_parts hslice
  obtain ⟨hcount, hslice⟩ := Mem.slice_parts hslice
  obtain ⟨_, hslice⟩ := Mem.slice_parts hslice
  obtain ⟨_, hslice⟩ := Mem.slice_parts hslice
  simp only [beBytes_length, List.length_cons, List.length_nil, Nat.zero_add, Nat.reduceAdd]
    at hbase hcount hslice
  have hread := read_words hslice
  have hsame : twcc.encodedChucks.map (· % 65536) = twcc.encodedChucks :=
    (List.map_congr_left fun c hc => Nat.mod_eq_of_lt (hwords c hc)).trans (List.map_id _)
  obtain ⟨k, hk⟩ := Nat.exists_eq_add_of_le (show twcc.encodedChucks.length ≤
    (msg.length - kTwccFbPktHeaderSize) / 2 by unfold kTwccFbPktHeaderSize; omega)
  have hchunks : (List.range twcc.encodedChucks.length).flatMap (fun i =>
      chunkSymbols ((ofList msg).be (kTwccFbPktHeaderSize + 2 * i) 2)) =
      twcc.encodedChucks.flatMap chunkSymbols := by
    rw [← List.flatMap_map (f := fun i => (ofList msg).be (kTwccFbPktHeaderSize + 2 * i) 2)]
    exact congrArg (List.flatMap chunkSymbols) (hread.trans hsame)
  unfold feedbackNumbers feedbackSymbols
  dsimp only
  rw [Mem.be_of_slice hbase, Mem.be_of_slice hcount, hk, List.range_add, List.flatMap_append,
    hchunks]
  exact ⟨_, rfl⟩

/-- The bytes of a packet, and what its making leaves of the record. -/
theorem encodePacket_eq (twcc : RecvTwccFeedback) (packetCount : Nat) {buf : OutBuffer}
    (hbuf : buf.require 8 = true) : ∃ b0 b1 len tail pktLen buf',
      twccEncodePacket twcc packetCount buf = (yangOk,
        { twcc with
          header := { twcc.header with length := htons len }
          encodedChucks := []
          pktDeltas := []
          nextBaseSn := 0
          pktLen }, buf') ∧
      buf'.bytes =
        buf.bytes ++ ([b0, b1] ++ (beBytes 2 len ++ feedbackBody twcc packetCount tail)) ∧
      len = (twcc.pktLen + (4 - twcc.pktLen % 4) % 4) / 4 - 1 ∧
      tail = twcc.pktDeltas.flatMap deltaOctets ++
        List.replicate ((4 - twcc.pktLen % 4) % 4) 0 := by
  let len := (if twcc.pktLen % 4 = 0 then twcc.pktLen / 4
    else (twcc.pktLen + 4 - twcc.pktLen % 4) / 4) - 1
  let header := { twcc.header with length := len }
  let padding := (4 - twcc.pktLen % 4) % 4
  have hhead := encodeHeaderRtcpHeader_room hbuf header twcc.ssrc
  let words := twcc.encodedChucks.foldl OutBuffer.write2bytes (writeTwccHead
    { twcc with header } packetCount (encodeHeaderRtcpHeader header twcc.ssrc buf).2.2)
  have hwords : (if twcc.pktLen % 4 = 0 then twcc.pktLen / 4
      else (twcc.pktLen + 4 - twcc.pktLen % 4) / 4) =
      (twcc.pktLen + (4 - twcc.pktLen % 4) % 4) / 4 := by
    split <;> omega
  refine ⟨UInt8.ofNat (header.rc + header.padding * 32 + header.version * 64),
    UInt8.ofNat header.type, len, twcc.pktDeltas.flatMap deltaOctets ++ List.replicate padding 0,
    twcc.pktLen + padding,
    (twcc.pktDeltas.foldl writeDelta words).writeBytes (List.replicate padding 0), ?_, ?_,
    congrArg (· - 1) hwords, rfl⟩
  · simp only [twccEncodePacket, words, encodeHeaderRtcpHeader_room hbuf, ne_eq,
      not_true_eq_false, if_false]
    rfl
  · rw [OutBuffer.writeBytes_bytes, writeDelta_bytes, write2bytes_bytes, hhead]
    simp [writeTwccHead, feedbackBody, OutBuffer.write1bytes, OutBuffer.write2bytes,
      OutBuffer.write4bytes, header]

theorem Holds.of_unfilled {chunk : RtcpTWCCChunk} (h : chunk.Unfilled) : Holds chunk [] := by
  obtain ⟨hsize, hsame, hlarge⟩ := h
  constructor <;> simp [hsize, hsame, hlarge]

/-- The chunk still being filled at the end goes behind the others. -/
theorem Packed.remaining (twcc : RecvTwccFeedback) {chunk : RtcpTWCCChunk} {syms : List Nat}
    (h : Packed twcc.encodedChucks chunk syms) : ∃ chucks k, k < 7 ∧
      (if 0 < chunk.size then twccEncodeRemainingChunk twcc chunk else (yangOk, twcc)) =
        (yangOk, twcc.insertChunks chucks) ∧ (∀ c ∈ chucks, c < 65536) ∧
      (twcc.encodedChucks ++ chucks).flatMap chunkSymbols = syms ++ List.replicate k 0 := by
  obtain ⟨held, rfl, hheld⟩ := h
  by_cases hsize : 0 < chunk.size
  · have hne : held ≠ [] := by
      rintro rfl
      simp [hheld.size] at hsize
    obtain ⟨word, k, hk, henc, hword⟩ := hheld.remaining hne twcc
    refine ⟨[word % 65536], k, hk, ?_, by simp; omega, by simp [hword]⟩
    rw [if_pos hsize, henc]
    rfl
  · have hnil : held = [] := List.eq_nil_of_length_eq_zero (by rw [← hheld.size]; omega)
    refine ⟨[], 0, by decide, ?_, by simp, by simp [hnil]⟩
    rw [if_neg hsize]
    simp [RecvTwccFeedback.insertChunks]

theorem list_first {sns : Uint16Sort} {first : Nat} {rest : List Nat}
    (hlist : sns.list = first :: rest) : sns.payload 0 = first := by
  have hlen := congrArg List.length hlist
  obtain ⟨n, hn⟩ : ∃ n, sns.vsize = n + 1 := ⟨rest.length, by simpa [Uint16Sort.list] using hlen⟩
  have h := congrArg List.head? hlist
  simpa [Uint16Sort.list, hn, List.range_succ_eq_map] using h

theorem list_some {sns : Uint16Sort} (hne : sns.vsize ≠ 0) :
    ∃ first rest, sns.list = first :: rest ∧ sns.payload 0 = first := by
  obtain ⟨first, rest, hlist⟩ : ∃ first rest, sns.list = first :: rest := by
    refine List.exists_cons_of_ne_nil fun hnil => hne ?_
    simpa [Uint16Sort.list] using congrArg List.length hnil
  exact ⟨first, rest, hlist, list_first hlist⟩

/-- The encoding starts at the first number of the list. -/
theorem encodeStart_first {chunk : RtcpTWCCChunk} {twcc : RecvTwccFeedback} {first : Nat}
    {rest : List Nat} (hbase : twcc.nextBaseSn = 0) (hlist : twcc.sns.list = first :: rest) :
    (twccEncodeStart chunk twcc).lastSn = first := by
  simp [twccEncodeStart, hbase, list_first hlist]

/-- A message that takes all of the list reports the list. -/
theorem recvEncode_reports {chunk : RtcpTWCCChunk} (twcc : RecvTwccFeedback)
    (hchunk : chunk.Unfilled) (hchucks : twcc.encodedChucks = []) (hbase : twcc.nextBaseSn = 0)
    (hne : twcc.sns.vsize ≠ 0) (hlt : ∀ x ∈ twcc.sns.list, x < 65536)
    (hgap : NoWrapGap twcc.sns.list)
    (hcount : symbolCount (twcc.sns.payload 0) twcc.sns.list < 65536)
    (hall : TakesAll kRtpPacketSize 0 twcc.sns.list (twccEncodeStart chunk twcc)) :
    ∃ twcc' buf', twccRecvEncode chunk twcc { size := kRtpPacketSize } = (yangOk, twcc', buf') ∧
      feedbackNumbers buf'.bytes = twcc.sns.list ∧ twcc'.newSnsIndex + 1 = twcc.sns.vsize ∧
      twcc'.encodedChucks = [] ∧ twcc'.nextBaseSn = 0 ∧ twcc'.sns = twcc.sns ∧
      twcc'.isSendtwcc = twcc.isSendtwcc := by
  obtain ⟨first, rest, hlist, hfirst⟩ := list_some hne
  have hstart : (twccEncodeStart chunk twcc).lastSn = first := encodeStart_first hbase hlist
  have hpacked : Packed (twccEncodeStart chunk twcc).twcc.encodedChucks
      (twccEncodeStart chunk twcc).chunk [] :=
    ⟨[], by simp [twccEncodeStart, hchucks], .of_unfilled hchunk⟩
  have hhead : ∀ x ∈ twcc.sns.list.head?, (first + ([] : List Nat).length +
      twccGap (twccEncodeStart chunk twcc).lastSn x) % 65536 = x := by
    rintro x hx
    obtain rfl : first = x := by simpa [hlist] using hx
    have := hlt first (by simp [hlist])
    rw [hstart]
    unfold twccGap
    simp
    omega
  obtain ⟨s', more, hloop, hpacks, hlen, hpc, hindex, hfrom⟩ :=
    encodeLoop_packs hpacked hlt hgap hhead hall
  obtain ⟨chucks, k, -, hrem, hwords, hflat⟩ :=
    Packed.remaining { s'.twcc with nextBaseSn := 0 } hpacks.packed
  have hreq : ({ size := kRtpPacketSize } : OutBuffer).require 8 = true := rfl
  obtain ⟨b0, b1, len, tail, pktLen, buf', hpacket, hbytes, -⟩ := encodePacket_eq
    (RecvTwccFeedback.insertChunks { s'.twcc with nextBaseSn := 0 } chucks) s'.packetCount hreq
  have henc : twccRecvEncode chunk twcc { size := kRtpPacketSize } = twccEncodePacket
      (RecvTwccFeedback.insertChunks { s'.twcc with nextBaseSn := 0 } chucks) s'.packetCount
      { size := kRtpPacketSize } := by
    have hleft : ((({ size := kRtpPacketSize } : OutBuffer).size : Int) -
      ({ size := kRtpPacketSize } : OutBuffer).pos) = kRtpPacketSize := rfl
    unfold twccRecvEncode
    rw [if_neg (by decide), hleft, hloop]
    dsimp only
    rw [hrem, if_neg (by simp)]
    exact if_neg (by simp)
  have hall : ∀ c ∈ s'.twcc.encodedChucks ++ chucks, c < 65536 := by
    intro c hc
    rcases List.mem_append.mp hc with hc | hc
    · exact hpacks.words (by simp [twccEncodeStart, hchucks]) c hc
    · exact hwords c hc
  obtain ⟨behind, hnumbers⟩ := feedbackNumbers_eq b0 b1 len s'.packetCount
    (RecvTwccFeedback.insertChunks { s'.twcc with nextBaseSn := 0 } chucks) tail hall
  have hbaseSn : s'.twcc.baseSn = first := hpacks.baseSn.trans hstart
  refine ⟨_, buf', henc.trans hpacket, ?_, ?_, rfl, rfl, hpacks.sns, hpacks.isSendtwcc⟩
  · have htake : s'.packetCount % 65536 = more.length := by
      have h0 : (twccEncodeStart chunk twcc).packetCount = 0 := rfl
      have hlt : more.length < 65536 := by
        rw [hlen, hstart, ← hfirst]
        exact hcount
      omega
    have hlt := hlt first (by simp [hlist])
    rw [hbytes]
    refine hnumbers.trans ?_
    rw [htake]
    simp only [RecvTwccFeedback.insertChunks, hflat, List.nil_append, List.append_assoc, hbaseSn,
      List.take_left]
    simpa using hfrom
  · have hidx : s'.twcc.newSnsIndex = 0 + twcc.sns.list.length - 1 :=
      hindex.trans (if_neg (by simp [hlist]))
    have hsize : twcc.sns.list.length = twcc.sns.vsize := by simp [Uint16Sort.list]
    simp only [RecvTwccFeedback.insertChunks]
    omega

end MetaRtc
