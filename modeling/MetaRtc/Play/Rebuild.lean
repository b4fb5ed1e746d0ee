import Mathlib.Data.List.Forall2
import MetaRtc.Play.Assembly

/-! # Fragments and the units rebuilt from them

The packets of one push are cached one after the other and put together as one frame. -/
namespace MetaRtc

open Bytes Exec

/-- A packet is decoded and cached, and nothing assembled yet. -/
def cacheRtp (codec : PlayCodec) (play : PlayStream) (plaintext : List UInt8) :
    Call (Nat × PlayStream) :=
  let (_, pkt, play) := wrapRtpPacket play plaintext
  do
    let payload ← Call.deref pkt.payload
    let ring := play.rtpBuffer.buffer
    let track ← storePacket codec ring play.track
      { pkt with naluType := codec.naluType (ring payload) }
    return (pkt.header.sequence, { play with track })

def cacheAll (codec : PlayCodec) : List (List UInt8) → PlayStream → Call (List Nat × PlayStream)
  | [], play => .ret ([], play)
  | plaintext :: rest, play => do
    let (seq, play) ← cacheRtp codec play plaintext
    let (seqs, play) ← cacheAll codec rest play
    return (seq :: seqs, play)

/-- The frame assembled from the first packet's number to the last one's. -/
def rebuildFrame (codec : PlayCodec) (play : PlayStream) (packets : List (List UInt8)) :
    Call (Option (List UInt8)) := do
  let (seqs, play) ← cacheAll codec packets play
  match seqs with
  | [] => return none
  | start :: rest =>
    let (track, nb) ← assembleFrame codec play.rtpBuffer.buffer play.track start
      (rest.getLastD start)
    return some (track.videoBuffer.data.slice 0 nb)

/-- A play stream with the ring and the video buffer it was created with. -/
structure PlayStream.Sound (play : PlayStream) : Prop where
  bufLen : play.rtpBuffer.bufLen = 1500
  index : play.rtpBuffer.index < 1500
  room : play.track.videoBuffer.room = yangVideoEncodeBufferLen

section Caching

variable {codec : PlayCodec} {play : PlayStream} {r s : Nat} {es : List Entry} {e : Entry}
  {payloadType ssrc : Nat} {pts : Int}

theorem numbered_plain (hp : payloadType < 128) (hs : ssrc < 2 ^ 32) {seq : Nat}
    (hseq : seq < 65536) (parts : List Part) :
    ∀ u ∈ numbered payloadType ssrc pts seq parts, u.header.Plain := by
  induction parts generalizing seq with
  | nil => simp [numbered]
  | cons part rest ih =>
    intro u hu
    rcases List.mem_cons.mp hu with rfl | hu
    · exact ⟨rfl, rfl, rfl, rfl, rfl, hp, hseq, by dsimp only; omega, hs⟩
    · exact ih (by omega) u hu

theorem numbered_payload {seq : Nat} {parts : List Part} {u : RtpUnit}
    (h : u ∈ numbered payloadType ssrc pts seq parts) : ∃ part ∈ parts, u.payload = part.2 := by
  induction parts generalizing seq with
  | nil => simp [numbered] at h
  | cons part rest ih =>
    rcases List.mem_cons.mp h with rfl | h
    · exact ⟨part, List.mem_cons_self, rfl⟩
    · obtain ⟨p, hp, hu⟩ := ih h
      exact ⟨p, List.mem_cons_of_mem _ hp, hu⟩

theorem numbered_mem {parts : List Part} {part : Part} (h : part ∈ parts) (payloadType ssrc : Nat)
    (pts : Int) (seq : Nat) :
    ∃ u ∈ numbered payloadType ssrc pts seq parts, u.payload = part.2 := by
  induction parts generalizing seq with
  | nil => simp at h
  | cons p rest ih =>
    rcases List.mem_cons.mp h with rfl | h
    · exact ⟨_, List.mem_cons_self, rfl⟩
    · obtain ⟨u, hu, hp⟩ := ih h ((seq + 1) % 65536)
      exact ⟨u, List.mem_cons_of_mem _ hu, hp⟩

theorem cacheRtp_next (u : RtpUnit) (hp : u.header.Plain)
    (h : CachedFrom codec play.rtpBuffer play.track.cacheVideoPkts r s u.header.timestamp es)
    (hlen : es.length < 512) (hfit : u.bytes.length ≤ kRtpPacketSize)
    (hseq : u.header.sequence = (s + es.length) % 65536)
    (hc : Caches codec (u.header.marker, u.payload) e) :
    ∃ rtpBuffer cache, cacheRtp codec play u.bytes = .ret (u.header.sequence,
        { play with rtpBuffer, track := { play.track with cacheVideoPkts := cache } }) ∧
      CachedFrom codec rtpBuffer cache r s u.header.timestamp (es ++ [e]) := by
  obtain ⟨pkt, hstore, hcached⟩ := arrival_caches play.track h hlen hfit hseq hc
  refine ⟨_, _, ?_, hcached⟩
  simp only [cacheRtp, wrapRtpPacket_unit h.bufLen (cachedFrom_index h) hp, Call.deref_some,
    Call.ret_bind, hstore, Call.pure_eq]

/-- Numbered packets that fit the cache are cached in a row, and nothing else changes. -/
theorem cacheAll_numbered (play : PlayStream) {parts : List Part} {fs : List Entry}
    (hc : List.Forall₂ (Caches codec) parts fs) (hp : payloadType < 128) (hs : ssrc < 2 ^ 32)
    (h : CachedFrom codec play.rtpBuffer play.track.cacheVideoPkts r s (pts % 2 ^ 32).toNat es)
    (hlen : es.length + fs.length ≤ 512)
    (hfit : ∀ part ∈ parts, 12 + part.2.length ≤ kRtpPacketSize) :
    ∃ rtpBuffer cache,
      cacheAll codec ((numbered payloadType ssrc pts ((s + es.length) % 65536) parts).map
          RtpUnit.bytes) play =
        .ret ((numbered payloadType ssrc pts ((s + es.length) % 65536) parts).map
            fun u => u.header.sequence,
          { play with rtpBuffer, track := { play.track with cacheVideoPkts := cache } }) ∧
      CachedFrom codec rtpBuffer cache r s (pts % 2 ^ 32).toNat (es ++ fs) := by
  induction hc generalizing play es with
  | nil => exact ⟨_, _, rfl, by rwa [List.append_nil]⟩
  | @cons part e parts fs hpart hrest ih =>
    rw [List.length_cons] at hlen
    let u : RtpUnit :=
      { header :=
          { payloadType, ssrc
            marker := part.1
            sequence := (s + es.length) % 65536
            timestamp := (pts % 2 ^ 32).toNat }
        payload := part.2 }
    have hplain : u.header.Plain := numbered_plain hp hs (Nat.mod_lt (s + es.length) (by omega))
      (part :: parts) u List.mem_cons_self
    have hu : u.bytes.length ≤ kRtpPacketSize := by
      simpa [u, RtpUnit.bytes] using hfit part List.mem_cons_self
    obtain ⟨rb, cache, hone, hcached⟩ := cacheRtp_next u hplain h (by omega) hu rfl hpart
    have hseq : (s + (es ++ [e]).length) % 65536 = ((s + es.length) % 65536 + 1) % 65536 := by
      rw [List.length_append, List.length_singleton]
      omega
    have hmore : (es ++ [e]).length + fs.length ≤ 512 := by
      rw [List.length_append, List.length_singleton]
      omega
    obtain ⟨rb', cache', hall, hcached'⟩ := ih
      { play with rtpBuffer := rb, track := { play.track with cacheVideoPkts := cache } }
      hcached hmore fun p hp => hfit p (List.mem_cons_of_mem _ hp)
    rw [hseq] at hall
    refine ⟨rb', cache', ?_, by rwa [List.append_assoc] at hcached'⟩
    exact Call.bind_eq_ret.mpr ⟨_, hone, Call.bind_eq_ret.mpr ⟨_, hall, rfl⟩⟩

/-- The last number of a row of packets. -/
theorem numbered_last (payloadType ssrc : Nat) (pts : Int) {seq : Nat} (hseq : seq < 65536) (parts : List Part) :
    ((numbered payloadType ssrc pts ((seq + 1) % 65536) parts).map
      fun u => u.header.sequence).getLastD seq = (seq + parts.length) % 65536 := by
  induction parts generalizing seq with
  | nil => exact (Nat.mod_eq_of_lt hseq).symm
  | cons part rest ih =>
    simp only [numbered, List.map_cons, List.getLastD_cons, List.length_cons]
    rw [ih (Nat.mod_lt _ (by omega))]
    omega

/-- What packets in a row build is the frame they are put together to. -/
theorem rebuildFrame_builds (pts : Int) (hsound : play.Sound) {parts : List Part} {bs : List UInt8}
    (hc : List.Forall₂ (Caches codec) parts (e :: es)) (hb : Builds codec (e :: es) bs)
    (hp : payloadType < 128) (hs : ssrc < 2 ^ 32) (hseq : s < 65536)
    (hlen : (e :: es).length ≤ 512) (hfit : ∀ part ∈ parts, 12 + part.2.length ≤ kRtpPacketSize)
    (hne : e.bytes ≠ []) (hstap : e.naluType = codec.stapA → codec.stapNalu < e.bytes.length)
    (hroom : 5 + bs.length ≤ yangVideoEncodeBufferLen) :
    rebuildFrame codec play ((numbered payloadType ssrc pts s parts).map RtpUnit.bytes) =
      .ret (some ((if e.key codec then codec.keyTag else codec.interTag) ::
        0x01 :: 0x00 :: 0x00 :: 0x00 :: bs)) := by
  have hnil := cachedFrom_nil codec play.track.cacheVideoPkts s (pts % 2 ^ 32).toNat
    hsound.bufLen hsound.index
  obtain ⟨rb, cache, hall, hcached⟩ := cacheAll_numbered play hc hp hs hnil
    (by rwa [List.length_nil, Nat.zero_add]) hfit
  rw [List.length_nil, Nat.add_zero, Nat.mod_eq_of_lt hseq] at hall
  have hheld : HeldAll codec rb.buffer (pts % 2 ^ 32).toNat cache s (e :: es) :=
    fun k hk => (hcached.held k hk).1
  rw [← hsound.room] at hroom
  obtain ⟨cache', buffer, hframe, hbytes, -, -⟩ := assembleFrame_builds
    { play.track with cacheVideoPkts := cache } hb hheld hlen hseq hne hstap hroom
  obtain ⟨part, rest, rfl⟩ : ∃ part rest, parts = part :: rest := by
    cases hc
    exact ⟨_, _, rfl⟩
  have hcount : rest.length = es.length := by
    simpa using hc.length_eq
  have hlast := numbered_last payloadType ssrc pts hseq rest
  rw [hcount] at hlast
  refine Call.bind_eq_ret.mpr ⟨_, hall, ?_⟩
  simp only [numbered, List.map_cons, hlast]
  exact Call.bind_eq_ret.mpr ⟨_, hframe, by simp only [hbytes, Call.pure_eq]⟩

theorem cacheRtp_video {plaintext : List UInt8} {seq : Nat} {play' : PlayStream}
    (h : cacheRtp codec play plaintext = .ret (seq, play')) :
    play'.track.videoBuffer = play.track.videoBuffer := by
  obtain ⟨p, -, h⟩ := Call.bind_eq_ret.mp h
  obtain ⟨track, hstore, hret⟩ := Call.bind_eq_ret.mp h
  obtain ⟨slot, -, hslot⟩ := Call.bind_eq_ret.mp hstore
  cases hret
  cases hslot
  rfl

theorem cacheAll_video {packets : List (List UInt8)} {seqs : List Nat} {play' : PlayStream}
    (h : cacheAll codec packets play = .ret (seqs, play')) :
    play'.track.videoBuffer = play.track.videoBuffer := by
  induction packets generalizing play seqs with
  | nil =>
    cases h
    rfl
  | cons plaintext rest ih =>
    obtain ⟨⟨seq, mid⟩, hone, h⟩ := Call.bind_eq_ret.mp h
    obtain ⟨⟨seqs', last⟩, hall, hret⟩ := Call.bind_eq_ret.mp h
    cases hret
    exact (ih hall).trans (cacheRtp_video hone)

/-- No rebuilt frame is longer than the video buffer. -/
theorem rebuildFrame_length (hsound : play.Sound) {packets : List (List UInt8)}
    {frame : List UInt8} (h : rebuildFrame codec play packets = .ret (some frame)) :
    frame.length ≤ yangVideoEncodeBufferLen := by
  obtain ⟨⟨seqs, mid⟩, hall, h⟩ := Call.bind_eq_ret.mp h
  cases seqs with
  | nil => cases h
  | cons start rest =>
    obtain ⟨⟨track, nb⟩, hframe, hret⟩ := Call.bind_eq_ret.mp h
    cases hret
    have hroom := (assembleFrame_room hframe).1
    rw [cacheAll_video hall, hsound.room] at hroom
    rwa [Mem.slice_length]

end Caching

section Fragments

variable {codec : PlayCodec} {size : Nat} {encode : Fua2Data → List UInt8}
  {cached : Fua2Data → Fua2DataCache} {ok : Fua2Data → Prop} {header naluType : UInt8}
  {total n i : Nat} {left : List UInt8}

def fragmentEntry (codec : PlayCodec) (cached : Fua2Data → Fua2DataCache) (pkt : Fua2Data) :
    Entry :=
  ⟨pkt.last, codec.fuA, cached pkt, pkt.payload⟩

def firstFragment (header naluType : UInt8) (payload : List UInt8) : Fua2Data :=
  { start := true, last := false, nri := header, naluType, payload }

theorem fragments_cached (ha : Fua2Agrees codec size encode cached ok) (hsize : 0 < size)
    {pkts : List Fua2Data} (hok : ∀ pkt ∈ pkts, ok pkt) :
    List.Forall₂ (Caches codec) (pkts.map (fragmentPart encode))
      (pkts.map (fragmentEntry codec cached)) := by
  induction pkts with
  | nil => exact .nil
  | cons pkt rest ih =>
    have hpkt := hok pkt List.mem_cons_self
    exact .cons (caches_fragment ha hsize hpkt) (ih fun p hp => hok p (List.mem_cons_of_mem _ hp))

theorem fragmentData_naluType :
    ∀ pkt ∈ fragmentData header naluType total size n i left, pkt.naluType = naluType := by
  induction n generalizing i left with
  | zero => simp [fragmentData]
  | succ n ih =>
    intro pkt hpkt
    rcases List.mem_cons.mp hpkt with rfl | hpkt
    · rfl
    · exact ih pkt hpkt

theorem fragmentData_payload :
    ∀ pkt ∈ fragmentData header naluType total size n i left, pkt.payload.length ≤ size := by
  induction n generalizing i left with
  | zero => simp [fragmentData]
  | succ n ih =>
    intro pkt hpkt
    rcases List.mem_cons.mp hpkt with rfl | hpkt
    · exact List.length_take_le _ _
    · exact ih pkt hpkt

theorem fragmentData_length :
    (fragmentData header naluType total size n i left).length = n := by
  induction n generalizing i left with
  | zero => rfl
  | succ n ih => simp [fragmentData, ih]

theorem fragmentData_nonempty (hsize : 0 < size) (h : size * n < left.length) :
    ∀ pkt ∈ fragmentData header naluType total size (n + 1) i left, pkt.payload ≠ [] := by
  have htake : left.take size ≠ [] := by
    apply List.ne_nil_of_length_pos
    rw [List.length_take]
    omega
  induction n generalizing i left with
  | zero =>
    intro pkt hpkt
    rw [List.mem_singleton.mp hpkt]
    exact htake
  | succ n ih =>
    rw [Nat.mul_succ] at h
    have hdrop : size * n < (left.drop size).length := by
      rw [List.length_drop]
      omega
    intro pkt hpkt
    rcases List.mem_cons.mp hpkt with rfl | hpkt
    · exact htake
    · apply ih hdrop ?_ pkt hpkt
      apply List.ne_nil_of_length_pos
      rw [List.length_take]
      omega

/-- One fragment more than there are bytes for. -/
theorem fragmentData_empty (h : left.length ≤ size * n) :
    ∃ pkt ∈ fragmentData header naluType total size (n + 1) i left, pkt.payload = [] := by
  induction n generalizing i left with
  | zero =>
    have hnil : left = [] := List.eq_nil_of_length_eq_zero (by simpa using h)
    subst hnil
    exact ⟨_, List.mem_cons_self, List.take_nil⟩
  | succ n ih =>
    rw [Nat.mul_succ] at h
    have hdrop : (left.drop size).length ≤ size * n := by
      rw [List.length_drop]
      omega
    obtain ⟨pkt, hpkt, hempty⟩ := ih hdrop
    exact ⟨pkt, List.mem_cons_of_mem _ hpkt, hempty⟩

/-- The fragments behind the first one are the bytes behind its own. -/
theorem fragmentData_tail (hstart : ∀ pkt, (cached pkt).start = pkt.start)
    (hlast : ∀ pkt, (cached pkt).last = pkt.last) (hi : 0 < i) (htotal : i + (n + 1) = total)
    (hsize : 0 < size) (hlo : size * n < left.length) (hhi : left.length ≤ size * (n + 1)) :
    FuTail codec
      ((fragmentData header naluType total size (n + 1) i left).map (fragmentEntry codec cached))
      left := by
  have hpos : 0 < left.length := by omega
  induction n generalizing i left with
  | zero =>
    have htake : left.take size = left := List.take_of_length_le (by simpa using hhi)
    have hend : i = total - 1 := by omega
    simp only [fragmentData, List.map_cons, List.map_nil, fragmentEntry, htake]
    apply FuTail.last
    · rfl
    · exact List.ne_nil_of_length_pos hpos
    · exact (hstart _).trans (decide_eq_false (by omega))
    · exact (hlast _).trans (decide_eq_true hend)
  | succ n ih =>
    rw [Nat.mul_succ] at hlo hhi
    have hdrop : (left.drop size).length = left.length - size := List.length_drop
    have hrest : FuTail codec ((fragmentData header naluType total size (n + 1) (i + 1)
        (left.drop size)).map (fragmentEntry codec cached)) (left.drop size) :=
      ih (by omega) (by omega) (by omega) (by omega) (by omega)
    have htake : left.take size ≠ [] := by
      apply List.ne_nil_of_length_pos
      rw [List.length_take]
      omega
    have hcons : FuTail codec _ (left.take size ++ left.drop size) :=
      .cons (fragmentEntry codec cached
        ⟨decide (i = 0), decide (i = total - 1), header, naluType, left.take size⟩) rfl htake
        ((hstart _).trans (decide_eq_false (by omega)))
        ((hlast _).trans (decide_eq_false (by omega))) hrest
    rwa [List.take_append_drop] at hcons

/-- All fragments of a unit, if there are two at least and none is empty, build the unit
with its header rebuilt. -/
theorem fragmentData_builds (codec : PlayCodec) (header naluType : UInt8) (hstart : ∀ pkt, (cached pkt).start = pkt.start)
    (hlast : ∀ pkt, (cached pkt).last = pkt.last) (hsize : 0 < size)
    (hlo : size * (n + 1) < left.length) (hhi : left.length ≤ size * (n + 2)) :
    ∃ es, (fragmentData header naluType (n + 2) size (n + 2) 0 left).map
        (fragmentEntry codec cached) =
        fragmentEntry codec cached (firstFragment header naluType (left.take size)) :: es ∧
      Builds codec
        (fragmentEntry codec cached (firstFragment header naluType (left.take size)) :: es)
        (behindLength
          (codec.fuNaluHeader (cached (firstFragment header naluType (left.take size))) ++ left)) ∧
      left.take size ≠ [] := by
  rw [Nat.mul_succ] at hlo hhi
  have hdrop : (left.drop size).length = left.length - size := List.length_drop
  have htail : FuTail codec ((fragmentData header naluType (n + 2) size (n + 1) 1
      (left.drop size)).map (fragmentEntry codec cached)) (left.drop size) :=
    fragmentData_tail hstart hlast Nat.one_pos (by omega) hsize (by omega) (by omega)
  have htake : left.take size ≠ [] := by
    apply List.ne_nil_of_length_pos
    rw [List.length_take]
    omega
  refine ⟨_, rfl, ?_, htake⟩
  have hunit := Builds.unit
    (fragmentEntry codec cached (firstFragment header naluType (left.take size))) rfl htake
    (hstart _) (hlast _) htail .nil
  simp only [List.append_nil] at hunit
  rwa [List.append_assoc, show (fragmentEntry codec cached (firstFragment header naluType
    (left.take size))).bytes ++ left.drop size = left from List.take_append_drop _ _] at hunit

end Fragments

end MetaRtc
