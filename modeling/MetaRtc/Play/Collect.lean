import MetaRtc.Play.Rebuild

/-! # Packets that come in order

A track that has every packet so far waits for the next number. The packets of a frame are
collected one by one, and the last of them hands the frame on. -/
namespace MetaRtc

open Bytes Exec

def receiveAll (codec : PlayCodec) : List (List UInt8) → PlayStream → Call PlayStream
  | [], play => .ret play
  | plaintext :: rest, play => do
    let (_, play) ← rtcplayOnVideoRtp codec play plaintext
    receiveAll codec rest play

/-- The cache holds nothing. -/
structure Idle (play : PlayStream) : Prop where
  sound : play.Sound
  key : play.track.keyFrameTs = -1
  free : ∀ x, (play.track.cacheVideoPkts (cacheIndex x)).inUse = false

/-- The cache holds nothing, and the packet with that number is waited for. -/
structure Waiting (play : PlayStream) (s : Nat) : Prop where
  idle : Idle play
  header : play.track.headerSn = s
  lost : play.track.lostSn = s

/-- The cache holds the first packets of a frame and nothing else. -/
structure Collecting (codec : PlayCodec) (play : PlayStream) (r s ts : Nat) (es : List Entry) :
    Prop where
  cached : CachedFrom codec play.rtpBuffer play.track.cacheVideoPkts r s ts es
  room : play.track.videoBuffer.room = yangVideoEncodeBufferLen
  header : play.track.headerSn = s
  lost : play.track.lostSn = (s + es.length) % 65536
  free : ∀ k, es.length ≤ k → k < 512 →
    (play.track.cacheVideoPkts (cacheIndex (s + k))).inUse = false

/-- The frames handed to the application, without the parameter sets. -/
def delivered (frames : List VideoFrame) : List VideoFrame :=
  frames.filter fun frame => frame.frametype ≠ .Spspps

/-- What is handed on for an assembled frame of these bytes. -/
def HandsOn (codec : PlayCodec) (key : Bool) (bs : List UInt8) (ts : Nat)
    (out : List VideoFrame) : Prop :=
  ∀ temp : Area, temp.room = yangVideoEncodeBufferLen →
    temp.data.slice 0 (5 + bs.length) =
      (if key then codec.keyTag else codec.interTag) :: 0x01 :: 0x00 :: 0x00 :: 0x00 :: bs →
    ∃ frames, playtrackReceiveVideo temp (5 + bs.length) ts = .ret frames ∧ delivered frames = out

section Searching

variable {codec : PlayCodec} {ring : Mem} {ts s k n : Nat} {track : PlayTrackH2645}
  {es : List Entry} {e : Entry} {bs : List UInt8} {cache : Nat → PacketCache}

theorem heldAll_last (h : HeldAll codec ring ts cache s (es ++ [e])) :
    Held codec ring ts (cache (cacheIndex (s + es.length))) e := by
  have hheld := h es.length (by simp)
  simpa using hheld

theorem heldAll_ts (h : HeldAll codec ring ts cache s es) (hne : es ≠ []) :
    (cache (cacheIndex s)).ts = ts :=
  (h 0 (List.length_pos_of_ne_nil hne)).ts

/-- The search ends at a slot that is free. -/
theorem findNextLostLoop_free (n lastTs : Nat) {current : Nat}
    (h : (cache (cacheIndex current)).inUse = false) :
    findNextLostLoop cache lastTs current (n + 1) 0 = .lost (current % 65536) := by
  simp only [findNextLostLoop, Nat.add_zero, cacheIndex_mod, h, if_true]

/-- At the last packet of a frame the search has its end. -/
theorem findNextLostSn_last (hheader : track.headerSn = s)
    (h : HeldAll codec ring ts track.cacheVideoPkts s (es ++ [e])) (hl : e.last = true) :
    findNextLostSn track ((s + es.length) % 65536) = .frame ((s + es.length) % 65536) := by
  have hheld := heldAll_last h
  have hts := heldAll_ts h (by simp)
  simp [findNextLostSn, findNextLostLoop, yangRtcRecvBufferCount, hheader, hts, hheld.inUse,
    hheld.ts, hheld.last, hl]

/-- At another packet it goes on to the next slot. -/
theorem findNextLostSn_next (hheader : track.headerSn = s)
    (h : HeldAll codec ring ts track.cacheVideoPkts s (es ++ [e])) (hl : e.last = false)
    (hfree : (track.cacheVideoPkts (cacheIndex (s + (es.length + 1)))).inUse = false) :
    findNextLostSn track ((s + es.length) % 65536) = .lost ((s + (es.length + 1)) % 65536) := by
  have hheld := heldAll_last h
  have hts := heldAll_ts h (by simp)
  have hnext : ((s + es.length) % 65536 + (0 + 1)) % 65536 = (s + (es.length + 1)) % 65536 := by
    omega
  rw [findNextLostSn, hheader, hts, show yangRtcRecvBufferCount = 510 + 1 + 1 from rfl,
    findNextLostLoop, findNextLostLoop, hnext]
  simp [hheld.inUse, hheld.ts, hheld.last, hl, hfree]

/-- A frame has as many first fragments as last ones. -/
theorem builds_complete (hb : Builds codec es bs) :
    es.countP (fun e => decide (e.naluType = codec.fuA) && e.fua2.start) =
      es.countP (fun e => decide (e.naluType = codec.fuA) && e.fua2.last) := by
  have htail : ∀ {es : List Entry} {bs : List UInt8}, FuTail codec es bs →
      es.countP (fun e => decide (e.naluType = codec.fuA) && e.fua2.start) = 0 ∧
        es.countP (fun e => decide (e.naluType = codec.fuA) && e.fua2.last) = 1 := by
    intro es bs ht
    induction ht with
    | last e hfu hne hs hl => simp [hfu, hs, hl]
    | cons e hfu hne hs hl hrest ih => simp [hs, hl, ih]
  induction hb with
  | nil => rfl
  | raw e hfu hst hne hrest ih => simp [hfu, ih]
  | stap e nalus hfu hst hdec hpos hrest ih => simp [hfu, ih]
  | unit e hfu hne hs hl ht hrest ih =>
    obtain ⟨hstart, hlast⟩ := htail ht
    simp [List.countP_append, hfu, hs, hl, hstart, hlast, ih]
    omega

/-- A count over the fragments of slots is one over the packets they hold. -/
theorem countP_slots (f : Fua2DataCache → Bool) {pkts : List PacketCache}
    (h : List.Forall₂ (fun pkt e => pkt.naluType = e.naluType ∧
      (e.naluType = codec.fuA → pkt.fua2 = e.fua2)) pkts es) :
    pkts.countP (fun pkt => decide (pkt.naluType = codec.fuA) && f pkt.fua2) =
      es.countP fun e => decide (e.naluType = codec.fuA) && f e.fua2 := by
  induction h with
  | nil => rfl
  | @cons pkt e pkts es hpkt hrest ih =>
    rw [List.countP_cons, List.countP_cons, ih, hpkt.1]
    by_cases hfu : e.naluType = codec.fuA
    · rw [hpkt.2 hfu]
    · simp [hfu]

/-- The first and the last fragments are counted off what the slots hold. -/
theorem checkFrameComplete_held (h : HeldAll codec ring ts track.cacheVideoPkts s es)
    (hlen : es.length = k + 1) (hk : k < 512) (hs : s < 65536) :
    checkFrameComplete codec track s ((s + k) % 65536) =
      (es.countP (fun e => decide (e.naluType = codec.fuA) && e.fua2.start) ==
        es.countP (fun e => decide (e.naluType = codec.fuA) && e.fua2.last)) := by
  have hcount := frameCount_eq hs hk
  have hslots : List.Forall₂ (fun pkt e => pkt.naluType = e.naluType ∧
      (e.naluType = codec.fuA → pkt.fua2 = e.fua2))
      ((List.range es.length).map fun i => track.cacheVideoPkts (cacheIndex (s + i))) es := by
    apply List.forall₂_iff_get.mpr
    refine ⟨by simp, ?_⟩
    intro i hi hi'
    have hheld := h i hi'
    simp only [List.get_eq_getElem, List.getElem_map, List.getElem_range]
    exact ⟨hheld.naluType, hheld.fua2⟩
  simp only [checkFrameComplete, hcount, ← hlen, countP_slots (·.start) hslots,
    countP_slots (·.last) hslots]

theorem checkFrameComplete_builds
    (h : HeldAll codec ring ts track.cacheVideoPkts s es) (hb : Builds codec es bs)
    (hlen : es.length = k + 1) (hk : k < 512) (hs : s < 65536) :
    checkFrameComplete codec track s ((s + k) % 65536) = true := by
  rw [checkFrameComplete_held h hlen hk hs, builds_complete hb, beq_self_eq_true]

end Searching

/-- Whether a payload is taken for the beginning of a key frame when it arrives. -/
def KeyPart (codec : PlayCodec) (payload : List UInt8) (key : Bool) : Prop :=
  ∀ (ring : Mem) (p : Nat) (header : RtpHeader), ring.slice p payload.length = payload →
    isKeyframe codec ring
      { header, naluType := codec.naluType (ring p), payload := some p, nb := payload.length } =
      .ret key

section Arriving

variable {codec : PlayCodec} {ring : Mem} {track : PlayTrackH2645} {header : RtpHeader}
  {p nb : Nat} {key : Bool} {payload : List UInt8}

theorem keyPart_raw (hne : payload ≠ []) (hst : codec.naluType (payload.getD 0 0) ≠ codec.stapA)
    (hfu : codec.naluType (payload.getD 0 0) ≠ codec.fuA) :
    KeyPart codec payload (codec.rawKey (codec.naluType (payload.getD 0 0))) := by
  intro ring p header hring
  have hfirst := ring.slice_getD p (List.length_pos_of_ne_nil hne) 0
  rw [hring, Nat.add_zero] at hfirst
  rw [hfirst] at hst hfu ⊢
  simp only [isKeyframe, hst, hfu, if_false]

theorem keyPart_fua2 (hfu : codec.naluType (payload.getD 0 0) = codec.fuA)
    (hne : codec.fuA ≠ codec.stapA) (hlen : codec.fuNalu < payload.length) :
    KeyPart codec payload (codec.fuKey (payload.getD codec.fuNalu 0)) := by
  intro ring p header hring
  have hfirst := ring.slice_getD p (Nat.lt_of_le_of_lt (Nat.zero_le _) hlen) 0
  have hnalu := ring.slice_getD p hlen 0
  rw [hring, Nat.add_zero] at hfirst
  rw [hring] at hnalu
  rw [hfirst] at hfu
  rw [hnalu]
  simp only [isKeyframe, hfu, hne, if_false, if_true, Call.deref_some, Call.ret_bind, Call.pure_eq]

theorem keyPart_stap (hst : codec.naluType (payload.getD 0 0) = codec.stapA)
    (hlen : codec.stapNalu < payload.length) :
    KeyPart codec payload (codec.stapKey (payload.getD codec.stapNalu 0)) := by
  intro ring p header hring
  have hfirst := ring.slice_getD p (Nat.lt_of_le_of_lt (Nat.zero_le _) hlen) 0
  have hnalu := ring.slice_getD p hlen 0
  rw [hring, Nat.add_zero] at hfirst
  rw [hring] at hnalu
  rw [hfirst] at hst
  rw [hnalu]
  simp only [isKeyframe, hst, if_true, Call.deref_some, Call.ret_bind, Call.pure_eq]

theorem rtpSeqDistance_ahead {s k : Nat} (hk : k < 32768) :
    rtpSeqDistance s ((s + k) % 65536) = k := by
  simp only [rtpSeqDistance, Int.bmod]
  split <;> omega

theorem storePacket_bind {α : Type} (codec : PlayCodec) (ring : Mem) (track : PlayTrackH2645)
    (pkt : RtpPacket) (f : PlayTrackH2645 → Call α) :
    (storePacket codec ring track pkt >>= f) =
      (copyPacket codec ring pkt
        { track.cacheVideoPkts (cacheIndex pkt.header.sequence) with inUse := true } >>= fun slot =>
        f { track with
          cacheVideoPkts :=
            Function.update track.cacheVideoPkts (cacheIndex pkt.header.sequence) slot }) := by
  simp only [storePacket, Call.bind_assoc, Call.pure_eq, Call.ret_bind]

/-- A packet that begins no other key frame is stored. Of a key frame, the header goes back to
a packet before it; else the search goes on if the packet is the one waited for. -/
theorem playtrackOnRtp_store (videoTracks : List Nat)
    (hkey : isKeyframe codec ring
      { header, naluType := codec.naluType (ring p), payload := some p, nb } = .ret key)
    (hts : key = true → track.keyFrameTs = header.timestamp) :
    ∃ hasRequestKeyframe plis,
      playtrackOnRtp codec videoTracks ring track { header, payload := some p, nb } = (do
        let track ← storePacket codec ring { track with hasRequestKeyframe, plis }
          { header, naluType := codec.naluType (ring p), payload := some p, nb }
        if key = true ∧ rtpSeqDistance track.headerSn header.sequence < 0 then
          let track := { track with headerSn := header.sequence }
          onNextLost codec ring track (findNextLostSn track header.sequence)
        else if track.lostSn = header.sequence then
          onNextLost codec ring track (findNextLostSn track header.sequence)
        else return (yangOk, track)) := by
  refine ⟨if key then true else track.hasRequestKeyframe,
    if track.hasRequestKeyframe = false then track.plis ++ videoTracks else track.plis, ?_⟩
  have hnoted : (if track.hasRequestKeyframe = false then
      { track with plis := track.plis ++ videoTracks } else track) =
      { track with
        plis := if track.hasRequestKeyframe = false then track.plis ++ videoTracks
          else track.plis } := by
    split <;> rfl
  simp only [playtrackOnRtp, hnoted, Call.deref_some, Call.ret_bind, hkey]
  cases key with
  | true =>
    have hold : ¬ (track.keyFrameTs = -1 ∨ track.keyFrameTs ≠ header.timestamp) := by
      rw [hts rfl]
      omega
    simp only [if_true, packetVideoKeyFrame, newKeyframe, hold, if_false, storePacket_bind,
      true_and]
    congr 1
    funext slot
    split
    · rfl
    · split
      · rename_i hlost
        simp only [hlost]
      · rfl
  | false =>
    simp only [Bool.false_eq_true, if_false, storePacket_bind, false_and]
    congr 1
    funext slot
    split
    · rename_i hlost
      simp only [hlost]
    · rfl

/-- The packet that is waited for is stored, and the search goes on from there. -/
theorem playtrackOnRtp_next (videoTracks : List Nat)
    (hkey : isKeyframe codec ring
      { header, naluType := codec.naluType (ring p), payload := some p, nb } = .ret key)
    (hts : key = true → track.keyFrameTs = header.timestamp)
    (hlost : track.lostSn = header.sequence)
    (hdist : 0 ≤ rtpSeqDistance track.headerSn header.sequence) :
    ∃ hasRequestKeyframe plis,
      playtrackOnRtp codec videoTracks ring track { header, payload := some p, nb } = (do
        let track ← storePacket codec ring { track with hasRequestKeyframe, plis }
          { header, naluType := codec.naluType (ring p), payload := some p, nb }
        onNextLost codec ring track (findNextLostSn track header.sequence)) := by
  have hpos : ¬ (key = true ∧ rtpSeqDistance track.headerSn header.sequence < 0) :=
    fun h => Int.not_lt.mpr hdist h.2
  obtain ⟨hasRequestKeyframe, plis, hstore⟩ := playtrackOnRtp_store videoTracks hkey hts
  refine ⟨hasRequestKeyframe, plis, ?_⟩
  rw [hstore]
  simp only [storePacket_bind, hpos, hlost, if_false, if_true]

/-- The first packet of a key frame other than the one under way clears the cache. -/
theorem playtrackOnRtp_first (videoTracks : List Nat)
    (hkey : isKeyframe codec ring
      { header, naluType := codec.naluType (ring p), payload := some p, nb } = .ret true)
    (hts : track.keyFrameTs ≠ header.timestamp) :
    ∃ hasRequestKeyframe plis,
      playtrackOnRtp codec videoTracks ring track { header, payload := some p, nb } = (do
        let track ← storePacket codec ring
          (clearCachedVideo { track with
            hasRequestKeyframe
            plis
            keyFrameTs := header.timestamp
            headerSn := header.sequence
            lostSn := (header.sequence + 1) % 65536 })
          { header, naluType := codec.naluType (ring p), payload := some p, nb }
        return (yangOk, track)) := by
  refine ⟨true,
    if track.hasRequestKeyframe = false then track.plis ++ videoTracks else track.plis, ?_⟩
  have hnoted : (if track.hasRequestKeyframe = false then
      { track with plis := track.plis ++ videoTracks } else track) =
      { track with
        plis := if track.hasRequestKeyframe = false then track.plis ++ videoTracks
          else track.plis } := by
    split <;> rfl
  have hpos : ¬ rtpSeqDistance header.sequence header.sequence < 0 := by
    simp [rtpSeqDistance]
  have hnext : (header.sequence + 1) % 65536 ≠ header.sequence := by omega
  have hnew : track.keyFrameTs = -1 ∨ track.keyFrameTs ≠ header.timestamp := .inr hts
  simp only [playtrackOnRtp, hnoted, Call.deref_some, Call.ret_bind, hkey, if_true,
    packetVideoKeyFrame, newKeyframe, hnew, storePacket_bind, clearCachedVideo, hpos,
    if_false, hnext, onNextLost, Call.pure_eq]

end Arriving

section Collecting

variable {codec : PlayCodec} {play : PlayStream} {u : RtpUnit} {r s ts : Nat} {es : List Entry}
  {e : Entry} {key : Bool}

/-- The packet waited for is cached, and the search for the end of the frame begins. -/
theorem collect_step (h : Collecting codec play r s u.header.timestamp es) (hp : u.header.Plain)
    (hseq : u.header.sequence = (s + es.length) % 65536) (hlen : es.length < 512)
    (hfit : u.bytes.length ≤ kRtpPacketSize) (hc : Caches codec (u.header.marker, u.payload) e)
    (hkey : KeyPart codec u.payload key)
    (hts : key = true → play.track.keyFrameTs = u.header.timestamp) :
    ∃ rtpBuffer track, rtcplayOnVideoRtp codec play u.bytes = (do
        let (_, track) ← onNextLost codec rtpBuffer.buffer track
          (findNextLostSn track ((s + es.length) % 65536))
        return (yangOk, { play with rtpBuffer, track })) ∧
      CachedFrom codec rtpBuffer track.cacheVideoPkts r s u.header.timestamp (es ++ [e]) ∧
      (∀ k, es.length < k → k < 512 →
        (track.cacheVideoPkts (cacheIndex (s + k))).inUse = false) ∧
      track.headerSn = s ∧ track.keyFrameTs = play.track.keyFrameTs ∧
      track.videoBuffer = play.track.videoBuffer ∧ track.frames = play.track.frames := by
  have hwrap := wrapRtpPacket_unit h.cached.bufLen (cachedFrom_index h.cached) hp
  have hdist : 0 ≤ rtpSeqDistance play.track.headerSn u.header.sequence := by
    rw [h.header, hseq, rtpSeqDistance_ahead (by omega)]
    omega
  obtain ⟨req, plis, hnext⟩ := playtrackOnRtp_next play.videoTracks
    (hkey _ _ u.header (received_payload play.rtpBuffer u)) hts (h.lost.trans hseq.symm) hdist
  obtain ⟨pkt, hstore, hcached⟩ := arrival_caches
    { play.track with hasRequestKeyframe := req, plis } h.cached hlen hfit hseq hc
  refine ⟨_, { play.track with
    hasRequestKeyframe := req
    plis
    cacheVideoPkts :=
      Function.update play.track.cacheVideoPkts (cacheIndex (s + es.length)) pkt }, ?_, hcached, ?_,
    h.header, rfl, rfl, rfl⟩
  · simp only [rtcplayOnVideoRtp, hwrap, ne_eq, not_true_eq_false, if_false, hnext, hstore,
      Call.ret_bind, hseq]
  · intro k hk hk'
    dsimp only
    rw [Function.update_of_ne (cacheIndex_ne (by omega) hk' hlen)]
    exact h.free k (by omega) hk'

/-- A packet that is not the last of its frame is one more collected. -/
theorem collect_next (h : Collecting codec play r s u.header.timestamp es) (hp : u.header.Plain)
    (hseq : u.header.sequence = (s + es.length) % 65536) (hlen : es.length + 1 < 512)
    (hfit : u.bytes.length ≤ kRtpPacketSize) (hc : Caches codec (u.header.marker, u.payload) e)
    (hkey : KeyPart codec u.payload key)
    (hts : key = true → play.track.keyFrameTs = u.header.timestamp) (hl : e.last = false) :
    ∃ play', rtcplayOnVideoRtp codec play u.bytes = .ret (yangOk, play') ∧
      Collecting codec play' r s u.header.timestamp (es ++ [e]) ∧
      play'.track.keyFrameTs = play.track.keyFrameTs ∧
      play'.track.frames = play.track.frames := by
  obtain ⟨rb, track, hstep, hcached, hfree, hheader, hkf, hvideo, hframes⟩ :=
    collect_step h hp hseq (by omega) hfit hc hkey hts
  have hsearch := findNextLostSn_next hheader (fun k hk => (hcached.held k hk).1) hl
    (hfree _ (Nat.lt_succ_self _) hlen)
  have hlength : (es ++ [e]).length = es.length + 1 := by simp
  refine ⟨{ play with
    rtpBuffer := rb
    track := { track with lostSn := (s + (es.length + 1)) % 65536 } }, ?_, ?_, hkf, hframes⟩
  · rw [hstep, hsearch]
    rfl
  · refine ⟨hcached, ?_, hheader, ?_, ?_⟩
    · exact hvideo ▸ h.room
    · exact congrArg (fun n => (s + n) % 65536) hlength.symm
    · intro k hk hk'
      exact hfree k (by omega) hk'

/-- The first packet of a key frame, when the cache holds nothing. -/
theorem collect_first (h : Idle play) (hp : u.header.Plain) (hseq : u.header.sequence < 65536)
    (hfit : u.bytes.length ≤ kRtpPacketSize) (hc : Caches codec (u.header.marker, u.payload) e)
    (hkey : KeyPart codec u.payload true) :
    ∃ play', rtcplayOnVideoRtp codec play u.bytes = .ret (yangOk, play') ∧
      Collecting codec play' play.rtpBuffer.index u.header.sequence u.header.timestamp [e] ∧
      play'.track.keyFrameTs = u.header.timestamp ∧
      play'.track.frames = play.track.frames := by
  have hwrap := wrapRtpPacket_unit h.sound.bufLen h.sound.index hp
  obtain ⟨req, plis, hfirst⟩ := playtrackOnRtp_first play.videoTracks
    (hkey _ _ u.header (received_payload play.rtpBuffer u)) (by rw [h.key]; omega)
  let cleared := clearCachedVideo { play.track with
    hasRequestKeyframe := req
    plis
    keyFrameTs := u.header.timestamp
    headerSn := u.header.sequence
    lostSn := (u.header.sequence + 1) % 65536 }
  have hsame : ∀ x, cleared.cacheVideoPkts (cacheIndex x) =
      play.track.cacheVideoPkts (cacheIndex x) := by
    intro x
    simp only [cleared, clearCachedVideo, h.free x, Bool.false_eq_true, if_false]
  have hnil := cachedFrom_nil codec cleared.cacheVideoPkts u.header.sequence u.header.timestamp
    h.sound.bufLen h.sound.index
  have hzero : u.header.sequence = (u.header.sequence + ([] : List Entry).length) % 65536 :=
    (Nat.mod_eq_of_lt hseq).symm
  obtain ⟨pkt, hstore, hcached⟩ := arrival_caches cleared hnil (by decide) hfit hzero hc
  refine ⟨{ play with
    rtpBuffer := received play.rtpBuffer u.bytes
    track := { cleared with
      cacheVideoPkts :=
        Function.update cleared.cacheVideoPkts (cacheIndex u.header.sequence) pkt } },
    ?_, ⟨hcached, h.sound.room, rfl, rfl, ?_⟩, rfl, rfl⟩
  · simp only [rtcplayOnVideoRtp, hwrap, ne_eq, not_true_eq_false, if_false, hfirst]
    exact congrArg (· >>= _) (congrArg (· >>= _) hstore)
  · intro k hk hk'
    have hother : cacheIndex (u.header.sequence + k) ≠ cacheIndex (u.header.sequence + 0) :=
      cacheIndex_ne (Nat.pos_iff_ne_zero.mp hk) hk' (by decide)
    rw [Nat.add_zero] at hother
    dsimp only
    rw [Function.update_of_ne hother, hsame]
    exact h.free _

/-- Every slot is one of the 512 from a number on. -/
theorem cacheIndex_from (s x : Nat) : ∃ k < 512, cacheIndex x = cacheIndex (s + k) := by
  refine ⟨(x + 512 - s % 512) % 512, Nat.mod_lt _ (by decide), ?_⟩
  rw [cacheIndex_eq, cacheIndex_eq]
  omega

/-- The frame that is there is assembled and handed on, and nothing else is there. -/
theorem packetVideo_builds {ring : Mem} {track : PlayTrackH2645} {n : Nat} {f : Entry}
    {fs : List Entry} {bs : List UInt8} {out : List VideoFrame}
    (hheld : HeldAll codec ring ts track.cacheVideoPkts s (f :: fs))
    (hfree : ∀ k, fs.length < k → k < 512 →
      (track.cacheVideoPkts (cacheIndex (s + k))).inUse = false)
    (hb : Builds codec (f :: fs) bs) (hlen : fs.length + 1 < 512) (hs : s < 65536)
    (hne : f.bytes ≠ []) (hstap : f.naluType = codec.stapA → codec.stapNalu < f.bytes.length)
    (hkf : f.key codec = false → track.keyFrameTs = -1)
    (hroom : track.videoBuffer.room = yangVideoEncodeBufferLen)
    (hfit : 5 + bs.length ≤ yangVideoEncodeBufferLen)
    (hrecv : HandsOn codec (f.key codec) bs ts out) :
    ∃ track', packetVideo codec ring (n + 1) track s ((s + fs.length) % 65536) =
        .ret (yangOk, track') ∧
      track'.headerSn = (s + (fs.length + 1)) % 65536 ∧
      track'.lostSn = (s + (fs.length + 1)) % 65536 ∧ track'.keyFrameTs = -1 ∧
      track'.videoBuffer.room = yangVideoEncodeBufferLen ∧
      (∀ x, (track'.cacheVideoPkts (cacheIndex x)).inUse = false) ∧
      delivered track'.frames = delivered track.frames ++ out := by
  have hlength : (f :: fs).length = fs.length + 1 := rfl
  obtain ⟨cache, buffer, hframe, hbytes, hsame, hreleased⟩ := assembleFrame_builds track hb hheld
    (by omega) hs hne hstap (by rwa [hroom])
  have hts : (track.cacheVideoPkts (cacheIndex s)).ts = ts := heldAll_ts hheld (by simp)
  have hall : ∀ x, (cache (cacheIndex x)).inUse = false := by
    intro x
    obtain ⟨k, hk, hx⟩ := cacheIndex_from s x
    rw [hx]
    by_cases hin : k < fs.length + 1
    · exact hreleased.free k hin
    · rw [hreleased.others]
      · exact hfree k (by omega) hk
      · intro j hj
        exact cacheIndex_ne (by omega) (by omega) hk
  obtain ⟨frames, hput, hout⟩ := hrecv buffer (hsame.trans hroom) hbytes
  have hnot : ¬ 5 + bs.length > yangVideoEncodeBufferLen := by omega
  have hnext : ((s + fs.length) % 65536 + 1) % 65536 = (s + (fs.length + 1)) % 65536 := by omega
  let assembled : PlayTrackH2645 :=
    { track with
      keyFrameTs := if f.key codec then -1 else track.keyFrameTs
      cacheVideoPkts := cache
      videoBuffer := buffer
      headerSn := (s + (fs.length + 1)) % 65536
      frames := track.frames ++ frames }
  have hsearch : findNextLostSn assembled ((s + (fs.length + 1)) % 65536) =
      .lost ((s + (fs.length + 1)) % 65536) := by
    have hloop := findNextLostLoop_free 511 (cache (cacheIndex assembled.headerSn)).ts
      (hall ((s + (fs.length + 1)) % 65536))
    rwa [Nat.mod_mod] at hloop
  refine ⟨{ assembled with lostSn := (s + (fs.length + 1)) % 65536 }, ?_, rfl, rfl, ?_,
    hsame.trans hroom, hall, ?_⟩
  · simp only [packetVideo, hts, hframe, Call.ret_bind, putFrameVideo, hnot, if_false, hput,
      Call.pure_eq, hnext]
    simp only [assembled] at hsearch ⊢
    rw [hsearch]
  · show (if f.key codec then -1 else track.keyFrameTs) = -1
    split
    · rfl
    · rename_i hkey
      exact hkf (by simpa using hkey)
  · show delivered (track.frames ++ frames) = _
    rw [← hout]
    exact List.filter_append _ _

/-- The first packet of a frame, which tells its kind. -/
structure Leading (codec : PlayCodec) (e : Entry) : Prop where
  bytes : e.bytes ≠ []
  stap : e.naluType = codec.stapA → codec.stapNalu < e.bytes.length

/-- The last packet of a frame: it is handed on, and the next number is waited for. -/
theorem collect_last {f : Entry} {fs : List Entry} {bs : List UInt8} {out : List VideoFrame}
    (h : Collecting codec play r s u.header.timestamp es) (hp : u.header.Plain)
    (hseq : u.header.sequence = (s + es.length) % 65536) (hs : s < 65536)
    (hlen : es.length + 1 < 512) (hfit : u.bytes.length ≤ kRtpPacketSize)
    (hc : Caches codec (u.header.marker, u.payload) e) (hkey : KeyPart codec u.payload key)
    (hts : key = true → play.track.keyFrameTs = u.header.timestamp) (hl : e.last = true)
    (hes : es ++ [e] = f :: fs) (hb : Builds codec (f :: fs) bs) (hlead : Leading codec f)
    (hkf : f.key codec = false → play.track.keyFrameTs = -1)
    (hroom : 5 + bs.length ≤ yangVideoEncodeBufferLen)
    (hrecv : HandsOn codec (f.key codec) bs u.header.timestamp out) :
    ∃ play', rtcplayOnVideoRtp codec play u.bytes = .ret (yangOk, play') ∧
      Waiting play' ((s + (es.length + 1)) % 65536) ∧
      delivered play'.track.frames = delivered play.track.frames ++ out := by
  obtain ⟨rb, track, hstep, hcached, hfree, hheader, hkts, hvideo, hframes⟩ :=
    collect_step h hp hseq (by omega) hfit hc hkey hts
  have hheld : HeldAll codec rb.buffer u.header.timestamp track.cacheVideoPkts s (es ++ [e]) :=
    fun k hk => (hcached.held k hk).1
  have hsearch := findNextLostSn_last hheader hheld hl
  rw [hes] at hheld hcached
  have hcount : es.length = fs.length := by
    have hlength := congrArg List.length hes
    simpa using hlength
  have hcomplete := checkFrameComplete_builds hheld hb rfl (by omega) hs
  rw [← hcount] at hcomplete
  obtain ⟨track', hpacket, hheader', hlost', hkts', hroom', hfree', hframes'⟩ :=
    packetVideo_builds (n := yangRtcRecvBufferCount) hheld (by rwa [← hcount]) hb (by omega) hs
      hlead.bytes hlead.stap (fun hk => hkts.trans (hkf hk)) (by rw [hvideo, h.room]) hroom hrecv
  rw [← hcount] at hpacket hheader' hlost'
  have hindex := cachedFrom_index hcached
  refine ⟨{ play with rtpBuffer := rb, track := track' }, ?_,
    ⟨⟨⟨hcached.bufLen, hindex, hroom'⟩, hkts', hfree'⟩, hheader', hlost'⟩, ?_⟩
  · rw [hstep, hsearch]
    simp only [onNextLost, hheader, hcomplete, if_true, hpacket, Call.ret_bind, Call.pure_eq]
  · show delivered track'.frames = _
    rw [hframes', hframes]

end Collecting

/-- The packets of a frame as they are cached. Only the last one has the marker. -/
inductive FrameParts (codec : PlayCodec) : List Part → List Entry → Prop
  | last {part : Part} {e : Entry} : Caches codec part e → e.last = true →
      FrameParts codec [part] [e]
  | cons {part : Part} {e : Entry} {parts : List Part} {es : List Entry} : Caches codec part e →
      e.last = false → FrameParts codec parts es → FrameParts codec (part :: parts) (e :: es)

/-- None of these payloads begins a key frame other than the one under way. -/
def KeySafe (codec : PlayCodec) (parts : List Part) (keyFrameTs : Int) (ts : Nat) : Prop :=
  ∀ part ∈ parts, ∃ key, KeyPart codec part.2 key ∧ (key = true → keyFrameTs = ts)

section Frames

variable {codec : PlayCodec} {play : PlayStream} {payloadType ssrc r s : Nat} {pts : Int}
  {es fs : List Entry} {parts : List Part}

theorem receiveAll_append (codec : PlayCodec) (xs ys : List (List UInt8)) (play : PlayStream) :
    receiveAll codec (xs ++ ys) play = receiveAll codec xs play >>= receiveAll codec ys := by
  induction xs generalizing play with
  | nil => rfl
  | cons x xs ih =>
    simp only [List.cons_append, receiveAll, Call.bind_assoc]
    exact congrArg _ (funext fun _ => ih _)

/-- All packets of a frame, one after the other: it is handed on. -/
theorem receiveAll_frame {f : Entry} {gs : List Entry} {bs : List UInt8}
    {out : List VideoFrame} (hf : FrameParts codec parts fs)
    (h : Collecting codec play r s (pts % 2 ^ 32).toNat es) (hp : payloadType < 128)
    (hssrc : ssrc < 2 ^ 32) (hs : s < 65536) (hlen : es.length + fs.length < 512)
    (hfit : ∀ part ∈ parts, 12 + part.2.length ≤ kRtpPacketSize)
    (hkey : KeySafe codec parts play.track.keyFrameTs (pts % 2 ^ 32).toNat)
    (hes : es ++ fs = f :: gs) (hb : Builds codec (f :: gs) bs) (hlead : Leading codec f)
    (hkf : f.key codec = false → play.track.keyFrameTs = -1)
    (hroom : 5 + bs.length ≤ yangVideoEncodeBufferLen)
    (hrecv : HandsOn codec (f.key codec) bs (pts % 2 ^ 32).toNat out) :
    ∃ play', receiveAll codec ((numbered payloadType ssrc pts ((s + es.length) % 65536) parts).map
        RtpUnit.bytes) play = .ret play' ∧
      Waiting play' ((s + es.length + parts.length) % 65536) ∧
      delivered play'.track.frames = delivered play.track.frames ++ out := by
  induction hf generalizing play es with
  | @last part e hc hl =>
    obtain ⟨key, hpart, hts⟩ := hkey part List.mem_cons_self
    let u : RtpUnit :=
      { header :=
          { payloadType, ssrc
            marker := part.1
            sequence := (s + es.length) % 65536
            timestamp := (pts % 2 ^ 32).toNat }
        payload := part.2 }
    have hplain : u.header.Plain :=
      numbered_plain hp hssrc (Nat.mod_lt (s + es.length) (by omega)) [part] u List.mem_cons_self
    have hu : u.bytes.length ≤ kRtpPacketSize := by
      simpa [u, RtpUnit.bytes] using hfit part List.mem_cons_self
    obtain ⟨play', hone, hwait, hframes⟩ := collect_last (u := u) h hplain rfl hs hlen hu hc hpart
      hts hl hes hb hlead hkf hroom hrecv
    exact ⟨play', Call.bind_eq_ret.mpr ⟨_, hone, rfl⟩, hwait, hframes⟩
  | @cons part e parts fs hc hl hrest ih =>
    rw [List.length_cons] at hlen
    obtain ⟨key, hpart, hts⟩ := hkey part List.mem_cons_self
    let u : RtpUnit :=
      { header :=
          { payloadType, ssrc
            marker := part.1
            sequence := (s + es.length) % 65536
            timestamp := (pts % 2 ^ 32).toNat }
        payload := part.2 }
    have hplain : u.header.Plain := numbered_plain hp hssrc (Nat.mod_lt (s + es.length) (by omega))
      (part :: parts) u List.mem_cons_self
    have hu : u.bytes.length ≤ kRtpPacketSize := by
      simpa [u, RtpUnit.bytes] using hfit part List.mem_cons_self
    obtain ⟨mid, hone, hmid, hkts, hframes⟩ := collect_next (u := u) h hplain rfl (by omega) hu hc
      hpart hts hl
    have hlength : (es ++ [e]).length = es.length + 1 := by simp
    have hseq : (s + (es ++ [e]).length) % 65536 = ((s + es.length) % 65536 + 1) % 65536 := by
      rw [hlength]
      omega
    obtain ⟨play', hall, hwait, hframes'⟩ := ih hmid (by omega)
      (fun p hp => hfit p (List.mem_cons_of_mem _ hp))
      (fun p hp => hkts ▸ hkey p (List.mem_cons_of_mem _ hp)) (by simpa using hes)
      (fun hk => hkts.trans (hkf hk))
    rw [hseq] at hall
    refine ⟨play', Call.bind_eq_ret.mpr ⟨_, hone, hall⟩, ?_, by rw [hframes', hframes]⟩
    have hend : s + (es ++ [e]).length + parts.length = s + es.length + (part :: parts).length := by
      rw [hlength, List.length_cons]
      omega
    rwa [hend] at hwait

end Frames

end MetaRtc
