import MetaRtc.Play.Collect
import MetaRtc.Play.Pieces

/-! # Frames that fit the video buffer

The loop over the packets of a frame does not look at how much it has written. What a frame
needs is the sum of what its packets add. -/
namespace MetaRtc

open Bytes Exec

/-- What a piece takes of the video buffer. -/
def Piece.size (codec : PlayCodec) : Piece → Nat
  | .fragment fua2 bytes =>
    if fua2.start then 4 + (codec.fuNaluHeader fua2).length + bytes.length else bytes.length
  | .units nalus => (nalus.map fun nalu => 4 + nalu.length).sum

/-- However large its buffer is taken to be, after each of its packets the assembly of the
frame stands inside the video buffer. -/
def NoOverrun (codec : PlayCodec) (ring : Mem) (t : PlayTrackH2645) (s l : Nat) : Prop :=
  ∀ room m cache out, m ≤ frameCount s l →
    assembleLoop codec ring s m 0 t.cacheVideoPkts ⟨⟨t.videoBuffer.data, room⟩, 5, 0⟩ =
      .ret (cache, out) → out.p ≤ yangVideoEncodeBufferLen

def FramesInside (codec : PlayCodec) (play : RtcPlay) (e : PlayEvent) : Prop :=
  ∀ ring t s l, e.Assembling codec play ring t s l → NoOverrun codec ring t s l

/-- The head of each frame that the datagram completes and the pieces of its packets are not
larger than the video buffer. -/
def PlayEvent.Fits (codec : PlayCodec) (play : RtcPlay) (e : PlayEvent) : Prop :=
  ∀ ring t s l, e.Assembling codec play ring t s l →
    5 + ((framePieces codec ring t s l).map (Piece.size codec)).sum ≤ yangVideoEncodeBufferLen

section Sizes

variable {codec : PlayCodec} {ring : Mem} {out out' : Output} {bs : List UInt8} {start m k i : Nat}
  {cache : Nat → PacketCache}

theorem put_p (h : out.put bs = .ret out') : out'.p = out.p + bs.length := by
  obtain ⟨buffer, -, hret⟩ := Call.bind_eq_ret.mp h
  cases hret
  rfl

theorem putFua2_p {fua2 : Fua2DataCache} (h : out.putFua2 codec fua2 bs = .ret out') :
    out'.p = out.p + (Piece.fragment fua2 bs).size codec := by
  simp only [Output.putFua2] at h
  simp only [Piece.size]
  split at h
  · rename_i hs
    rw [if_pos hs, put_p h, List.length_append]
    dsimp only
    omega
  · rename_i hs
    obtain ⟨mid, hput, hrest⟩ := Call.bind_eq_ret.mp h
    have hmid := put_p hput
    rw [if_neg hs]
    split at hrest
    · obtain ⟨buffer, -, hret⟩ := Call.bind_eq_ret.mp hrest
      cases hret
      exact hmid
    · cases hrest
      exact hmid

theorem putUnits_p {nalus : List (List UInt8)} (h : out.putUnits nalus = .ret out') :
    out'.p = out.p + (Piece.units nalus).size codec := by
  induction nalus generalizing out with
  | nil =>
    cases h
    rfl
  | cons nalu rest ih =>
    obtain ⟨mid, hput, hrest⟩ := Call.bind_eq_ret.mp h
    have hmid := put_p hput
    rw [List.length_append, beBytes_length] at hmid
    rw [ih hrest, hmid]
    simp only [Piece.size, List.map_cons, List.sum_cons]
    omega

/-- The place of the next byte moves by the sizes of the pieces. -/
theorem putPieces_p {pieces : List Piece} (h : out.putPieces codec pieces = .ret out') :
    out'.p = out.p + (pieces.map (Piece.size codec)).sum := by
  induction pieces generalizing out with
  | nil =>
    cases h
    rfl
  | cons piece rest ih =>
    obtain ⟨mid, hput, hrest⟩ := Call.bind_eq_ret.mp h
    have hmid : mid.p = out.p + piece.size codec := by
      cases piece with
      | fragment fua2 bytes => exact putFua2_p hput
      | units nalus => exact putUnits_p hput
    rw [ih hrest, hmid, List.map_cons, List.sum_cons]
    omega

theorem piecesFrom_append : piecesFrom codec ring start cache (m + k) i =
    piecesFrom codec ring start cache m i ++ piecesFrom codec ring start cache k (i + m) := by
  induction m generalizing i with
  | zero => simp [piecesFrom]
  | succ m ih =>
    rw [Nat.succ_add, piecesFrom, piecesFrom, ih, List.cons_append, Nat.add_right_comm,
      Nat.add_assoc]

/-- A frame whose pieces have room never leaves the video buffer. -/
theorem fits_noOverrun {t : PlayTrackH2645} {s l : Nat}
    (h : 5 + ((framePieces codec ring t s l).map (Piece.size codec)).sum ≤
      yangVideoEncodeBufferLen) : NoOverrun codec ring t s l := by
  intro room m cache out hm hloop
  obtain ⟨k, hk⟩ := Nat.exists_eq_add_of_le hm
  have hp := putPieces_p (assembleLoop_pieces (i := 0) hloop)
  rw [framePieces, hk, piecesFrom_append, List.map_append, List.sum_append] at h
  dsimp only at hp
  omega

/-- **The video buffer.** In every run whose frames are not larger than the buffer, head and
lengths included, no assembly of a frame writes past it. -/
theorem frames_inside (codec : PlayCodec) (play : RtcPlay) (es : List PlayEvent)
    (h : Run.Throughout (PlayStep codec) (fun play e => e.Fits codec play) es play) :
    Run.Throughout (PlayStep codec) (FramesInside codec) es play :=
  Run.throughout_imp (fun _ => True)
    (fun _ _ _ he ring t s l hasm => fits_noOverrun (he ring t s l hasm))
    (fun _ _ _ _ _ _ => trivial) trivial h

theorem frames_inside_one : FramesInside playH264 listeningPlay (unitEvent onlyUnit) := by
  have hfits : (unitEvent onlyUnit).Fits playH264 listeningPlay := by
    intro ring t s l hasm
    rw [onlyUnit_assembling hasm]
    decide
  exact (frames_inside playH264 listeningPlay [unitEvent onlyUnit] ⟨hfits, fun _ _ => trivial⟩).1

end Sizes

section Overrun

/-- A packet of a large frame: a slice of as many bytes as fit one, the last of 401. -/
def sliceUnit (k : Nat) : RtpUnit :=
  ⟨{ payloadType := 96, sequence := k, ssrc := 2, marker := decide (k = 400) },
    0x41 :: List.replicate 1487 0⟩

def sliceEntry (last : Bool) : Entry := ⟨last, 1, {}, 0x41 :: List.replicate 1487 0⟩

theorem sliceUnit_plain {k : Nat} (hk : k < 65536) : (sliceUnit k).header.Plain :=
  ⟨rfl, rfl, rfl, rfl, rfl, (by decide : 96 < 128), hk, (by decide : 0 < 2 ^ 32),
    (by decide : 2 < 2 ^ 32)⟩

theorem sliceUnit_length (k : Nat) : (sliceUnit k).bytes.length = 1500 := by
  simp [RtpUnit.bytes, sliceUnit, -List.reduceReplicate]

theorem sliceUnit_caches (k : Nat) :
    Caches playH264 ((sliceUnit k).header.marker, (sliceUnit k).payload)
      (sliceEntry (decide (k = 400))) :=
  caches_raw (List.cons_ne_nil _ _) (by decide)

theorem sliceUnit_key (k : Nat) : KeyPart playH264 (sliceUnit k).payload false :=
  keyPart_raw (List.cons_ne_nil _ _) (by decide) (by decide)

/-- All but the last are collected, one after the other. -/
theorem slices_collected (k : Nat) (hk : k ≤ 400) : ∃ play,
    Run.Leads (PlayStep playH264) ((List.range k).map fun i => unitEvent (sliceUnit i))
      listeningPlay play ∧ Listening play ∧
    Collecting playH264 play.stream 0 0 0 (List.replicate k (sliceEntry false)) := by
  induction k with
  | zero =>
    refine ⟨listeningPlay, .nil _, listening_start, ?_⟩
    exact ⟨cachedFrom_nil _ _ _ _ rfl (by decide), rfl, rfl, rfl, fun _ _ _ => rfl⟩
  | succ k ih =>
    obtain ⟨play, hl, hlisten, hcollect⟩ := ih (by omega)
    have hc := sliceUnit_caches k
    rw [decide_eq_false (by omega : k ≠ 400)] at hc
    have hseq : k = (0 + (List.replicate k (sliceEntry false)).length) % 65536 := by
      rw [List.length_replicate]
      omega
    obtain ⟨stream, hret, hnext, -⟩ := collect_next (u := sliceUnit k) hcollect
      (sliceUnit_plain (by omega)) hseq (by rw [List.length_replicate]; omega)
      (Nat.le_of_eq (sliceUnit_length k)) hc (sliceUnit_key k) (fun hno => nomatch hno) rfl
    obtain ⟨play', hstep, hlisten', hstream⟩ := playStep_videoRtp hlisten
      (sliceUnit_plain (by omega)) rfl hret
    refine ⟨play', ?_, hlisten', ?_⟩
    · rw [List.range_succ, List.map_append]
      exact Run.leads_concat hl hstep
    · rw [hstream, List.replicate_succ']
      exact hnext

variable {codec : PlayCodec} {ring : Mem} {track : PlayTrackH2645} {header : RtpHeader} {p nb : Nat}

/-- A packet that is waited for and begins no key frame is stored, and the search goes on. -/
theorem playtrackArrive_next (videoTracks : List Nat)
    (hkey : isKeyframe codec ring
      { header, naluType := codec.naluType (ring p), payload := some p, nb } = .ret false)
    (hlost : track.lostSn = header.sequence) : ∃ plis,
    playtrackArrive codec videoTracks ring track { header, payload := some p, nb } = (do
      let track ← storePacket codec ring { track with plis }
        { header, naluType := codec.naluType (ring p), payload := some p, nb }
      return (track, some header.sequence)) := by
  refine ⟨if track.hasRequestKeyframe = false then track.plis ++ videoTracks else track.plis, ?_⟩
  have hready : playtrackReady videoTracks track false header =
      { track with
        plis := if track.hasRequestKeyframe = false then track.plis ++ videoTracks
          else track.plis } := by
    unfold playtrackReady
    split <;> rfl
  unfold playtrackArrive
  simp only [Call.deref_some, Call.ret_bind, hkey, hready, Bool.false_eq_true, false_and, if_false,
    storePacket_bind, hlost, if_true]

/-- Single units build themselves. -/
theorem builds_raw {es : List Entry} (h : ∀ e ∈ es, e.naluType ≠ codec.fuA ∧
    e.naluType ≠ codec.stapA ∧ e.bytes ≠ []) :
    Builds codec es (es.flatMap fun e => behindLength e.bytes) := by
  induction es with
  | nil => exact .nil
  | cons e es ih =>
    obtain ⟨hfu, hst, hne⟩ := h e List.mem_cons_self
    exact .raw e hfu hst hne (ih fun e he => h e (List.mem_cons_of_mem _ he))

theorem flatMap_behindLength_length {es : List Entry} {n : Nat} (h : ∀ e ∈ es, e.bytes.length = n) :
    (es.flatMap fun e => behindLength e.bytes).length = es.length * (4 + n) := by
  induction es with
  | nil => simp
  | cons e es ih =>
    rw [List.flatMap_cons, List.length_append, ih fun e he => h e (List.mem_cons_of_mem _ he),
      behindLength, List.length_append, beBytes_length, h e List.mem_cons_self, List.length_cons,
      Nat.succ_mul]
    omega

/-- A frame of 401 packets of 1500 bytes each. Its assembly would write 598297 bytes. -/
theorem large_frame_overrun : ∃ play,
    Run.Leads (PlayStep playH264) ((List.range 400).map fun i => unitEvent (sliceUnit i))
      listeningPlay play ∧ ¬ FramesInside playH264 play (unitEvent (sliceUnit 400)) := by
  obtain ⟨play, hl, hlisten, hcollect⟩ := slices_collected 400 (Nat.le_refl _)
  refine ⟨play, hl, fun hall => ?_⟩
  have hp : (sliceUnit 400).header.Plain := sliceUnit_plain (by decide)
  have hlen : (List.replicate 400 (sliceEntry false)).length = 400 := List.length_replicate
  let rb := received play.stream.rtpBuffer (sliceUnit 400).bytes
  have hpkt : videoPacket play (sliceUnit 400).bytes = some
      { header := (sliceUnit 400).header
        payload := some (payloadAt play.stream.rtpBuffer)
        nb := (sliceUnit 400).payload.length } := by
    have haudio : playtrackHasSsrc play.audio (sliceUnit 400).header.ssrc = false := hlisten.notAudio
    have hvideo : playtrackHasSsrc play.video (sliceUnit 400).header.ssrc = true := hlisten.video
    simp only [videoPacket, wrapRtpPacket_unit hlisten.bufLen hlisten.index hp, haudio, hvideo,
      and_self, if_true]
  obtain ⟨plis, hnext⟩ := playtrackArrive_next play.stream.videoTracks
    (sliceUnit_key 400 _ _ (sliceUnit 400).header (received_payload play.stream.rtpBuffer _))
    (by rw [hcollect.lost, hlen]; rfl)
  obtain ⟨pkt, hstore, hcached⟩ := arrival_caches { play.stream.track with plis } hcollect.cached
    (by rw [hlen]; decide) (Nat.le_of_eq (sliceUnit_length 400)) (by rw [hlen]; rfl)
    (sliceUnit_caches 400)
  generalize Function.update play.stream.track.cacheVideoPkts
    (cacheIndex (0 + (List.replicate 400 (sliceEntry false)).length)) pkt = cache
    at hstore hcached
  let t : PlayTrackH2645 := { play.stream.track with plis, cacheVideoPkts := cache }
  have hheld : HeldAll playH264 rb.buffer 0 t.cacheVideoPkts 0
      (List.replicate 400 (sliceEntry false) ++ [sliceEntry true]) :=
    fun k hk => (hcached.held k hk).1
  have hslice : ∀ e ∈ List.replicate 400 (sliceEntry false) ++ [sliceEntry true],
      ∃ last, e = sliceEntry last := by
    intro e he
    rcases List.mem_append.mp he with he | he
    · exact ⟨false, (List.mem_replicate.mp he).2⟩
    · exact ⟨true, List.mem_singleton.mp he⟩
  have hbuilds : Builds playH264 (List.replicate 400 (sliceEntry false) ++ [sliceEntry true]) _ :=
    builds_raw fun e he => by
      obtain ⟨last, rfl⟩ := hslice e he
      exact ⟨(by decide : (1 : UInt8) ≠ kFuA), (by decide : (1 : UInt8) ≠ kStapA),
        List.cons_ne_nil _ _⟩
  have hlength := flatMap_behindLength_length (n := 1488) fun e he => by
    obtain ⟨last, rfl⟩ := hslice e he
    rw [sliceEntry, List.length_cons, List.length_replicate]
  have hes : (List.replicate 400 (sliceEntry false) ++ [sliceEntry true]).length = 401 := by
    rw [List.length_append, hlen]
    rfl
  have hsearch : findNextLostSn t _ = .frame _ :=
    findNextLostSn_last hcollect.header hheld rfl
  have hcomplete := checkFrameComplete_builds hheld hbuilds hes (by decide) (by decide)
  rw [hlen] at hsearch
  have hring : (copied play (sliceUnit 400).bytes).rtpBuffer = rb :=
    copied_ring hlisten.bufLen hlisten.index _
  have hcall : (unitEvent (sliceUnit 400)).Assembling playH264 play rb.buffer t 0 400 := by
    refine ⟨t, 400, 400, ⟨_, _, unitEvent_plaintext _, hpkt, by rw [hring], ?_⟩, hsearch, ?_, ?_⟩
    · rw [hnext, hstore]
      rfl
    · rw [show t.headerSn = 0 from hcollect.header]
      exact hcomplete
    · rw [show t.headerSn = 0 from hcollect.header]
      exact .here _ _ _ _
  rw [hes] at hlength
  obtain ⟨cache', out, hloop, hwrote, -⟩ := assembleLoop_builds
    ⟨⟨t.videoBuffer.data, 1000000⟩, 5, 0⟩ hbuilds (i := 0) hheld (by rw [hes]; decide)
    (by rw [hlength]; exact (by decide : 5 + 401 * (4 + 1488) ≤ 1000000))
  rw [hes] at hloop
  have hle := hall _ _ _ _ hcall 1000000 401 cache' out (by decide) hloop
  rw [hwrote.p, hlength] at hle
  exact absurd hle (by decide : ¬ 5 + 401 * (4 + 1488) ≤ yangVideoEncodeBufferLen)

end Overrun

end MetaRtc
