import MetaRtc.Play.Arrive
import MetaRtc.Play.Collect

/-! # How long the ring keeps a packet

The ring is shared by both media. A slot of the video cache points at what came with its
number for as long as its slot of the ring is not used again. -/
namespace MetaRtc

open Bytes Exec

/-- A packet of the video as it came: its number and its payload. -/
structure Arrival where
  sequence : Nat
  payload : List UInt8
  deriving DecidableEq

def arrivalOf (play : RtcPlay) (plaintext : List UInt8) : Option Arrival :=
  (videoPacket play plaintext).bind fun pkt => pkt.payload.map fun p =>
    ⟨pkt.header.sequence,
      (plaintext.drop (p - (getRtpBuffer play.stream.rtpBuffer).1)).take pkt.nb⟩

/-- The stream, and what has been copied to its ring, the newest first. -/
structure RingWorld where
  play : RtcPlay
  copied : List (Option Arrival) := []

def RingStep (codec : PlayCodec) (w : RingWorld) (e : PlayEvent) (w' : RingWorld) : Prop :=
  PlayStep codec w.play e w'.play ∧
    w'.copied = match e.plaintext with
      | some plaintext => arrivalOf w.play plaintext :: w.copied
      | none => w.copied

/-- The newest packet of that number, and how many were copied after it. -/
inductive Newest (sn : Nat) : List (Option Arrival) → Nat → Arrival → Prop
  | here {a : Arrival} (rest : List (Option Arrival)) : a.sequence = sn →
      Newest sn (some a :: rest) 0 a
  | later {c : Option Arrival} {rest : List (Option Arrival)} {k : Nat} {a : Arrival} :
      (∀ b, c = some b → b.sequence ≠ sn) → Newest sn rest k a → Newest sn (c :: rest) (k + 1) a

/-- What a slot's pointer reaches. -/
def slotBytes (ring : Mem) (pkt : PacketCache) : List UInt8 :=
  match pkt.payload with
  | some p => ring.slice p pkt.nb
  | none => []

/-- What is cached of a payload: of a fragment, what is behind its headers. -/
def cachedBytes (codec : PlayCodec) (payload : List UInt8) : List UInt8 :=
  if codec.naluType (payload.getD 0 0) = codec.fuA ∧ codec.fuNalu < payload.length then
    payload.drop (codec.fuNalu + 1)
  else payload

/-- Each slot in use reaches the payload that came with its number. -/
def CacheFaithful (codec : PlayCodec) (w : RingWorld) : Prop :=
  ∀ j, (w.play.stream.track.cacheVideoPkts j).inUse = true →
    ∃ k a, Newest (w.play.stream.track.cacheVideoPkts j).sn w.copied k a ∧
      slotBytes w.play.stream.rtpBuffer.buffer (w.play.stream.track.cacheVideoPkts j) =
        cachedBytes codec a.payload

/-- The packet fits a slot of the ring, and what is in use of the cache came less than 1500
packets ago. -/
def PlayEvent.Timely (e : PlayEvent) (w : RingWorld) : Prop :=
  ∀ plaintext, e.plaintext = some plaintext →
    plaintext.length ≤ kRtpPacketSize ∧
    ∀ j, (w.play.stream.track.cacheVideoPkts j).inUse = true →
      ∀ k a, Newest (w.play.stream.track.cacheVideoPkts j).sn w.copied k a → k + 1 < 1500

section Copying

variable {codec : PlayCodec} {ring : Mem} {src : RtpPacket} {slot pkt : PacketCache} {p : Nat}

/-- Both codecs' decoders of a fragment stop behind its headers, if it has them whole. -/
def SkipsHeaders (codec : PlayCodec) : Prop :=
  ∀ m n old, (codec.decodeFua2 (initBuffer m n) old).2.2 =
    if codec.fuNalu < n then (initBuffer m n).take (codec.fuNalu + 1) else initBuffer m n

theorem skipsHeaders (hcodec : codec = playH264 ∨ codec = playH265) : SkipsHeaders codec := by
  intro m n old
  have hreq : ∀ k : Nat, (initBuffer m n).require k = decide (k ≤ n) := by
    intro k
    rw [Bool.eq_iff_iff, YangBuffer.require_iff]
    simp [YangBuffer.left, initBuffer]
  rcases hcodec with rfl | rfl
  · have h2 : (initBuffer m n).require 2 = decide (2 ≤ n) := hreq 2
    show (decodeH264Fua2 _ _).2.2 = if 1 < n then (initBuffer m n).take 2 else initBuffer m n
    simp only [decodeH264Fua2, h2]
    by_cases hn : 2 ≤ n
    · rw [if_pos (show 1 < n from hn)]
      simp only [hn, decide_true, Bool.not_true, Bool.false_eq_true, if_false,
        YangBuffer.take_take]
      split <;> rfl
    · rw [if_neg (show ¬ 1 < n from hn)]
      simp [hn]
  · have h3 : (initBuffer m n).require 3 = decide (3 ≤ n) := hreq 3
    show (decodeH265Fua2 _ _).2.2 = if 2 < n then (initBuffer m n).take 3 else initBuffer m n
    simp only [decodeH265Fua2, h3]
    by_cases hn : 3 ≤ n
    · rw [if_pos (show 2 < n from hn)]
      simp only [hn, decide_true, Bool.not_true, Bool.false_eq_true, if_false,
        YangBuffer.take_take]
      split <;> rfl
    · rw [if_neg (show ¬ 2 < n from hn)]
      simp [hn]

/-- The slot a packet is copied to reaches its payload. -/
theorem copyPacket_bytes (hskip : SkipsHeaders codec) (hp : src.payload = some p)
    (htype : src.naluType = codec.naluType (ring p)) (h : copyPacket codec ring src slot = .ret pkt) :
    pkt.inUse = slot.inUse ∧ pkt.sn = src.header.sequence ∧
    (∃ q, pkt.payload = some q ∧ p ≤ q ∧ q + pkt.nb = p + src.nb) ∧
    slotBytes ring pkt = cachedBytes codec (ring.slice p src.nb) := by
  have hfirst : 0 < src.nb → (ring.slice p src.nb).getD 0 0 = ring p := fun hnb => by
    rw [Mem.slice_getD _ _ hnb, Nat.add_zero]
  unfold copyPacket at h
  dsimp only at h
  split at h
  · rename_i hfu
    obtain ⟨q, hq, h⟩ := Call.bind_eq_ret.mp h
    obtain rfl : q = p := Option.some.inj ((Call.deref_eq_ret.mp hq).symm.trans hp)
    have hbuf := hskip (ring.drop q) src.nb slot.fua2
    rw [htype] at hfu
    cases h
    refine ⟨rfl, rfl, ?_, ?_⟩
    · rw [hbuf]
      split
      · rename_i hlen
        refine ⟨_, rfl, ?_, ?_⟩
        · omega
        · simp [YangBuffer.left, initBuffer]
          omega
      · exact ⟨_, rfl, Nat.le_refl _, by simp [YangBuffer.left, initBuffer]⟩
    · simp only [slotBytes, hbuf, cachedBytes, Mem.slice_length]
      split
      · rename_i hlen
        rw [hfirst (by omega), if_pos ⟨hfu, hlen⟩, Mem.drop_slice]
        simp [YangBuffer.left, initBuffer]
        congr 1
        omega
      · rename_i hlen
        rw [if_neg fun hno => hlen hno.2]
        simp [YangBuffer.left, initBuffer]
  · rename_i hfu
    rw [htype] at hfu
    cases h
    refine ⟨rfl, rfl, ⟨p, hp, Nat.le_refl _, rfl⟩, ?_⟩
    simp only [slotBytes, hp, cachedBytes, Mem.slice_length]
    rw [if_neg]
    rintro ⟨hno, hlen⟩
    rw [hfirst (by omega)] at hno
    exact hfu hno

end Copying

section Receiving

variable {play : RtcPlay} {plaintext : List UInt8} {pkt : RtpPacket} {p : Nat}

/-- The payload given to the video track lies in the slot of the ring just filled. -/
theorem videoPacket_inside (hlen : play.stream.rtpBuffer.bufLen = 1500)
    (hidx : play.stream.rtpBuffer.index < 1500) (h : videoPacket play plaintext = some pkt)
    (hp : pkt.payload = some p) :
    kRtpPacketSize * ((play.stream.rtpBuffer.index + 1) % 1500) ≤ p ∧
      p + pkt.nb ≤
        kRtpPacketSize * ((play.stream.rtpBuffer.index + 1) % 1500) + plaintext.length := by
  simp only [videoPacket, wrapRtpPacket, getRtpBuffer_ring hlen hidx] at h
  split at h
  · cases h
    obtain ⟨q, hq, rfl⟩ := Option.map_eq_some_iff.mp hp
    refine ⟨Nat.le_add_right _ _, ?_⟩
    rw [Nat.add_assoc]
    exact Nat.add_le_add_left (decodeRtpPacket_inside rfl hq) _
  · cases h

theorem arrivalOf_video (hlen : play.stream.rtpBuffer.bufLen = 1500)
    (hidx : play.stream.rtpBuffer.index < 1500) (h : videoPacket play plaintext = some pkt)
    (hp : pkt.payload = some p) :
    arrivalOf play plaintext = some ⟨pkt.header.sequence,
      (received play.stream.rtpBuffer plaintext).buffer.slice p pkt.nb⟩ := by
  obtain ⟨hlo, hhi⟩ := videoPacket_inside hlen hidx h hp
  have hbytes : (plaintext.drop (p - kRtpPacketSize *
      ((play.stream.rtpBuffer.index + 1) % 1500))).take pkt.nb =
      (received play.stream.rtpBuffer plaintext).buffer.slice p pkt.nb := by
    have hall := play.stream.rtpBuffer.buffer.slice_write
      (kRtpPacketSize * ((play.stream.rtpBuffer.index + 1) % 1500)) plaintext
    obtain ⟨k, rfl⟩ := Nat.exists_eq_add_of_le hlo
    obtain ⟨rest, hrest⟩ : ∃ rest, plaintext.length - k = pkt.nb + rest :=
      Nat.exists_eq_add_of_le (by omega)
    have hdrop := congrArg (List.drop k) hall
    rw [Mem.drop_slice, hrest, Mem.slice_append] at hdrop
    rw [Nat.add_sub_cancel_left, ← hdrop, List.take_left' (Mem.slice_length _ _ _)]
    rfl
  simp only [arrivalOf, h, Option.bind_some, hp, Option.map_some, getRtpBuffer_ring hlen hidx,
    hbytes]

/-- What points into another slot of the ring than the one filled reaches what it did. -/
theorem slotBytes_received {rtpBuffer : RtpBuffer} {slot : PacketCache} {q : Nat}
    (hq : PointsInto q slot) (hne : q ≠ (rtpBuffer.index + 1) % 1500)
    (hfit : plaintext.length ≤ kRtpPacketSize) :
    slotBytes (received rtpBuffer plaintext).buffer slot = slotBytes rtpBuffer.buffer slot := by
  obtain ⟨p, hp, hlo, hhi⟩ := hq
  simp only [slotBytes, hp, received]
  refine Mem.slice_write_disjoint _ _ _ ?_
  simp only [kRtpPacketSize] at hlo hhi hfit ⊢
  omega

end Receiving

section Worlds

variable {codec : PlayCodec} {w w' : RingWorld} {e : PlayEvent}

/-- What holds of the ring and the cache between two datagrams: a slot in use has its packet
in the slot of the ring that was filled with it. -/
structure RingInv (codec : PlayCodec) (w : RingWorld) : Prop where
  bufLen : w.play.stream.rtpBuffer.bufLen = 1500
  index : w.play.stream.rtpBuffer.index < 1500
  slots : ∀ j, (w.play.stream.track.cacheVideoPkts j).inUse = true →
    cacheIndex (w.play.stream.track.cacheVideoPkts j).sn = j ∧
    ∃ k a, k < 1500 ∧ Newest (w.play.stream.track.cacheVideoPkts j).sn w.copied k a ∧
      PointsInto ((w.play.stream.rtpBuffer.index + 1500 - k) % 1500)
        (w.play.stream.track.cacheVideoPkts j) ∧
      slotBytes w.play.stream.rtpBuffer.buffer (w.play.stream.track.cacheVideoPkts j) =
        cachedBytes codec a.payload

theorem newest_unique {sn k k' : Nat} {a a' : Arrival} {l : List (Option Arrival)}
    (h : Newest sn l k a) (h' : Newest sn l k' a') : k = k' ∧ a = a' := by
  induction h generalizing k' a' with
  | here rest ha =>
    cases h' with
    | here => exact ⟨rfl, rfl⟩
    | later hne _ => exact absurd ha (hne _ rfl)
  | later hne hrest ih =>
    cases h' with
    | here _ ha => exact absurd ha (hne _ rfl)
    | later _ hrest' =>
      obtain ⟨rfl, rfl⟩ := ih hrest'
      exact ⟨rfl, rfl⟩

/-- A slot of the cache that a datagram leaves alone still reaches its packet. -/
theorem RingInv.old (hw : RingInv codec w) {plaintext : List UInt8}
    (hfit : plaintext.length ≤ kRtpPacketSize) {c : Option Arrival} {j : Nat}
    (huse : (w.play.stream.track.cacheVideoPkts j).inUse = true)
    (htime : ∀ k a, Newest (w.play.stream.track.cacheVideoPkts j).sn w.copied k a → k + 1 < 1500)
    (hc : ∀ b, c = some b → b.sequence ≠ (w.play.stream.track.cacheVideoPkts j).sn) :
    ∃ k a, k < 1500 ∧ Newest (w.play.stream.track.cacheVideoPkts j).sn (c :: w.copied) k a ∧
      PointsInto (((received w.play.stream.rtpBuffer plaintext).index + 1500 - k) % 1500)
        (w.play.stream.track.cacheVideoPkts j) ∧
      slotBytes (received w.play.stream.rtpBuffer plaintext).buffer
        (w.play.stream.track.cacheVideoPkts j) = cachedBytes codec a.payload := by
  obtain ⟨-, k, a, hk, hnew, hpoints, hbytes⟩ := hw.slots j huse
  have hage := htime k a hnew
  have hidx := hw.index
  refine ⟨k + 1, a, hage, .later hc hnew, ?_, ?_⟩
  · have hsame : ((received w.play.stream.rtpBuffer plaintext).index + 1500 - (k + 1)) % 1500 =
        (w.play.stream.rtpBuffer.index + 1500 - k) % 1500 := by
      show ((w.play.stream.rtpBuffer.index + 1) % 1500 + 1500 - (k + 1)) % 1500 = _
      omega
    rw [hsame]
    exact hpoints
  · rw [slotBytes_received hpoints (by omega) hfit, hbytes]

theorem RingInv.next (hcodec : codec = playH264 ∨ codec = playH265) (hw : RingInv codec w)
    (he : e.Timely w) (h : RingStep codec w e w') : RingInv codec w' := by
  obtain ⟨hplay, hcopied⟩ := h
  obtain ⟨-, -, ⟨hnone, hstream⟩ | ⟨plaintext, hsome, hvideo⟩⟩ := playStep_cases hplay
  · rw [hnone] at hcopied
    refine ⟨?_, ?_, ?_⟩ <;> rw [hstream]
    · exact hw.bufLen
    · exact hw.index
    · rw [hcopied]
      exact hw.slots
  rw [hsome] at hcopied
  dsimp only at hcopied
  obtain ⟨hfit, htime⟩ := he plaintext hsome
  have hring := copied_ring hw.bufLen hw.index plaintext
  obtain ⟨hnone, hstream⟩ | ⟨pkt, err, track, hpkt, htrack, hstream⟩ := hvideo
  · have hc : arrivalOf w.play plaintext = none := by rw [arrivalOf, hnone, Option.bind_none]
    rw [hc] at hcopied
    refine ⟨?_, ?_, ?_⟩ <;> rw [hstream, hring]
    · exact hw.bufLen
    · exact Nat.mod_lt _ (by omega)
    · rw [hcopied, copied_track]
      intro j huse
      exact ⟨(hw.slots j huse).1, hw.old hfit huse (htime j huse) fun _ hno => nomatch hno⟩
  · rw [playtrackOnRtp_arrive] at htrack
    obtain ⟨⟨t, sn⟩, harrive, hnext⟩ := Call.bind_eq_ret.mp htrack
    obtain ⟨payload, cache, slot, hpayload, hretains, hcopy, hcache⟩ :=
      playtrackArrive_caches harrive
    have hc := arrivalOf_video hw.bufLen hw.index hpkt hpayload
    rw [hc] at hcopied
    rw [hring] at hcopy
    obtain ⟨-, hsn, ⟨q, hq, hlo, hhi⟩, hbytes⟩ :=
      copyPacket_bytes (skipsHeaders hcodec) (by exact hpayload) rfl hcopy
    have hinside := videoPacket_inside hw.bufLen hw.index hpkt hpayload
    refine ⟨?_, ?_, ?_⟩ <;> rw [hstream] <;> dsimp only <;> rw [hring]
    · exact hw.bufLen
    · exact Nat.mod_lt _ (by omega)
    · rw [hcopied]
      intro j huse
      have hsame := playtrackSearch_retains hnext j huse
      rw [hsame, hcache] at huse ⊢
      by_cases hj : j = cacheIndex pkt.header.sequence
      · subst hj
        rw [Function.update_self]
        have hslot : ((received w.play.stream.rtpBuffer plaintext).index + 1500 - 0) % 1500 =
            (w.play.stream.rtpBuffer.index + 1) % 1500 := by
          show ((w.play.stream.rtpBuffer.index + 1) % 1500 + 1500 - 0) % 1500 = _
          omega
        refine ⟨by rw [hsn], 0, _, by omega, .here _ hsn.symm, ⟨q, hq, ?_, ?_⟩, hbytes⟩ <;>
          rw [hslot]
        · exact Nat.le_trans hinside.1 hlo
        · simp only [kRtpPacketSize] at hinside hfit hhi ⊢
          omega
      · rw [Function.update_of_ne hj] at huse ⊢
        have hold := hretains j huse
        rw [hold] at huse ⊢
        have hindex := (hw.slots j huse).1
        refine ⟨hindex, hw.old hfit huse (htime j huse) ?_⟩
        rintro b ⟨⟩ hno
        exact hj (by rw [← hindex, ← hno])

/-- **The shared ring.** As long as no datagram is larger than a slot of the ring, and none comes
1500 datagrams after a packet that the cache still holds, each slot in use reaches the payload
that came with its number. -/
theorem cache_faithful (hcodec : codec = playH264 ∨ codec = playH265) (videoTracks : List Nat)
    (audioTrack : PlayTrackAudio) (audio video : PlayReception) (twccEnabled : Bool) (twccId : Nat)
    {es : List PlayEvent}
    (hl : Run.Leads (RingStep codec) es
      ⟨.start videoTracks audioTrack audio video twccEnabled twccId, []⟩ w)
    (h : Run.Throughout (RingStep codec) (fun w e => e.Timely w) es
      ⟨.start videoTracks audioTrack audio video twccEnabled twccId, []⟩) :
    CacheFaithful codec w := by
  have hstart : RingInv codec ⟨.start videoTracks audioTrack audio video twccEnabled twccId, []⟩ :=
    ⟨rfl, Nat.zero_lt_succ _, fun _ huse => nomatch huse⟩
  have hw := Run.leads_invariant _ (fun _ _ _ hv he hs => RingInv.next hcodec hv he hs) hl hstart h
  intro j huse
  obtain ⟨-, k, a, -, hnew, -, hbytes⟩ := hw.slots j huse
  exact ⟨k, a, hnew, hbytes⟩

end Worlds

section Runs

/-- A packet of the video that is one byte too long for the ring's slot, and one of the audio. -/
def longUnit : RtpUnit :=
  ⟨{ payloadType := 96, sequence := 1, ssrc := 2 }, 0x41 :: List.replicate 1488 0x41⟩

def shortUnit : RtpUnit := ⟨{ payloadType := 96, sequence := 1, ssrc := 2 }, [0x41, 9]⟩

def audioUnit : RtpUnit := ⟨{ payloadType := 97, ssrc := 1 }, [0]⟩

variable {codec : PlayCodec} {play : RtcPlay} {u : RtpUnit} {e : Entry}

/-- A packet that is neither waited for nor of a key frame is stored, and that is all. -/
theorem playStep_stored (codec : PlayCodec) (h : Listening play) (hp : u.header.Plain) (hssrc : u.header.ssrc = 2)
    (hne : u.payload ≠ []) (hfu : codec.naluType (u.payload.getD 0 0) ≠ codec.fuA)
    (hkey : KeyPart codec u.payload false) (hlost : play.stream.track.lostSn ≠ u.header.sequence) :
    ∃ play' pkt, PlayStep codec play (unitEvent u) play' ∧ Listening play' ∧
      play'.stream.rtpBuffer = received play.stream.rtpBuffer u.bytes ∧
      play'.stream.track.cacheVideoPkts = Function.update play.stream.track.cacheVideoPkts
        (cacheIndex u.header.sequence) pkt ∧
      pkt.inUse = true ∧ pkt.sn = u.header.sequence ∧
      pkt.payload = some (payloadAt play.stream.rtpBuffer) ∧ pkt.nb = u.payload.length := by
  have hpayload := received_payload play.stream.rtpBuffer u
  have hfirst := (received play.stream.rtpBuffer u.bytes).buffer.slice_getD
    (payloadAt play.stream.rtpBuffer) (List.length_pos_of_ne_nil hne) 0
  rw [hpayload, Nat.add_zero] at hfirst
  rw [hfirst] at hfu
  have hisKey := hkey _ _ u.header hpayload
  obtain ⟨track, htrack, hcache⟩ : ∃ track, playtrackOnRtp codec play.stream.videoTracks
      (received play.stream.rtpBuffer u.bytes).buffer play.stream.track
      { header := u.header
        payload := some (payloadAt play.stream.rtpBuffer)
        nb := u.payload.length } = .ret (yangOk, track) ∧
      track.cacheVideoPkts = Function.update play.stream.track.cacheVideoPkts
        (cacheIndex u.header.sequence)
        { play.stream.track.cacheVideoPkts (cacheIndex u.header.sequence) with
          inUse := true
          sn := u.header.sequence
          last := u.header.marker
          ts := u.header.timestamp
          naluType := codec.naluType
            ((received play.stream.rtpBuffer u.bytes).buffer (payloadAt play.stream.rtpBuffer))
          payload := some (payloadAt play.stream.rtpBuffer)
          nb := u.payload.length } := by
    unfold playtrackOnRtp
    simp only [Call.deref_some, Call.ret_bind, hisKey, Bool.false_eq_true, if_false,
      storePacket, copyPacket, hfu, Call.pure_eq]
    cases hreq : play.stream.track.hasRequestKeyframe with
    | false =>
      simp only [if_true, hlost, if_false]
      exact ⟨_, rfl, rfl⟩
    | true =>
      simp only [Bool.true_eq_false, hlost, if_false]
      exact ⟨_, rfl, rfl⟩
  obtain ⟨play', hstep, hlisten, hstream⟩ := playStep_video h hp hssrc htrack
  refine ⟨play', _, hstep, hlisten, by rw [hstream], by rw [hstream, hcache], rfl, rfl, rfl, rfl⟩

theorem longUnit_plain : longUnit.header.Plain := by
  constructor <;> decide

theorem audioUnit_plain : audioUnit.header.Plain := by
  constructor <;> decide

theorem arrivalOf_unit (h : Listening play) (hp : u.header.Plain) (hssrc : u.header.ssrc = 2) :
    arrivalOf play u.bytes = some ⟨u.header.sequence, u.payload⟩ := by
  have haudio : playtrackHasSsrc play.audio u.header.ssrc = false := hssrc ▸ h.notAudio
  have hvideo : playtrackHasSsrc play.video u.header.ssrc = true := hssrc ▸ h.video
  have hpkt : videoPacket play u.bytes = some
      { header := u.header
        payload := some (payloadAt play.stream.rtpBuffer)
        nb := u.payload.length } := by
    simp only [videoPacket, wrapRtpPacket_unit h.bufLen h.index hp, haudio, hvideo, and_self,
      if_true]
  rw [arrivalOf_video h.bufLen h.index hpkt rfl, received_payload]

theorem arrivalOf_audio (h : Listening play) (hp : u.header.Plain) (hssrc : u.header.ssrc = 1) :
    arrivalOf play u.bytes = none := by
  have haudio : playtrackHasSsrc play.audio u.header.ssrc = true := hssrc ▸ h.audio
  simp [arrivalOf, videoPacket, wrapRtpPacket_unit h.bufLen h.index hp, haudio]

theorem ringStep_unique {w w₁ w₂ : RingWorld} {e : PlayEvent} (h₁ : RingStep codec w e w₁)
    (h₂ : RingStep codec w e w₂) : w₁ = w₂ := by
  obtain ⟨play₁, copied₁⟩ := w₁
  obtain ⟨play₂, copied₂⟩ := w₂
  obtain rfl := playStep_unique h₁.1 h₂.1
  obtain rfl := h₁.2.trans h₂.2.symm
  rfl

/-- A packet of the video that follows one of the audio is found in the cache. -/
theorem cache_faithful_two : ∃ w,
    Run.Leads (RingStep playH264) [unitEvent audioUnit, unitEvent shortUnit]
      ⟨listeningPlay, []⟩ w ∧
    CacheFaithful playH264 w ∧ (w.play.stream.track.cacheVideoPkts 1).inUse = true := by
  have hkey : KeyPart playH264 shortUnit.payload false :=
    keyPart_raw (List.cons_ne_nil _ _) (by decide) (by decide)
  have hplain : shortUnit.header.Plain := by constructor <;> decide
  obtain ⟨play₁, hstep₁, hlisten, hstream₁⟩ := playStep_audio playH264 listening_start
    audioUnit_plain rfl
  have hlost : play₁.stream.track.lostSn ≠ shortUnit.header.sequence := by
    rw [hstream₁]
    decide
  obtain ⟨play₂, pkt, hstep₂, -, -, hcache, huse, -⟩ :=
    playStep_stored playH264 hlisten hplain rfl (List.cons_ne_nil _ _) (by decide) hkey
      hlost
  let w₁ : RingWorld := ⟨play₁, [arrivalOf listeningPlay audioUnit.bytes]⟩
  let w₂ : RingWorld := ⟨play₂, arrivalOf play₁ shortUnit.bytes :: w₁.copied⟩
  have h₁ : RingStep playH264 ⟨listeningPlay, []⟩ (unitEvent audioUnit) w₁ :=
    ⟨hstep₁, by rw [unitEvent_plaintext]⟩
  have h₂ : RingStep playH264 w₁ (unitEvent shortUnit) w₂ :=
    ⟨hstep₂, by rw [unitEvent_plaintext]⟩
  have hl := Run.Leads.cons h₁ (.cons h₂ (.nil w₂))
  have htimely : ∀ (u : RtpUnit) (w : RingWorld), u.bytes.length ≤ kRtpPacketSize →
      w.play.stream.track = {} → (unitEvent u).Timely w := by
    intro u w hlen htrack plaintext hplaintext
    rw [unitEvent_plaintext] at hplaintext
    obtain rfl := Option.some.inj hplaintext
    refine ⟨hlen, fun j hj => ?_⟩
    rw [htrack] at hj
    cases hj
  refine ⟨w₂, hl, cache_faithful (.inl rfl) _ _ _ _ _ _ hl ?_, ?_⟩
  · refine Run.throughout_cons (fun _ h => ringStep_unique h h₁) (htimely _ _ (by decide) rfl) ?_
    refine ⟨htimely _ _ (by decide) ?_, fun _ _ => trivial⟩
    show play₁.stream.track = {}
    rw [hstream₁]
    rfl
  · show (play₂.stream.track.cacheVideoPkts 1).inUse = true
    rw [hcache]
    exact (congrArg PacketCache.inUse (Function.update_self _ _ _)).trans huse

/-- The last byte of the long packet lies in the slot that the next datagram is copied to. -/
theorem long_overwritten : ∃ w,
    Run.Leads (RingStep playH264) [unitEvent longUnit, unitEvent audioUnit] ⟨listeningPlay, []⟩ w ∧
    ¬ CacheFaithful playH264 w := by
  have hkey : KeyPart playH264 longUnit.payload false :=
    keyPart_raw (List.cons_ne_nil _ _) (by decide) (by decide)
  obtain ⟨play₁, pkt, hstep₁, hlisten, hring₁, hcache, huse, hsn, hpayload, hnb⟩ :=
    playStep_stored playH264 listening_start longUnit_plain rfl (List.cons_ne_nil _ _)
      (by decide) hkey (by decide)
  obtain ⟨play₂, hstep₂, -, hstream₂⟩ := playStep_audio playH264 hlisten
    audioUnit_plain rfl
  let w₁ : RingWorld := ⟨play₁, [some ⟨1, longUnit.payload⟩]⟩
  let w₂ : RingWorld := ⟨play₂, none :: w₁.copied⟩
  have h₁ : RingStep playH264 ⟨listeningPlay, []⟩ (unitEvent longUnit) w₁ := by
    refine ⟨hstep₁, ?_⟩
    rw [unitEvent_plaintext]
    dsimp only
    rw [arrivalOf_unit listening_start longUnit_plain rfl]
    rfl
  have h₂ : RingStep playH264 w₁ (unitEvent audioUnit) w₂ := by
    refine ⟨hstep₂, ?_⟩
    rw [unitEvent_plaintext]
    dsimp only [w₁, w₂]
    rw [arrivalOf_audio hlisten audioUnit_plain rfl]
  refine ⟨w₂, .cons h₁ (.cons h₂ (.nil _)), fun hall => ?_⟩
  have hslot : w₂.play.stream.track.cacheVideoPkts 1 = pkt := by
    show play₂.stream.track.cacheVideoPkts 1 = pkt
    rw [hstream₂, hcache]
    exact Function.update_self _ _ _
  obtain ⟨k, a, hnew, hbytes⟩ := hall 1 (by rw [hslot, huse])
  have ha : a.payload = longUnit.payload := by
    cases hnew with
    | later _ hrest =>
      cases hrest with
      | here => rfl
      | later _ hno => cases hno
  -- the byte at 3000 is the last of the payload and the first of the next datagram
  have hlast := congrArg (List.getD · 1488 0) hbytes
  rw [hslot, ha] at hlast
  have hring : w₂.play.stream.rtpBuffer = received play₁.stream.rtpBuffer audioUnit.bytes := by
    show play₂.stream.rtpBuffer = _
    rw [hstream₂]
  have hleft : (slotBytes w₂.play.stream.rtpBuffer.buffer pkt).getD 1488 0 = 0x80 := by
    rw [slotBytes, hpayload, hnb]
    have hlen : 1488 < longUnit.payload.length := by decide +kernel
    have haddr : payloadAt listeningPlay.stream.rtpBuffer + 1488 =
        kRtpPacketSize * ((play₁.stream.rtpBuffer.index + 1) % 1500) := by
      rw [hring₁]
      decide +kernel
    dsimp only
    rw [Mem.slice_getD _ _ hlen, hring, haddr, received]
    dsimp only
    rw [Mem.write, if_pos (Nat.le_refl _), Nat.sub_self]
    rfl
  have hright : (cachedBytes playH264 longUnit.payload).getD 1488 0 = 0x41 := by
    rw [cachedBytes, if_neg (by decide)]
    decide +kernel
  rw [hleft, hright] at hlast
  exact absurd hlast (by decide)

end Runs

end MetaRtc
