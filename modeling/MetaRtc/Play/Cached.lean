import MetaRtc.Play.Track
import MetaRtc.Publish.Packets

/-! # What the cache holds of a packet

A slot points into the ring of received packets. It holds what it points at as long as the
ring's slot is not used again. -/
namespace MetaRtc

open Bytes Exec

/-- A cached packet by value. The bytes of a fragment are those behind its headers. -/
structure Entry where
  last : Bool
  naluType : UInt8
  fua2 : Fua2DataCache
  bytes : List UInt8

structure Held (codec : PlayCodec) (ring : Mem) (ts : Nat) (pkt : PacketCache) (e : Entry) :
    Prop where
  inUse : pkt.inUse = true
  ts : pkt.ts = ts
  last : pkt.last = e.last
  naluType : pkt.naluType = e.naluType
  fua2 : e.naluType = codec.fuA → pkt.fua2 = e.fua2
  nb : pkt.nb = e.bytes.length
  bytes : ∃ p, pkt.payload = some p ∧ ring.slice p e.bytes.length = e.bytes

/-- The slot points into the ring's slot number `q`. -/
def PointsInto (q : Nat) (pkt : PacketCache) : Prop :=
  ∃ p, pkt.payload = some p ∧ kRtpPacketSize * q ≤ p ∧ p + pkt.nb ≤ kRtpPacketSize * (q + 1)

/-- A packet with this marker and payload is held as that entry by whichever slot it is
copied to, which then points into the payload. -/
def Caches (codec : PlayCodec) (part : Part) (e : Entry) : Prop :=
  ∀ (ring : Mem) (p : Nat) (header : RtpHeader) (slot : PacketCache),
    header.marker = part.1 → ring.slice p part.2.length = part.2 → slot.inUse = true →
    ∃ pkt, copyPacket codec ring
        { header, naluType := codec.naluType (ring p), payload := some p, nb := part.2.length }
        slot = .ret pkt ∧
      Held codec ring header.timestamp pkt e ∧
      ∃ q, pkt.payload = some q ∧ p ≤ q ∧ q + pkt.nb = p + part.2.length

/-- The two ends agree on fragments: the decoder reads back from `size` bytes what the
encoder put there. -/
structure Fua2Agrees (codec : PlayCodec) (size : Nat) (encode : Fua2Data → List UInt8)
    (cached : Fua2Data → Fua2DataCache) (ok : Fua2Data → Prop) : Prop where
  length : ∀ pkt, (encode pkt).length = size + pkt.payload.length
  payload : ∀ pkt, (encode pkt).drop size = pkt.payload
  naluType : ∀ pkt, codec.naluType ((encode pkt).getD 0 0) = codec.fuA
  decode : ∀ pkt, ok pkt → ∀ (m : Mem) (old : Fua2DataCache),
    m.slice 0 (size + pkt.payload.length) = encode pkt →
    ∃ err, codec.decodeFua2 (initBuffer m (size + pkt.payload.length)) old =
      (err, cached pkt, (initBuffer m (size + pkt.payload.length)).take size)

variable {codec : PlayCodec} {ring : Mem} {ts : Nat} {pkt : PacketCache} {e : Entry}

theorem cacheIndex_eq (x : Nat) : cacheIndex x = x % 512 :=
  Nat.and_two_pow_sub_one_eq_mod x 9

@[simp] theorem cacheIndex_mod (x : Nat) : cacheIndex (x % 65536) = cacheIndex x := by
  rw [cacheIndex_eq, cacheIndex_eq]
  omega

@[simp] theorem cacheIndex_mod_add (x y : Nat) :
    cacheIndex (x % 65536 + y) = cacheIndex (x + y) := by
  rw [cacheIndex_eq, cacheIndex_eq]
  omega

/-- The cache has room for 512 packets in a row. -/
theorem cacheIndex_ne {x i j : Nat} (hij : i ≠ j) (hi : i < 512) (hj : j < 512) :
    cacheIndex (x + i) ≠ cacheIndex (x + j) := by
  rw [cacheIndex_eq, cacheIndex_eq]
  omega

theorem held_write (h : Held codec ring ts pkt e) {q r : Nat} (hq : PointsInto q pkt) (hne : q ≠ r)
    {bs : List UInt8} (hlen : bs.length ≤ kRtpPacketSize) :
    Held codec (ring.write (kRtpPacketSize * r) bs) ts pkt e where
  inUse := h.inUse
  ts := h.ts
  last := h.last
  naluType := h.naluType
  fua2 := h.fua2
  nb := h.nb
  bytes := by
    obtain ⟨p, hp, hbytes⟩ := h.bytes
    obtain ⟨p', hp', hlo, hhi⟩ := hq
    obtain rfl : p' = p := Option.some.inj (hp'.symm.trans hp)
    refine ⟨p', hp, ?_⟩
    rw [Mem.slice_write_disjoint _ _ _ ?_, hbytes]
    rw [h.nb] at hhi
    simp only [kRtpPacketSize] at hlo hhi hlen ⊢
    omega

theorem caches_raw {marker : Bool} {payload : List UInt8} (hne : payload ≠ [])
    (hfu : codec.naluType (payload.getD 0 0) ≠ codec.fuA) :
    Caches codec (marker, payload) ⟨marker, codec.naluType (payload.getD 0 0), {}, payload⟩ := by
  intro ring p header slot hm hring huse
  simp only at hm hring ⊢
  have hlen : 0 < payload.length := List.length_pos_of_ne_nil hne
  have hfirst : ring p = payload.getD 0 0 := by
    rw [← hring, Mem.slice_getD _ _ hlen, Nat.add_zero]
  rw [← hfirst] at hfu
  refine ⟨_, if_neg hfu, ⟨huse, rfl, hm, ?_, ?_, rfl, p, rfl, hring⟩, p, rfl, Nat.le_refl _, rfl⟩
  · rw [hfirst]
  · intro hfu'
    rw [← hfirst] at hfu'
    exact absurd hfu' hfu

theorem caches_fragment {size : Nat} {encode : Fua2Data → List UInt8}
    {cached : Fua2Data → Fua2DataCache} {ok : Fua2Data → Prop}
    (ha : Fua2Agrees codec size encode cached ok) (hsize : 0 < size) {marker : Bool}
    {pkt : Fua2Data} (hok : ok pkt) :
    Caches codec (marker, encode pkt) ⟨marker, codec.fuA, cached pkt, pkt.payload⟩ := by
  intro ring p header slot hm hring huse
  simp only [ha.length] at hring ⊢
  have hfirst : ring p = (encode pkt).getD 0 0 := by
    rw [← hring, Mem.slice_getD _ _ (by omega), Nat.add_zero]
  have hfu : codec.naluType (ring p) = codec.fuA := by rw [hfirst, ha.naluType]
  have hdrop : (ring.drop p).slice 0 (size + pkt.payload.length) = encode pkt := by
    rw [Mem.slice_drop, Nat.add_zero, hring]
  obtain ⟨err, hdec⟩ := ha.decode pkt hok (ring.drop p) slot.fua2 hdrop
  have hleft : ((size + pkt.payload.length : Nat) - (size : Nat) : Int).toNat =
      pkt.payload.length := by omega
  have hpayload : ring.slice (p + size) pkt.payload.length = pkt.payload := by
    have hd := ring.drop_slice p (size + pkt.payload.length) size
    rw [hring, ha.payload, Nat.add_sub_cancel_left] at hd
    exact hd.symm
  have hcopy : copyPacket codec ring
      { header, naluType := codec.naluType (ring p), payload := some p,
        nb := size + pkt.payload.length } slot = .ret
      { slot with
        sn := header.sequence
        last := header.marker
        ts := header.timestamp
        naluType := codec.fuA
        fua2 := cached pkt
        payload := some (p + size)
        nb := pkt.payload.length } := by
    simp only [copyPacket, hfu, if_true, Call.deref_some, Call.ret_bind, hdec, Call.pure_eq]
    simp only [YangBuffer.left, YangBuffer.take_head, YangBuffer.take_size, initBuffer, hleft,
      Nat.zero_add]
  refine ⟨_, hcopy, ⟨huse, rfl, hm, rfl, fun _ => rfl, rfl, _, rfl, hpayload⟩, _, rfl, ?_, ?_⟩
  · exact Nat.le_add_right _ _
  · exact Nat.add_assoc _ _ _

section Formats

/-- The flags and the type are read back from a fragment's header. -/
theorem fuHeader_bits {pkt : Fua2Data} (h : pkt.naluType < 64) :
    (fuHeader pkt &&& kStart != 0) = pkt.start ∧ (fuHeader pkt &&& kEnd != 0) = pkt.last ∧
      fuHeader pkt &&& 0x3F = pkt.naluType := by
  have hbits : ∀ t : UInt8, t.toNat < 64 → ∀ start last : Bool,
      let v := if start then t ||| kStart else t
      let v := if last then v ||| kEnd else v
      (v &&& kStart != 0) = start ∧ (v &&& kEnd != 0) = last ∧ v &&& 0x3F = t :=
    forall_byte 64 (by decide +kernel)
  exact hbits pkt.naluType h pkt.start pkt.last

/-- An H264 type has five bits, the sixth is zero. -/
theorem mask_of_small {t v : UInt8} (h : t < 32) (hv : v &&& 0x3F = t) : v &&& kNalTypeMask = t := by
  have hbits : ∀ v : UInt8, v &&& 0x3F < 32 → v &&& kNalTypeMask = v &&& 0x3F :=
    forall_bytes (by decide +kernel)
  rw [← hv] at h ⊢
  exact hbits v h

def h264Cached (pkt : Fua2Data) : Fua2DataCache where
  start := pkt.start
  last := pkt.last
  nri := pkt.nri &&& ~~~kNalTypeMask
  naluType := pkt.naluType

def h265Cached (pkt : Fua2Data) : Fua2DataCache where
  start := pkt.start
  last := pkt.last
  nri := h265KFuA
  naluType := pkt.naluType

theorem h264_agrees :
    Fua2Agrees playH264 2 h264Fua2Bytes h264Cached fun pkt => pkt.naluType < 32 where
  length pkt := by simp [h264Fua2Bytes]; omega
  payload pkt := rfl
  naluType pkt := by
    have hbits : ∀ v : UInt8, (kFuA ||| (v &&& ~~~kNalTypeMask)) &&& kNalTypeMask = kFuA :=
      forall_bytes (by decide +kernel)
    exact hbits pkt.nri
  decode pkt hok m old h := by
    have hlt : pkt.naluType < 64 := UInt8.lt_trans hok (by decide)
    obtain ⟨hstart, hlast, hsix⟩ := fuHeader_bits hlt
    have htype : fuHeader pkt &&& kNalTypeMask = pkt.naluType := mask_of_small hok hsix
    have h0 : m 0 = kFuA ||| (pkt.nri &&& ~~~kNalTypeMask) := by
      have hd := m.slice_getD 0 (show 0 < 2 + pkt.payload.length by omega) 0
      rw [h] at hd
      exact hd.symm
    have h1 : m 1 = fuHeader pkt := by
      have hd := m.slice_getD 0 (show 1 < 2 + pkt.payload.length by omega) 0
      rw [h] at hd
      exact hd.symm
    have hnri : m 0 &&& ~~~kNalTypeMask = pkt.nri &&& ~~~kNalTypeMask := by
      have hbits : ∀ v : UInt8,
          (kFuA ||| (v &&& ~~~kNalTypeMask)) &&& ~~~kNalTypeMask = v &&& ~~~kNalTypeMask :=
        forall_bytes (by decide +kernel)
      rw [h0]
      exact hbits pkt.nri
    have hreq : (initBuffer m (2 + pkt.payload.length)).require 2 = true :=
      (YangBuffer.require_iff _ 2).mpr (by simp [YangBuffer.left, initBuffer])
    have hcached : h264Cached pkt = ⟨m 1 &&& kStart != 0, m 1 &&& kEnd != 0,
        m 0 &&& ~~~kNalTypeMask, m 1 &&& kNalTypeMask⟩ := by
      rw [h1, hstart, hlast, htype, hnri]
      rfl
    simp only [playH264, decodeH264Fua2, hreq, Bool.not_true, Bool.false_eq_true, if_false,
      YangBuffer.take_take, YangBuffer.take_data, YangBuffer.take_head, hcached]
    split
    · exact ⟨_, rfl⟩
    · exact ⟨_, rfl⟩

theorem h265_agrees :
    Fua2Agrees playH265 3 h265Fua2Bytes h265Cached fun pkt => pkt.naluType < 64 where
  length pkt := by simp [h265Fua2Bytes]; omega
  payload pkt := rfl
  naluType pkt := by
    show hevcNaluType (h265KFuA <<< 1) = h265KFuA
    decide
  decode pkt hok m old h := by
    obtain ⟨hstart, hlast, htype⟩ := fuHeader_bits hok
    have h0 : m 0 = h265KFuA <<< 1 := by
      have hd := m.slice_getD 0 (show 0 < 3 + pkt.payload.length by omega) 0
      rw [h] at hd
      exact hd.symm
    have h2 : m 2 = fuHeader pkt := by
      have hd := m.slice_getD 0 (show 2 < 3 + pkt.payload.length by omega) 0
      rw [h] at hd
      exact hd.symm
    have hreq : (initBuffer m (3 + pkt.payload.length)).require 3 = true :=
      (YangBuffer.require_iff _ 3).mpr (by simp [YangBuffer.left, initBuffer])
    have hcached : h265Cached pkt = ⟨m 2 &&& kStart != 0, m 2 &&& kEnd != 0,
        (m 0 >>> 1) &&& 0x3F, m 2 &&& 0x3F⟩ := by
      rw [h2, hstart, hlast, htype, h0]
      rfl
    simp only [playH265, decodeH265Fua2, hreq, Bool.not_true, Bool.false_eq_true, if_false,
      YangBuffer.take_take, YangBuffer.take_data, YangBuffer.take_head, hcached]
    split
    · exact ⟨_, rfl⟩
    · exact ⟨_, rfl⟩

end Formats

section Arrival

variable {codec : PlayCodec} {rtpBuffer : RtpBuffer} {play : PlayStream} {u : RtpUnit}
  {cache : Nat → PacketCache} {pkt : PacketCache} {r s ts : Nat} {e : Entry} {es : List Entry}

/-- The ring once a packet has been copied to its next slot. -/
def received (rtpBuffer : RtpBuffer) (bs : List UInt8) : RtpBuffer :=
  let index := (rtpBuffer.index + 1) % 1500
  { rtpBuffer with index, buffer := rtpBuffer.buffer.write (kRtpPacketSize * index) bs }

/-- Where the payload of that packet lies. -/
def payloadAt (rtpBuffer : RtpBuffer) : Nat :=
  kRtpPacketSize * ((rtpBuffer.index + 1) % 1500) + 12

theorem getRtpBuffer_ring (hlen : rtpBuffer.bufLen = 1500) (hidx : rtpBuffer.index < 1500) :
    getRtpBuffer rtpBuffer = (kRtpPacketSize * ((rtpBuffer.index + 1) % 1500),
      { rtpBuffer with index := (rtpBuffer.index + 1) % 1500 }) := by
  have hnext : (if rtpBuffer.index + 1 ≥ 1500 then 0 else rtpBuffer.index + 1) =
      (rtpBuffer.index + 1) % 1500 := by
    split <;> omega
  simp only [getRtpBuffer, hlen, hnext]

theorem wrapRtpPacket_unit (hlen : play.rtpBuffer.bufLen = 1500)
    (hidx : play.rtpBuffer.index < 1500) (hp : u.header.Plain) :
    wrapRtpPacket play u.bytes =
      (yangOk, { header := u.header, payload := some (payloadAt play.rtpBuffer),
                 nb := u.payload.length },
        { play with rtpBuffer := received play.rtpBuffer u.bytes }) := by
  have hlength : u.bytes.length = 12 + u.payload.length := by simp [RtpUnit.bytes]
  have hslice : ((received play.rtpBuffer u.bytes).buffer.drop
      (kRtpPacketSize * ((play.rtpBuffer.index + 1) % 1500))).slice 0 (12 + u.payload.length) =
      rtpHeaderBytes u.header ++ u.payload := by
    rw [Mem.slice_drop, Nat.add_zero, ← hlength]
    exact Mem.slice_write _ _ _
  have hdec := decodeRtpPacket_plain hp hslice
  simp only [wrapRtpPacket, getRtpBuffer_ring hlen hidx, hlength]
  simp only [received] at hdec ⊢
  rw [hdec]
  rfl

theorem received_payload (rtpBuffer : RtpBuffer) (u : RtpUnit) :
    (received rtpBuffer u.bytes).buffer.slice (payloadAt rtpBuffer) u.payload.length =
      u.payload := by
  have hall := rtpBuffer.buffer.slice_write
    (kRtpPacketSize * ((rtpBuffer.index + 1) % 1500)) u.bytes
  have hdrop := congrArg (List.drop 12) hall
  rw [Mem.drop_slice] at hdrop
  simpa [received, payloadAt, RtpUnit.bytes] using hdrop

/-- The slots from number `s` on hold these packets, and their memory is one slot of the ring
each, from behind the slot `r` on. -/
structure CachedFrom (codec : PlayCodec) (rtpBuffer : RtpBuffer) (cache : Nat → PacketCache)
    (r s ts : Nat) (es : List Entry) : Prop where
  bufLen : rtpBuffer.bufLen = 1500
  index : rtpBuffer.index = (r + es.length) % 1500
  held : ∀ k (h : k < es.length),
    Held codec rtpBuffer.buffer ts (cache (cacheIndex (s + k))) es[k] ∧
      PointsInto ((r + k + 1) % 1500) (cache (cacheIndex (s + k)))

theorem cachedFrom_nil (codec : PlayCodec) (cache : Nat → PacketCache) (s ts : Nat)
    (hlen : rtpBuffer.bufLen = 1500) (hidx : rtpBuffer.index < 1500) :
    CachedFrom codec rtpBuffer cache rtpBuffer.index s ts [] :=
  ⟨hlen, (Nat.mod_eq_of_lt hidx).symm, fun _ h => absurd h (Nat.not_lt_zero _)⟩

theorem cachedFrom_index (h : CachedFrom codec rtpBuffer cache r s ts es) :
    rtpBuffer.index < 1500 := by
  rw [h.index]
  exact Nat.mod_lt _ (by omega)

/-- The next packet leaves those before it alone, in the cache and in the ring. -/
theorem cachedFrom_next (h : CachedFrom codec rtpBuffer cache r s ts es) (hlen : es.length < 512)
    (hfit : u.bytes.length ≤ kRtpPacketSize)
    (hheld : Held codec (received rtpBuffer u.bytes).buffer ts pkt e)
    (hpoints : PointsInto ((rtpBuffer.index + 1) % 1500) pkt) :
    CachedFrom codec (received rtpBuffer u.bytes)
      (Function.update cache (cacheIndex (s + es.length)) pkt) r s ts (es ++ [e]) where
  bufLen := h.bufLen
  index := by
    show (rtpBuffer.index + 1) % 1500 = _
    rw [h.index, List.length_append, List.length_singleton]
    omega
  held := by
    intro k hk
    rw [List.length_append, List.length_singleton] at hk
    by_cases hlast : k = es.length
    · subst hlast
      simp only [Function.update_self, List.getElem_concat_length]
      refine ⟨hheld, ?_⟩
      rw [h.index] at hpoints
      rwa [Nat.mod_add_mod] at hpoints
    · have hlt : k < es.length := by omega
      obtain ⟨hk', hp'⟩ := h.held k hlt
      rw [List.getElem_append_left hlt, Function.update_of_ne ?_]
      · refine ⟨held_write hk' hp' ?_ hfit, hp'⟩
        rw [h.index]
        omega
      · exact cacheIndex_ne (by omega) (by omega) (by omega)

/-- Storing a packet whose payload lies in the ring. -/
theorem storePacket_caches {ring : Mem} (track : PlayTrackH2645) {header : RtpHeader} {p : Nat}
    {payload : List UInt8} (hc : Caches codec (header.marker, payload) e)
    (hring : ring.slice p payload.length = payload) :
    ∃ pkt, storePacket codec ring track
        { header, naluType := codec.naluType (ring p), payload := some p, nb := payload.length } =
        .ret { track with
          cacheVideoPkts :=
            Function.update track.cacheVideoPkts (cacheIndex header.sequence) pkt } ∧
      Held codec ring header.timestamp pkt e ∧
      ∃ q, pkt.payload = some q ∧ p ≤ q ∧ q + pkt.nb = p + payload.length := by
  let slot := { track.cacheVideoPkts (cacheIndex header.sequence) with inUse := true }
  obtain ⟨pkt, hcopy, hheld, hq⟩ := hc ring p header slot rfl hring rfl
  exact ⟨pkt, by simp only [storePacket, hcopy, Call.ret_bind, Call.pure_eq, slot], hheld, hq⟩

/-- A packet that arrives and is stored is the next one cached. -/
theorem arrival_caches (track : PlayTrackH2645)
    (h : CachedFrom codec rtpBuffer track.cacheVideoPkts r s u.header.timestamp es)
    (hlen : es.length < 512) (hfit : u.bytes.length ≤ kRtpPacketSize)
    (hseq : u.header.sequence = (s + es.length) % 65536)
    (hc : Caches codec (u.header.marker, u.payload) e) :
    ∃ pkt, storePacket codec (received rtpBuffer u.bytes).buffer track
        { header := u.header
          naluType := codec.naluType ((received rtpBuffer u.bytes).buffer (payloadAt rtpBuffer))
          payload := some (payloadAt rtpBuffer)
          nb := u.payload.length } =
        .ret { track with
          cacheVideoPkts :=
            Function.update track.cacheVideoPkts (cacheIndex (s + es.length)) pkt } ∧
      CachedFrom codec (received rtpBuffer u.bytes)
        (Function.update track.cacheVideoPkts (cacheIndex (s + es.length)) pkt) r s
        u.header.timestamp (es ++ [e]) := by
  obtain ⟨pkt, hstore, hheld, q, hq, hlo, hhi⟩ :=
    storePacket_caches track hc (received_payload rtpBuffer u)
  have hlength : u.bytes.length = 12 + u.payload.length := by simp [RtpUnit.bytes]
  rw [hseq, cacheIndex_mod] at hstore
  refine ⟨pkt, hstore, cachedFrom_next h hlen hfit hheld ⟨q, hq, ?_, ?_⟩⟩
  · simp only [payloadAt] at hlo
    omega
  · simp only [payloadAt, kRtpPacketSize] at hlo hhi hfit ⊢
    omega

end Arrival

end MetaRtc
