import MetaRtc.Ts.Demux
import MetaRtc.Ts.Muxer

/-! # The packets of one stream after the other

As long as the packets of a PES are not mixed with others, one PES at a time is being
collected. -/
namespace MetaRtc

open Bytes Exec Function

section Times

variable {p : Mem} {pos fb t : Nat}

/-- Fifteen bits of a time fill two bytes with a marker bit. -/
theorem timePart_read {n : Nat} (h : n < 2 ^ 15) :
    (n * 2 + 1) / 256 % 256 * 2 ^ 7 + (n * 2 + 1) / 1 % 256 / 2 % 128 = n := by
  omega

/-- A time of 33 bits, as it is read back: the highest bit is lost and the next is a sign. -/
theorem pesTime_writePts (h : p.slice pos 5 = writePts fb t) (ht : t < 2 ^ 33) :
    pesTime p pos =
      if t % 2 ^ 32 < 2 ^ 31 then t % 2 ^ 32 else t % 2 ^ 32 + (2 ^ 64 - 2 ^ 32) := by
  have hbyte : ∀ i, i < 5 → p (pos + i) = (writePts fb t).getD i 0 := by
    intro i hi
    rw [← h, p.slice_getD pos hi]
  have h0 : (p pos).toNat = (fb * 16 + t / 2 ^ 30 % 8 * 2 + 1) % 256 := by
    rw [show p pos = _ from hbyte 0 (by omega)]
    exact UInt8.toNat_ofNat
  have h1 : (p (pos + 1)).toNat = (t / 2 ^ 15 % 2 ^ 15 * 2 + 1) / 256 % 256 := by
    rw [hbyte 1 (by omega)]
    exact UInt8.toNat_ofNat
  have h2 : (p (pos + 2)).toNat = (t / 2 ^ 15 % 2 ^ 15 * 2 + 1) / 1 % 256 := by
    rw [hbyte 2 (by omega)]
    exact UInt8.toNat_ofNat
  have h3 : (p (pos + 3)).toNat = (t % 2 ^ 15 * 2 + 1) / 256 % 256 := by
    rw [hbyte 3 (by omega)]
    exact UInt8.toNat_ofNat
  have h4 : (p (pos + 4)).toNat = (t % 2 ^ 15 * 2 + 1) / 1 % 256 := by
    rw [hbyte 4 (by omega)]
    exact UInt8.toNat_ofNat
  have hhigh : (p pos).toNat / 2 % 8 = t / 2 ^ 30 := by omega
  have hmiddle : (p (pos + 1)).toNat * 2 ^ 7 + (p (pos + 2)).toNat / 2 % 128 =
      t / 2 ^ 15 % 2 ^ 15 := by
    rw [h1, h2]
    exact timePart_read (Nat.mod_lt _ (by decide))
  have hlow : (p (pos + 3)).toNat * 2 ^ 7 + (p (pos + 4)).toNat / 2 % 128 = t % 2 ^ 15 := by
    rw [h3, h4]
    exact timePart_read (Nat.mod_lt _ (by decide))
  have hsum : (p pos).toNat / 2 % 8 * 2 ^ 30 + (p (pos + 1)).toNat * 2 ^ 22 +
      (p (pos + 2)).toNat / 2 % 128 * 2 ^ 15 + (p (pos + 3)).toNat * 2 ^ 7 +
      (p (pos + 4)).toNat / 2 % 128 = t := by
    clear h0 h1 h2 h3 h4
    omega
  unfold pesTime
  dsimp only
  rw [hsum]

theorem pesTime_exact (h : p.slice pos 5 = writePts fb t) (ht : t < 2 ^ 31) :
    pesTime p pos = t := by
  rw [pesTime_writePts h (by omega), Nat.mod_eq_of_lt (by omega), if_pos ht]

end Times

/-- What the demuxer sees of a packet with a payload. -/
structure TsCarries (data : Mem) (first : Bool) (pid : Nat) (body : List UInt8) : Prop where
  sync : data 0 = 0x47
  first : (decodeTsHeader data).payloadUnitStartIndicator = first
  pid : (decodeTsHeader data).pid = pid
  payload : (decodeTsHeader data).adaptationFieldControl = 1 ∨
    (decodeTsHeader data).adaptationFieldControl = 3
  npos : (decodeTsHeader data).npos + body.length = 188
  body : data.slice (decodeTsHeader data).npos body.length = body

/-- A PID of the map table that has no other meaning. -/
structure TsDemux.Streams (d : TsDemux) (pid : Nat) : Prop where
  plain : pid ∉ [0x00, 0x01, 0x02, 0x03, 0x11, 0x0042, 0x1FFF]
  isPmt : isPmt d pid = false
  once : d.streamPidVec.count pid = 1

/-- The tables of a demuxer, which packets of streams leave as they are. -/
def TsDemux.tables (d : TsDemux) : List PidInfo × List Nat := (d.pidVec, d.streamPidVec)

theorem TsDemux.Streams.congr {d d' : TsDemux} {pid : Nat} (h : d.Streams pid)
    (ht : d'.tables = d.tables) : d'.Streams pid := by
  obtain ⟨hpid, hstreams⟩ := Prod.mk.inj ht
  refine ⟨h.plain, ?_, ?_⟩
  · rw [MetaRtc.isPmt, hpid]
    exact h.isPmt
  · rw [hstreams]
    exact h.once

/-- `pes` is being collected: with the bytes so far, and the times it will be handed on with. -/
structure TsDemux.Collects (d : TsDemux) (pes : TsDelivery) : Prop where
  pid : pes.data ≠ [] → d.lastPid = pes.mediaType
  dts : d.lastDts = pes.dts
  pts : d.lastPts = pes.pts
  data : (d.dataBufferMap pes.mediaType).flatten = pes.data
  others : ∀ pid, pid ≠ pes.mediaType → (d.dataBufferMap pid).flatten = []

/-- What a PES without bytes is worth. -/
def TsDelivery.handedOn (pes : TsDelivery) : List TsDelivery := if pes.data = [] then [] else [pes]

section Steps

variable {d : TsDemux} {data : Mem} {pid : Nat} {body : List UInt8} {first : Bool}

theorem decodeStreams_none {unit : TsUnit} {streams : List Nat} (h : streams.count unit.pid = 0) :
    decodeStreams data unit streams d = .ret (true, d) := by
  induction streams with
  | nil => rfl
  | cons stream streams ih =>
    rw [List.count_eq_zero, List.mem_cons, not_or] at h
    rw [decodeStreams, if_neg h.1, ih (List.count_eq_zero.mpr h.2)]

theorem decodeStreams_once {unit : TsUnit} {streams : List Nat} (h : streams.count unit.pid = 1) :
    decodeStreams data unit streams d = decodePesPacket d data unit := by
  induction streams with
  | nil => cases h
  | cons stream streams ih =>
    rw [decodeStreams]
    by_cases hpid : unit.pid = stream
    · subst hpid
      rw [List.count_cons_self, Nat.add_right_cancel_iff] at h
      rw [if_pos rfl]
      cases hdec : decodePesPacket d data unit with
      | ret r =>
        obtain ⟨ok, d'⟩ := r
        cases ok
        · rfl
        · exact decodeStreams_none h
      | blocked => rfl
      | crash => rfl
    · rw [if_neg hpid, ih]
      rwa [List.count_cons_of_ne (Ne.symm hpid)] at h

theorem decodeUnit_stream (hc : TsCarries data first pid body) (hs : d.Streams pid) :
    decodeUnit d data = decodePesPacket d data (decodeTsHeader data) := by
  obtain ⟨h0, h1, h2, h3, h11, h42, hnull⟩ : pid ≠ 0x00 ∧ pid ≠ 0x01 ∧ pid ≠ 0x02 ∧ pid ≠ 0x03 ∧
      pid ≠ 0x11 ∧ pid ≠ 0x0042 ∧ pid ≠ 0x1FFF := by
    simpa only [List.mem_cons, List.not_mem_nil, or_false, not_or] using hs.plain
  unfold decodeUnit
  dsimp only
  rw [if_pos hc.payload, hc.pid, if_neg h0, if_neg (by simp only [h1, h2, h3, h11, or_self,
    not_false_eq_true]), hs.isPmt, if_neg Bool.false_ne_true, if_neg (by simp only [h42, hnull,
    or_self, not_false_eq_true]), decodeStreams_once (hc.pid ▸ hs.once)]

/-- What was being collected is handed on, if it has any bytes. -/
theorem onCallback_last {pes : TsDelivery} (hc : d.Collects pes) (hlen : pes.data.length < 2 ^ 31) :
    ∃ d', onCallback d d.lastPid d.lastDts d.lastPts = .ret d' ∧
      d'.delivered = d.delivered ++ pes.handedOn ∧ (∀ pid, (d'.dataBufferMap pid).flatten = []) ∧
      d'.tables = d.tables ∧ d'.lastDts = d.lastDts ∧ d'.lastPts = d.lastPts := by
  have hlast : (d.dataBufferMap d.lastPid).flatten = pes.data := by
    by_cases hnil : pes.data = []
    · by_cases hpid : d.lastPid = pes.mediaType
      · rw [hpid, hc.data]
      · rw [hnil, hc.others _ hpid]
    · rw [hc.pid hnil, hc.data]
  have hempty : ∀ pid, (update d.dataBufferMap d.lastPid [] pid).flatten = [] := by
    intro pid
    by_cases hpid : pid = d.lastPid
    · subst hpid
      simp
    · rw [update_of_ne hpid]
      by_cases hmedia : pid = pes.mediaType
      · by_cases hnil : pes.data = []
        · rw [hmedia, hc.data, hnil]
        · exact absurd (hmedia.trans (hc.pid hnil).symm) hpid
      · exact hc.others pid hmedia
  unfold onCallback
  dsimp only
  rw [hlast, if_neg (by omega)]
  by_cases hnil : pes.data = []
  · rw [if_neg (by simp [hnil])]
    refine ⟨_, rfl, ?_, hempty, rfl, rfl, rfl⟩
    rw [TsDelivery.handedOn, if_pos hnil, List.append_nil]
  · rw [if_pos (List.length_pos_iff.mpr hnil)]
    refine ⟨_, rfl, ?_, hempty, rfl, rfl, rfl⟩
    rw [TsDelivery.handedOn, if_neg hnil, hc.dts, hc.pts, hc.pid hnil]

theorem collects_nothing (hempty : ∀ pid, (d.dataBufferMap pid).flatten = []) (pid : Nat) :
    d.Collects ⟨[], pid, d.lastDts, d.lastPts⟩ where
  pid hne := absurd rfl hne
  dts := rfl
  pts := rfl
  data := hempty pid
  others q _ := hempty q

theorem collects_insert (hempty : ∀ pid, (d.dataBufferMap pid).flatten = []) (pid : Nat)
    (bytes : List UInt8) :
    (insertIntoDatabuf d bytes pid).Collects ⟨bytes, pid, d.lastDts, d.lastPts⟩ where
  pid _ := rfl
  dts := rfl
  pts := rfl
  data := by
    show ((update d.dataBufferMap pid (d.dataBufferMap pid ++ [bytes])) pid).flatten = bytes
    rw [update_self, List.flatten_append, hempty, List.nil_append, List.flatten_singleton]
  others q hq := by
    show ((update d.dataBufferMap pid (d.dataBufferMap pid ++ [bytes])) q).flatten = []
    rw [update_of_ne hq, hempty]

/-- A packet that goes on with the PES being collected. -/
theorem decodeUnit_more {pes : TsDelivery} (hc : TsCarries data false pid body) (hs : d.Streams pid)
    (hd : d.Collects pes) (hpid : pes.mediaType = pid) :
    ∃ d', decodeUnit d data = .ret (true, d') ∧ d'.delivered = d.delivered ∧
      d'.tables = d.tables ∧ d'.Collects { pes with data := pes.data ++ body } := by
  have hnpos := hc.npos
  refine ⟨insertIntoDatabuf d body pid, ?_, rfl, rfl, ?_⟩
  · rw [decodeUnit_stream hc hs, decodePesPacket, hc.first, if_neg Bool.false_ne_true,
      if_neg (by omega), show 188 - (decodeTsHeader data).npos = body.length by omega, hc.body,
      hc.pid]
    rfl
  · refine ⟨fun _ => hpid.symm, hd.dts, hd.pts, ?_, ?_⟩
    · subst hpid
      show ((update d.dataBufferMap pes.mediaType _) pes.mediaType).flatten = _
      rw [update_self, List.flatten_append, hd.data, List.flatten_singleton]
    · intro q hq
      subst hpid
      show ((update d.dataBufferMap pes.mediaType _) q).flatten = []
      rw [update_of_ne hq, hd.others q hq]

/-- Whether the first packet of a PES is taken for all of it. -/
def PesStart.TakenWhole (start : PesStart) (npos : Nat) : Prop := start.pesPacketLength + npos ≤ 188

instance (start : PesStart) (npos : Nat) : Decidable (start.TakenWhole npos) :=
  inferInstanceAs (Decidable (_ ≤ _))

/-- The PES that begins with a packet. -/
def PesStart.delivery (start : PesStart) (pid : Nat) (data : List UInt8) : TsDelivery :=
  ⟨data, pid, if start.dts = 0 then start.pts else start.dts, start.pts⟩

/-- A packet that begins a PES. What was being collected is handed on. -/
theorem decodeUnit_first {pes : TsDelivery} {start : PesStart} {header bytes : List UInt8}
    (hc : TsCarries data true pid (header ++ bytes)) (hs : d.Streams pid) (hd : d.Collects pes)
    (hlen : pes.data.length < 2 ^ 31)
    (hparse : pesParse (fun i => data ((decodeTsHeader data).npos + i)) = start)
    (hpos : start.pos = header.length) :
    ∃ d', decodeUnit d data = .ret (true, d') ∧ d'.tables = d.tables ∧
      d'.delivered = d.delivered ++ pes.handedOn ++
        (if start.TakenWhole (decodeTsHeader data).npos then (start.delivery pid bytes).handedOn
          else []) ∧
      d'.Collects (start.delivery pid
        (if start.TakenWhole (decodeTsHeader data).npos then [] else bytes)) := by
  have hnpos := hc.npos
  rw [List.length_append] at hnpos
  obtain ⟨d₁, hcallback, hdelivered, hempty, htables, -, -⟩ := onCallback_last hd hlen
  have hbytes : data.slice ((decodeTsHeader data).npos + start.pos)
      (188 - ((decodeTsHeader data).npos + start.pos)) = bytes := by
    rw [hpos, show 188 - ((decodeTsHeader data).npos + header.length) = bytes.length by omega]
    exact (Mem.slice_parts hc.body).2
  rw [decodeUnit_stream hc hs, decodePesPacket, if_pos hc.first, hcallback, Call.ret_bind]
  dsimp only
  rw [hparse, hbytes, hc.pid, if_neg (by omega), if_neg (by omega)]
  obtain ⟨d₂, hd₂⟩ : ∃ d₂ : TsDemux, d₂ = { d₁ with
      lastPts := start.pts
      lastDts := if start.dts = 0 then start.pts else start.dts } := ⟨_, rfl⟩
  have hempty₂ : ∀ pid, (d₂.dataBufferMap pid).flatten = [] := by
    rw [hd₂]
    exact hempty
  rw [← hd₂]
  have htables₂ : d₂.tables = d.tables := by
    rw [hd₂]
    exact htables
  have hdelivered₂ : d₂.delivered = d.delivered ++ pes.handedOn := by
    rw [hd₂]
    exact hdelivered
  have hwhen : ∀ bytes, start.delivery pid bytes = ⟨bytes, pid, d₂.lastDts, d₂.lastPts⟩ := by
    intro bytes
    rw [hd₂]
    rfl
  by_cases hnil : bytes = []
  · -- The header fills the packet.
    subst hnil
    rw [List.length_nil] at hnpos
    rw [if_neg (by omega)]
    refine ⟨d₂, rfl, htables₂, ?_, ?_⟩
    · have hnothing : (start.delivery pid []).handedOn = [] := if_pos rfl
      rw [hnothing, ite_self, List.append_nil, hdelivered₂]
    · rw [ite_self, hwhen]
      exact collects_nothing hempty₂ pid
  · have hpos' : 0 < bytes.length := List.length_pos_iff.mpr hnil
    have hinsert := collects_insert hempty₂ pid bytes
    rw [← hwhen] at hinsert
    rw [if_pos (by omega)]
    by_cases hwhole : start.TakenWhole (decodeTsHeader data).npos
    · obtain ⟨d₃, hcallback₃, hdelivered₃, hempty₃, htables₃, hdts₃, hpts₃⟩ :=
        onCallback_last hinsert (show bytes.length < 2 ^ 31 by omega)
      rw [if_pos hwhole, if_pos hwhole,
        if_pos (show start.pesPacketLength + (decodeTsHeader data).npos ≤ 188 from hwhole), hcallback₃]
      refine ⟨d₃, rfl, htables₃.trans htables₂, ?_, ?_⟩
      · rw [hdelivered₃]
        exact congrArg (· ++ _) hdelivered₂
      · have hnothing := collects_nothing hempty₃ pid
        rwa [hdts₃, hpts₃, show (insertIntoDatabuf d₂ bytes pid).lastDts = d₂.lastDts from rfl,
          show (insertIntoDatabuf d₂ bytes pid).lastPts = d₂.lastPts from rfl, ← hwhen] at hnothing
    · rw [if_neg hwhole, if_neg hwhole,
        if_neg (show ¬ start.pesPacketLength + (decodeTsHeader data).npos ≤ 188 from hwhole),
        List.append_nil]
      exact ⟨_, rfl, htables₂, hdelivered₂, hinsert⟩

end Steps

end MetaRtc
