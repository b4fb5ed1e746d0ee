import MetaRtc.Play.Classifiers
import MetaRtc.Publish.Packets
import MetaRtc.Rtp.RoundTrip

/-! # Aggregates there and back

Each unit stands behind its length, which is written as an unsigned number and read as a
signed one. -/
namespace MetaRtc

open Bytes

def VideoCodec.encodeStap : VideoCodec → OutBuffer → RtpSTAPData → Err × OutBuffer
  | .h264 => encodeH264Stap
  | .h265 => encodeH265Stap

def VideoCodec.stapHeader (nri : UInt8) : VideoCodec → List UInt8
  | .h264 => [kStapA ||| (nri &&& ~~~kNalTypeMask)]
  | .h265 => [h265KStapA <<< 1, 0]

def VideoCodec.stapHead : VideoCodec → Nat
  | .h264 => 1
  | .h265 => 2

/-- The forbidden bit is clear, where it is looked at. -/
def VideoCodec.Clear (v : UInt8) : VideoCodec → Prop
  | .h264 => ¬ v &&& 0x80 = 0x80
  | .h265 => True

/-- A sample with the length it says, which the aggregate can say too. -/
def YangSample.Sized (p : YangSample) : Prop := p.nb = p.bytes.length ∧ p.bytes.length < 32768

def unitSample (u : List UInt8) : YangSample := ⟨u.length, u⟩

section Encoding

theorem stapNaluBytes_sized {p : YangSample} (h : p.Sized) :
    stapNaluBytes p = beBytes 2 p.bytes.length ++ p.bytes := by
  obtain ⟨hnb, hlt⟩ := h
  have hpos : ¬ p.nb < 0 := by omega
  have hmod : (p.nb % 65536).toNat = p.bytes.length := by omega
  rw [stapNaluBytes, if_neg hpos, hmod]

variable {codec : VideoCodec} {nri : UInt8} {nalus : List YangSample} {size : Nat}
  {written : List UInt8}

@[simp] theorem stapHeader_length : (codec.stapHeader nri).length = codec.stapHead := by
  cases codec <;> rfl

theorem stapNaluBytes_length {p : YangSample} (h : p.nb = p.bytes.length) :
    (stapNaluBytes p).length = 2 + p.bytes.length := by
  rw [stapNaluBytes, if_neg (by omega), List.length_append, beBytes_length]

/-- Units with the lengths they say are all written where there is room. -/
theorem encodeStapNalus_room (hnb : ∀ p ∈ nalus, p.nb = p.bytes.length)
    (h : written.length + (nalus.flatMap stapNaluBytes).length ≤ size) :
    encodeStapNalus nalus ⟨size, written, false⟩ =
      (yangOk, ⟨size, written ++ nalus.flatMap stapNaluBytes, false⟩) := by
  induction nalus generalizing written with
  | nil => rw [List.flatMap_nil, List.append_nil]; rfl
  | cons p rest ih =>
    have hp := hnb p List.mem_cons_self
    have hlen := stapNaluBytes_length hp
    rw [List.flatMap_cons, List.length_append] at h
    have hreq : (⟨size, written, false⟩ : OutBuffer).require (2 + p.nb) = true :=
      OutBuffer.require_room (by omega) (by omega)
    have hunit : stapNaluBytes p = beBytes 2 (p.nb % 65536).toNat ++ p.bytes := by
      rw [stapNaluBytes, if_neg (by omega)]
    rw [encodeStapNalus, hreq]
    simp only [Bool.not_true, Bool.false_eq_true, if_false, if_neg (show ¬ p.nb < 0 by omega),
      OutBuffer.write2bytes]
    rw [OutBuffer.writeBytes_room (by rw [beBytes_length]; omega),
      OutBuffer.writeBytes_room (by rw [List.length_append, beBytes_length]; omega),
      List.append_assoc, ← hunit, ih (fun q hq => hnb q (List.mem_cons_of_mem _ hq))
        (by rw [List.length_append]; omega), List.flatMap_cons, List.append_assoc]

theorem encodeStap_room (hnb : ∀ p ∈ nalus, p.nb = p.bytes.length)
    (h : codec.stapHead + (nalus.flatMap stapNaluBytes).length ≤ size) :
    codec.encodeStap { size } { nri, nalus } =
      (yangOk, ⟨size, codec.stapHeader nri ++ nalus.flatMap stapNaluBytes, false⟩) := by
  have hhead : 1 ≤ codec.stapHead := by cases codec <;> decide
  have hreq : ({ size } : OutBuffer).require 1 = true :=
    OutBuffer.require_room (by decide) (by simp only [List.length_nil]; omega)
  have hroom : ∀ w : List UInt8, ∀ v, w.length + 1 ≤ codec.stapHead →
      (⟨size, w, false⟩ : OutBuffer).write1bytes v = ⟨size, w ++ [v], false⟩ := fun w v hw =>
    OutBuffer.writeBytes_room (by simp only [List.length_singleton]; omega)
  cases codec with
  | h264 =>
    show encodeH264Stap _ _ = _
    rw [encodeH264Stap, hreq]
    simp only [Bool.not_true, Bool.false_eq_true, if_false]
    rw [hroom [] _ (Nat.le_refl _)]
    exact encodeStapNalus_room hnb h
  | h265 =>
    show encodeH265Stap _ _ = _
    rw [encodeH265Stap, hreq]
    simp only [Bool.not_true, Bool.false_eq_true, if_false]
    rw [hroom [] _ (by decide), hroom _ _ (Nat.le_refl _)]
    exact encodeStapNalus_room hnb h

end Encoding

section Decoding

variable {codec : VideoCodec} {nri : UInt8} {m : Mem} {n : Nat} {acc units : List YangSample}
  {buf b : YangBuffer}

theorem slice_two (m : Mem) (p : Nat) : m.slice p 2 = beBytes 2 (m.be p 2) := by
  have hhigh : UInt8.ofNat (((m p).toNat * 256 + (m (p + 1)).toNat) / 256) = m p := by
    have hlt := (m (p + 1)).toNat_lt
    rw [show ((m p).toNat * 256 + (m (p + 1)).toNat) / 256 = (m p).toNat by omega,
      UInt8.ofNat_toNat]
  have hlow : UInt8.ofNat ((m p).toNat * 256 + (m (p + 1)).toNat) = m (p + 1) := by
    refine UInt8.toNat_inj.1 ?_
    have hlt := (m (p + 1)).toNat_lt
    rw [UInt8.toNat_ofNat']
    omega
  simp only [Mem.slice, Mem.be, beBytes, pow_zero, pow_one, Nat.zero_mul, Nat.zero_add,
    Nat.add_zero, Nat.div_one, hhigh, hlow]

/-- A length that is not read as a negative one is the length written. -/
theorem toInt16_nonneg {v : Nat} (hv : v < 65536) (h : 0 ≤ toInt16 v) :
    v < 32768 ∧ toInt16 v = v := by
  unfold toInt16 at h ⊢
  rw [Int.bmod_def] at h ⊢
  split at h
  · rename_i hlt
    rw [if_pos hlt]
    omega
  · omega

/-- The units of an aggregate, read back one by one. -/
theorem decodeStapNalus_bytes (buf : YangBuffer) {nalus : List YangSample}
    (hok : ∀ p ∈ nalus, p.Sized)
    (hle : buf.head ≤ buf.size)
    (h : buf.data.slice buf.head (buf.size - buf.head) = nalus.flatMap stapNaluBytes) {fuel : Nat}
    (hfuel : nalus.length < fuel) (acc : List YangSample) :
    ∃ b, decodeStapNalus fuel acc buf = (yangOk, acc ++ nalus, b) := by
  obtain ⟨fuel, rfl⟩ : ∃ k, fuel = k + 1 := ⟨fuel - 1, by omega⟩
  induction nalus generalizing buf fuel acc with
  | nil =>
    have hempty := congrArg List.length h
    rw [Mem.slice_length] at hempty
    have hend : buf.empty = true := decide_eq_true (by simp at hempty; omega)
    exact ⟨buf, by simp [decodeStapNalus, hend]⟩
  | cons p rest ih =>
    obtain ⟨hnb, hlt⟩ := hok p List.mem_cons_self
    have hbytes := stapNaluBytes_sized (hok p List.mem_cons_self)
    rw [List.flatMap_cons, hbytes, List.append_assoc] at h
    have hlen := congrArg List.length h
    simp only [Mem.slice_length, List.length_append, beBytes_length] at hlen
    obtain ⟨hsize, htail⟩ := Mem.slice_parts h
    rw [beBytes_length] at hsize htail
    obtain ⟨hunit, hrest⟩ := Mem.slice_parts htail
    have hbe : buf.data.be buf.head 2 = p.bytes.length := by
      rw [Mem.be_of_slice hsize]
      exact Nat.mod_eq_of_lt (by omega)
    have hint : toInt16 p.bytes.length = p.bytes.length := by
      unfold toInt16
      exact Int.bmod_eq_of_le (by omega) (by omega)
    have hmore : buf.empty = false := decide_eq_false (by omega)
    have htwo : buf.require 2 = true :=
      (YangBuffer.require_iff _ 2).mpr (by simp only [YangBuffer.left]; omega)
    have hroom : (buf.take 2).require p.bytes.length = true :=
      (YangBuffer.require_iff _ _).mpr (by
        simp only [YangBuffer.left, YangBuffer.take_size, YangBuffer.take_head]
        omega)
    have hsample : (⟨p.bytes.length, p.bytes⟩ : YangSample) = p := by
      rw [← hnb]
    obtain ⟨fuel, rfl⟩ : ∃ k, fuel = k + 1 := ⟨fuel - 1, by simp at hfuel; omega⟩
    have hread : buf.read2bytes = (p.bytes.length, buf.take 2) := by
      rw [← hbe]
      rfl
    rw [decodeStapNalus]
    simp only [hmore, Bool.false_eq_true, if_false, htwo, Bool.not_true, hread, hint, hroom,
      Int.toNat_natCast, YangBuffer.take_data, YangBuffer.take_head, hunit, hsample]
    have hskip : ((buf.take 2).skip p.bytes.length).head = buf.head + 2 + p.bytes.length := by
      simp only [YangBuffer.skip_head, YangBuffer.take_head]
      omega
    have hnext : ((buf.take 2).skip p.bytes.length).data.slice
        ((buf.take 2).skip p.bytes.length).head (((buf.take 2).skip p.bytes.length).size -
          ((buf.take 2).skip p.bytes.length).head) = rest.flatMap stapNaluBytes := by
      have hleft : buf.size - (buf.head + 2 + p.bytes.length) =
          (rest.flatMap stapNaluBytes).length := by omega
      rw [hskip, YangBuffer.skip_size, YangBuffer.take_size, YangBuffer.skip_data,
        YangBuffer.take_data, hleft, hrest]
    have hin : ((buf.take 2).skip p.bytes.length).head ≤
        ((buf.take 2).skip p.bytes.length).size := by
      rw [hskip]
      simp only [YangBuffer.skip_size, YangBuffer.take_size]
      omega
    have hall := ih ((buf.take 2).skip p.bytes.length)
      (fun q hq => hok q (List.mem_cons_of_mem _ hq)) hin hnext (acc ++ [p]) fuel
      (by simpa using hfuel)
    rwa [List.append_assoc] at hall

/-- What is read back from a buffer are units whose lengths are not negative, and their bytes
are the buffer's. -/
theorem decodeStapNalus_units {fuel : Nat} (hfuel : buf.size < buf.head + fuel)
    (h : decodeStapNalus fuel acc buf = (yangOk, units, b)) :
    ∃ nalus, units = acc ++ nalus ∧ (∀ p ∈ nalus, p.Sized) ∧
      nalus.flatMap stapNaluBytes = buf.data.slice buf.head (buf.size - buf.head) := by
  induction fuel generalizing acc buf with
  | zero =>
    obtain rfl : acc = units := congrArg (fun r => r.2.1) h
    exact ⟨[], (List.append_nil _).symm, fun p hp => (nomatch hp), by
      rw [Nat.sub_eq_zero_of_le (by omega)]; rfl⟩
  | succ fuel ih =>
    rw [decodeStapNalus] at h
    by_cases hempty : buf.empty = true
    · rw [if_pos hempty] at h
      obtain rfl : acc = units := congrArg (fun r => r.2.1) h
      exact ⟨[], (List.append_nil _).symm, fun p hp => (nomatch hp), by
        rw [Nat.sub_eq_zero_of_le (of_decide_eq_true hempty)]; rfl⟩
    rw [if_neg hempty] at h
    by_cases htwo : buf.require 2 = true
    · simp only [htwo, Bool.not_true, Bool.false_eq_true, if_false, YangBuffer.read2bytes,
        YangBuffer.readNum] at h
      by_cases hroom : (buf.take 2).require (toInt16 (buf.data.be buf.head 2)) = true
      · simp only [hroom, Bool.not_true, Bool.false_eq_true, if_false] at h
        rw [YangBuffer.require, Bool.and_eq_true, decide_eq_true_eq, decide_eq_true_eq] at hroom
        simp only [YangBuffer.left, YangBuffer.take_size, YangBuffer.take_head] at hroom
        obtain ⟨hlt, hint⟩ := toInt16_nonneg (buf.data.be_lt buf.head 2) hroom.1
        rw [hint] at h hroom
        generalize hk : buf.data.be buf.head 2 = k at h hroom hlt
        obtain ⟨nalus, hunits, hsized, hbytes⟩ := ih (by
          simp only [YangBuffer.skip_head, YangBuffer.skip_size, YangBuffer.take_size,
            YangBuffer.take_head]
          omega) h
        have hskip : ((buf.take 2).skip k).head = buf.head + 2 + k := by
          simp only [YangBuffer.skip_head, YangBuffer.take_head]
          omega
        have hsample : YangSample.Sized ⟨k, buf.data.slice (buf.head + 2) k⟩ :=
          ⟨by rw [Mem.slice_length], by rw [Mem.slice_length]; exact hlt⟩
        refine ⟨⟨k, buf.data.slice (buf.head + 2) k⟩ :: nalus, ?_, ?_, ?_⟩
        · rw [hunits, List.append_assoc]
          rfl
        · intro p hp
          rcases List.mem_cons.1 hp with rfl | hp
          · exact hsample
          · exact hsized p hp
        · rw [hskip, YangBuffer.skip_data, YangBuffer.take_data, YangBuffer.skip_size,
            YangBuffer.take_size] at hbytes
          have hparts : buf.size - buf.head = 2 + (k + (buf.size - (buf.head + 2 + k))) := by
            omega
          rw [List.flatMap_cons, hbytes, stapNaluBytes_sized hsample, Mem.slice_length, hparts,
            Mem.slice_append, Mem.slice_append, slice_two, hk, List.append_assoc]
      · rw [Bool.not_eq_true] at hroom
        simp only [hroom, Bool.not_false, if_true] at h
        exact absurd (congrArg Prod.fst h) (show ¬ errorRtcRtpMuxer = yangOk by decide)
    · rw [Bool.not_eq_true] at htwo
      simp only [htwo, Bool.not_false, if_true] at h
      exact absurd (congrArg Prod.fst h) (show ¬ errorRtcRtpMuxer = yangOk by decide)

theorem length_le_stapNaluBytes (nalus : List YangSample) :
    nalus.length ≤ (nalus.flatMap stapNaluBytes).length := by
  induction nalus with
  | nil => exact Nat.le_refl _
  | cons p rest ih =>
    simp only [List.flatMap_cons, List.length_cons, List.length_append, stapNaluBytes,
      beBytes_length]
    omega

theorem decodeStap_accepts (h : (codec.play.decodeStap (initBuffer m n) {}).1 = yangOk) :
    1 ≤ n ∧ codec.Clear (m 0) := by
  have hn : 1 ≤ n := by
    refine Nat.le_of_not_lt fun hn => ?_
    have hrefused : (codec.play.decodeStap (initBuffer m n) {}).1 = errorRtcRtpMuxer := by
      cases codec with
      | h264 =>
        show (decodeH264Stap _ _).1 = _
        rw [decodeH264Stap, YangBuffer.initBuffer_refuses (by omega)]
        rfl
      | h265 =>
        show (decodeH265Stap _ _).1 = _
        rw [decodeH265Stap, YangBuffer.initBuffer_refuses (by omega)]
        rfl
    exact absurd (h.symm.trans hrefused) (by decide)
  refine ⟨hn, ?_⟩
  cases codec with
  | h264 =>
    intro hbit
    have hrefused : (decodeH264Stap (initBuffer m n) {}).1 = errorRtcRtpMuxer := by
      rw [decodeH264Stap, YangBuffer.initBuffer_requires (by decide) (by omega)]
      exact congrArg Prod.fst (if_pos hbit)
    exact absurd (h.symm.trans hrefused) (by decide)
  | h265 => trivial

/-- The units behind the header of an aggregate that has one. -/
theorem decodeStap_units (hn : 1 ≤ n) (hclear : codec.Clear (m 0)) :
    ∃ nri, codec.play.decodeStap (initBuffer m n) {} =
      let (err, nalus, b) := decodeStapNalus (n - codec.stapHead + 1) []
        ((initBuffer m n).take codec.stapHead)
      (err, { nri, nalus }, b) := by
  have hreq : (initBuffer m n).require 1 = true :=
    YangBuffer.initBuffer_requires (by decide) (by omega)
  have hsize : ∀ k, ((initBuffer m n).take k).size - ((initBuffer m n).take k).head = n - k := by
    intro k
    simp only [YangBuffer.take_size, YangBuffer.take_head, initBuffer, Nat.zero_add]
  cases codec with
  | h264 =>
    refine ⟨m 0 &&& ~~~kNalTypeMask, ?_⟩
    show decodeH264Stap _ _ = _
    rw [decodeH264Stap, hreq]
    simp only [Bool.not_true, Bool.false_eq_true, if_false, hsize]
    exact if_neg hclear
  | h265 =>
    refine ⟨hevcNaluType (m 0), ?_⟩
    show decodeH265Stap _ _ = _
    rw [decodeH265Stap, hreq]
    simp only [Bool.not_true, Bool.false_eq_true, if_false, hsize]
    rfl

theorem stapHeader_clear (codec : VideoCodec) (nri : UInt8) (rest : List UInt8) :
    codec.Clear ((codec.stapHeader nri ++ rest).getD 0 0) ↔ codec.Clear nri := by
  have hbits : ∀ v : UInt8, (kStapA ||| (v &&& ~~~kNalTypeMask)) &&& 0x80 = 0x80 ↔
      v &&& 0x80 = 0x80 := forall_bytes (by decide +kernel)
  cases codec with
  | h264 => exact not_congr (hbits nri)
  | h265 => exact Iff.rfl

/-- What was encoded is decoded to the same units, if none is too long. -/
theorem decodeStap_bytes {nalus : List YangSample} (hsized : ∀ p ∈ nalus, p.Sized)
    (hclear : codec.Clear nri)
    (h : m.slice 0 (codec.stapHeader nri ++ nalus.flatMap stapNaluBytes).length =
      codec.stapHeader nri ++ nalus.flatMap stapNaluBytes) :
    ∃ data b, codec.play.decodeStap
        (initBuffer m (codec.stapHeader nri ++ nalus.flatMap stapNaluBytes).length) {} =
      (yangOk, data, b) ∧ data.nalus = nalus := by
  have hlen : (codec.stapHeader nri ++ nalus.flatMap stapNaluBytes).length =
      codec.stapHead + (nalus.flatMap stapNaluBytes).length := by
    rw [List.length_append, stapHeader_length]
  have hhead : 1 ≤ codec.stapHead := by cases codec <;> decide
  generalize (codec.stapHeader nri ++ nalus.flatMap stapNaluBytes).length = n at h hlen ⊢
  have hfirst : codec.Clear (m 0) := by
    have hm0 := m.slice_getD 0 (show 0 < n by omega) 0
    rw [h, Nat.zero_add] at hm0
    exact hm0 ▸ (stapHeader_clear codec nri _).2 hclear
  obtain ⟨-, hrest⟩ := Mem.slice_parts h
  rw [stapHeader_length, Nat.zero_add] at hrest
  have hleft : ((initBuffer m n).take codec.stapHead).size -
      ((initBuffer m n).take codec.stapHead).head = (nalus.flatMap stapNaluBytes).length := by
    show n - (0 + codec.stapHead) = _
    omega
  have hcount := length_le_stapNaluBytes nalus
  obtain ⟨nri', hdec⟩ := decodeStap_units (show 1 ≤ n by omega) hfirst
  obtain ⟨b, hall⟩ := decodeStapNalus_bytes ((initBuffer m n).take codec.stapHead) hsized
    (show 0 + codec.stapHead ≤ n by omega)
    (by rw [hleft]; show m.slice (0 + codec.stapHead) _ = _; rw [Nat.zero_add, hrest])
    (show nalus.length < n - codec.stapHead + 1 by omega) []
  rw [hall, List.nil_append] at hdec
  exact ⟨_, b, hdec, rfl⟩

end Decoding

/-- The units of a list, each behind its length, are as many bytes as the buffer has room for. -/
def StapFits (codec : VideoCodec) (units : List (List UInt8)) (size : Nat) : Prop :=
  codec.stapHead + (units.map fun u => 2 + u.length).sum ≤ size

/-- What is encoded is decoded to the same units, wherever the bytes lie. -/
def StapReturns (codec : VideoCodec) (nri : UInt8) (units : List (List UInt8)) (size : Nat) : Prop :=
  ∃ out, codec.encodeStap { size } { nri, nalus := units.map unitSample } = (yangOk, out) ∧
    ∀ m : Mem, m.slice 0 out.bytes.length = out.bytes →
      ∃ data b, codec.play.decodeStap (initBuffer m out.bytes.length) {} = (yangOk, data, b) ∧
        data.nalus = units.map unitSample

/-- What is decoded is encoded to the same bytes behind the header. -/
def StapEncodesAgain (codec : VideoCodec) (m : Mem) (n : Nat) : Prop :=
  ∀ data b, codec.play.decodeStap (initBuffer m n) {} = (yangOk, data, b) →
    ∀ size, codec.stapHead ≤ size → n ≤ size →
      ∃ out, codec.encodeStap { size } data = (yangOk, out) ∧
        out.bytes.drop codec.stapHead = m.slice codec.stapHead (n - codec.stapHead)

section Aggregate

variable {codec : VideoCodec} {nri : UInt8} {units : List (List UInt8)} {m : Mem} {n size : Nat}

theorem unitSamples_length (units : List (List UInt8)) :
    ((units.map unitSample).flatMap stapNaluBytes).length =
      (units.map fun u => 2 + u.length).sum := by
  induction units with
  | nil => rfl
  | cons u rest ih =>
    have hu : (stapNaluBytes (unitSample u)).length = 2 + u.length := stapNaluBytes_length rfl
    rw [List.map_cons, List.flatMap_cons, List.length_append, ih, hu, List.map_cons, List.sum_cons]

theorem unitSamples_nb (units : List (List UInt8)) :
    ∀ p ∈ units.map unitSample, p.nb = p.bytes.length := by
  intro p hp
  obtain ⟨u, -, rfl⟩ := List.mem_map.1 hp
  rfl

theorem encodeStap_units (h : StapFits codec units size) :
    codec.encodeStap { size } { nri, nalus := units.map unitSample } = (yangOk,
      ⟨size, codec.stapHeader nri ++ (units.map unitSample).flatMap stapNaluBytes, false⟩) :=
  encodeStap_room (unitSamples_nb units) (by rw [unitSamples_length]; exact h)

/-- An aggregate that is accepted says its units' lengths as signed numbers. -/
theorem decodeStap_sized {data : RtpSTAPData} {b : YangBuffer}
    (h : codec.play.decodeStap (initBuffer m n) {} = (yangOk, data, b)) :
    (∀ p ∈ data.nalus, p.Sized) ∧ data.nalus.flatMap stapNaluBytes =
      m.slice codec.stapHead (n - codec.stapHead) := by
  obtain ⟨hn, hclear⟩ := decodeStap_accepts (congrArg Prod.fst h)
  obtain ⟨nri, hdec⟩ := decodeStap_units hn hclear
  rw [h] at hdec
  have hread : decodeStapNalus (n - codec.stapHead + 1) [] ((initBuffer m n).take codec.stapHead) =
      (yangOk, data.nalus, b) := by
    have herr := congrArg Prod.fst hdec
    have hnalus := congrArg (fun r => r.2.1.nalus) hdec
    have hbuf := congrArg (fun r => r.2.2) hdec
    exact Prod.ext herr.symm (Prod.ext hnalus.symm hbuf.symm)
  have hfuel : ((initBuffer m n).take codec.stapHead).size <
      ((initBuffer m n).take codec.stapHead).head + (n - codec.stapHead + 1) := by
    show n < 0 + codec.stapHead + (n - codec.stapHead + 1)
    omega
  obtain ⟨nalus, hunits, hsized, hbytes⟩ := decodeStapNalus_units hfuel hread
  rw [List.nil_append] at hunits
  rw [hunits, hbytes]
  refine ⟨hsized, ?_⟩
  show m.slice (0 + codec.stapHead) (n - (0 + codec.stapHead)) = _
  rw [Nat.zero_add]

theorem stapReturns_short (hfits : StapFits codec units size)
    (h : StapReturns codec nri units size) : codec.Clear nri ∧ ∀ u ∈ units, u.length < 32768 := by
  obtain ⟨out, henc, hall⟩ := h
  rw [encodeStap_units hfits] at henc
  obtain ⟨data, b, hdec, hnalus⟩ := hall (ofList out.bytes) (slice_ofList out.bytes)
  obtain ⟨-, hclear⟩ := decodeStap_accepts (congrArg Prod.fst hdec)
  obtain ⟨hsized, -⟩ := decodeStap_sized hdec
  constructor
  · rw [← congrArg (fun r => r.2.bytes) henc] at hclear
    exact (stapHeader_clear codec nri _).1 hclear
  · intro u hu
    rw [hnalus] at hsized
    exact (hsized _ (List.mem_map_of_mem hu)).2

theorem stapReturns_of_short (hfits : StapFits codec units size) (hclear : codec.Clear nri)
    (hshort : ∀ u ∈ units, u.length < 32768) : StapReturns codec nri units size := by
  refine ⟨_, encodeStap_units hfits, fun m hm => ?_⟩
  have hsized : ∀ p ∈ units.map unitSample, p.Sized := by
    intro p hp
    obtain ⟨u, hu, rfl⟩ := List.mem_map.1 hp
    exact ⟨rfl, hshort u hu⟩
  exact decodeStap_bytes hsized hclear hm

/-- Units come back from an aggregate exactly where none has 32768 bytes or more (and in H264
the forbidden bit is clear), and an aggregate that is accepted is encoded to its units again. -/
theorem stap_there_and_back (codec : VideoCodec) :
    (∀ nri units size, (StapFits codec units size → StapReturns codec nri units size) ↔
        (StapFits codec units size → codec.Clear nri ∧ ∀ u ∈ units, u.length < 32768)) ∧
      ∀ m n, StapEncodesAgain codec m n := by
  refine ⟨fun nri units size => forall_congr' fun hfits =>
    ⟨stapReturns_short hfits, fun h => stapReturns_of_short hfits h.1 h.2⟩, ?_⟩
  intro m n data b hdec size hhead hn
  obtain ⟨hsized, hbytes⟩ := decodeStap_sized hdec
  refine ⟨_, encodeStap_room (fun p hp => (hsized p hp).1) ?_, ?_⟩
  · rw [hbytes, Mem.slice_length]
    omega
  · rw [List.drop_left' stapHeader_length, hbytes]

/-- A unit of 32768 bytes is sent and not accepted. -/
theorem long_unit_refused : ¬ ∀ codec nri units size,
    (∀ u ∈ units, u.length ≤ 65535) → VideoCodec.Clear nri codec → StapFits codec units size →
      StapReturns codec nri units size := by
  intro h
  obtain ⟨u, hu⟩ : ∃ u : List UInt8, u.length = 32768 :=
    ⟨List.replicate 32768 0, List.length_replicate⟩
  have hfits : StapFits .h264 [u] 32771 := by
    show 1 + ([u].map fun u => 2 + u.length).sum ≤ 32771
    rw [List.map_singleton, List.sum_singleton, hu]
  have hret := h .h264 0 [u] 32771 (fun v hv => by rw [List.mem_singleton.1 hv, hu]; decide)
    (show ¬ (0 : UInt8) &&& 0x80 = 0x80 by decide) hfits
  have hlt := (stapReturns_short hfits hret).2 u (List.mem_singleton.2 rfl)
  rw [hu] at hlt
  exact absurd hlt (Nat.lt_irrefl _)

end Aggregate

end MetaRtc
