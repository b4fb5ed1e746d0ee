import MetaRtc.Play.Collect

/-! # The units of an H264 frame as they are handed on

A key frame is taken apart again: the walk over the lengths finds the parameter sets and the
slice. -/
namespace MetaRtc

open Bytes Exec

/-- A unit behind its length stands at `p`. -/
structure UnitAt (m : Mem) (p : Nat) (nalu : List UInt8) : Prop where
  length : m.slice p 4 = beBytes 4 nalu.length
  bytes : m.slice (p + 4) nalu.length = nalu

section Walking

variable {m : Mem} {payload temp : Area} {p n len fuel : Nat} {nalu sps pps rest : List UInt8}
  {found : H264NaluData} {isKey isSpspps : UInt8 → Bool}

theorem unitAt_of_slice (h : m.slice p n = behindLength nalu ++ rest) :
    UnitAt m p nalu ∧ m.slice (p + (4 + nalu.length)) rest.length = rest := by
  have hlen : (behindLength nalu).length = 4 + nalu.length := by
    simp only [behindLength, List.length_append, beBytes_length]
  obtain ⟨hunit, hrest⟩ := Mem.slice_parts h
  obtain ⟨hlength, hbytes⟩ := Mem.slice_parts hunit
  rw [beBytes_length] at hlength hbytes
  rw [hlen] at hrest
  exact ⟨⟨hlength, hbytes⟩, hrest⟩

theorem unitAt_of_last (h : m.slice p n = behindLength nalu) : UnitAt m p nalu := by
  rw [← List.append_nil (behindLength nalu)] at h
  exact (unitAt_of_slice h).1

theorem unitAt_drop {q : Nat} (h : UnitAt m (q + p) nalu) : UnitAt (m.drop q) p nalu where
  length := by rw [Mem.slice_drop, h.length]
  bytes := by rw [Mem.slice_drop, ← Nat.add_assoc, h.bytes]

theorem unitAt_be (h : UnitAt m p nalu) (hlt : nalu.length < 2 ^ 32) : m.be p 4 = nalu.length := by
  rw [Mem.be_of_slice h.length]
  exact Nat.mod_eq_of_lt hlt

theorem unitAt_first (h : UnitAt m p nalu) (hne : nalu ≠ []) : m (p + 4) = nalu.getD 0 0 := by
  have hd := m.slice_getD (p + 4) (List.length_pos_of_ne_nil hne) 0
  rw [h.bytes] at hd
  exact hd.symm

/-- The walk passes by a unit that is no slice of a key frame. -/
theorem parseNaluLoop_skip (h : UnitAt payload.data p nalu) (hne : nalu ≠ [])
    (hin : p + (4 + nalu.length) ≤ len) (hlen : len ≤ payload.room) (hlt : len < 2 ^ 32)
    (hkey : isKey (nalu.getD 0 0) = false) :
    parseNaluLoop isKey isSpspps payload len (fuel + 1) p found =
      parseNaluLoop isKey isSpspps payload len fuel (p + (nalu.length + 4))
        (if isSpspps (nalu.getD 0 0) then { found with spsppsPos := p } else found) := by
  have hpos := List.length_pos_of_ne_nil hne
  have hfirst : payload.byte ((p : Int) + 4) = .ret (nalu.getD 0 0) := by
    rw [← unitAt_first h hne, show (p : Int) + 4 = (p + 4 : Nat) by omega]
    exact Area.byte_inside (by omega)
  have hbe : payload.be32 p = .ret nalu.length := by
    rw [← unitAt_be h (by omega)]
    exact Area.be32_inside (by omega)
  have hlt' : p < len := by omega
  have hle : ¬ nalu.length > len := by omega
  simp only [parseNaluLoop, hlt', if_true, hfirst, Call.ret_bind, hkey, Bool.false_eq_true,
    if_false, hbe, hle]

theorem parseNaluLoop_key (h : UnitAt payload.data p nalu) (hne : nalu ≠ [])
    (hin : p + (4 + nalu.length) ≤ len) (hlen : len ≤ payload.room)
    (hkey : isKey (nalu.getD 0 0) = true) :
    parseNaluLoop isKey isSpspps payload len (fuel + 1) p found =
      .ret { found with keyframePos := p } := by
  have hpos := List.length_pos_of_ne_nil hne
  have hfirst : payload.byte ((p : Int) + 4) = .ret (nalu.getD 0 0) := by
    rw [← unitAt_first h hne, show (p : Int) + 4 = (p + 4 : Nat) by omega]
    exact Area.byte_inside (by omega)
  have hlt' : p < len := by omega
  simp only [parseNaluLoop, hlt', if_true, hfirst, Call.ret_bind, hkey, Call.pure_eq]

theorem toInt32_small {v : Int} (hlo : 0 ≤ v) (h : v < 2 ^ 31) : toInt32 v = v := by
  unfold toInt32
  exact Int.bmod_eq_of_le (by omega) (by omega)

/-- Parameter sets that are short enough give a record. -/
theorem getH264SpsppseNalu_units (hsps : UnitAt temp.data p sps)
    (hpps : UnitAt temp.data (p + (4 + sps.length)) pps)
    (hin : p + (4 + sps.length) + (4 + pps.length) + 4 ≤ temp.room)
    (hs : sps.length ≤ n) (hp : pps.length ≤ n) (hfit : sps.length + pps.length + 16 ≤ 256)
    (metaBuf : Area) (hroom : metaBuf.room = 256) :
    ∃ buf nb, getH264SpsppseNalu metaBuf n temp p = .ret (some (buf, nb)) := by
  have hspsLen : temp.be32 p = .ret sps.length := by
    rw [← unitAt_be hsps (by omega)]
    exact Area.be32_inside (by omega)
  have hppsLen : temp.be32 ((p : Int) + 4 + sps.length) = .ret pps.length := by
    rw [← unitAt_be hpps (by omega),
      show (p : Int) + 4 + sps.length = (p + (4 + sps.length) : Nat) by omega]
    exact Area.be32_inside (by omega)
  have hlens : toInt32 sps.length = sps.length ∧ toInt32 pps.length = pps.length :=
    ⟨toInt32_small (by omega) (by omega), toInt32_small (by omega) (by omega)⟩
  have hsum : ¬ toInt32 ((sps.length : Int) + pps.length + 8) > yangNaluSpsppsBufferLen := by
    rw [toInt32_small (by omega) (by omega), yangNaluSpsppsBufferLen]
    omega
  have hwhole : ¬ ((sps.length : Int) > n ∨ (pps.length : Int) > n) := by omega
  have hprofile : temp.read ((p : Int) + 4 + 1) 3 = .ret (temp.data.slice (p + 5) 3) := by
    rw [show (p : Int) + 4 + 1 = (p + 5 : Nat) by omega]
    exact Area.read_inside (n := 3) (by omega)
  have hspsRead : temp.read ((p : Int) + 4) sps.length = .ret sps := by
    have hread := Area.read_inside (a := temp) (i := p + 4) (n := sps.length) (by omega)
    rwa [hsps.bytes] at hread
  have hppsRead : temp.read ((p : Int) + 4 + sps.length + 4) pps.length = .ret pps := by
    have hread := Area.read_inside (a := temp) (i := p + (4 + sps.length) + 4) (n := pps.length)
      (by omega)
    rw [hpps.bytes] at hread
    rwa [show (p : Int) + 4 + sps.length + 4 = (p + (4 + sps.length) + 4 : Nat) by omega]
  unfold getH264SpsppseNalu
  rw [hspsLen, Call.ret_bind]
  simp only [hlens.1]
  rw [hppsLen, Call.ret_bind]
  simp only [hlens.2]
  rw [if_neg hsum, if_neg hwhole]
  simp only [getConfigMetaH264, hprofile, hspsRead, hppsRead, Call.ret_bind]
  rw [Area.write_inside]
  · exact ⟨_, _, rfl⟩
  · simp only [List.length_append, List.length_cons, List.length_nil, beBytes_length,
      Mem.slice_length, hroom]
    omega

end Walking

section Handing

variable {nalu sps pps : List UInt8}

theorem behindLength_length (nalu : List UInt8) : (behindLength nalu).length = 4 + nalu.length := by
  simp only [behindLength, List.length_append, beBytes_length]

/-- The tag and the kind of a frame, and the bytes behind its five. -/
theorem frame_tag {temp : Area} {tag kind a b c : UInt8} {bs : List UInt8}
    (hfit : 5 + bs.length ≤ temp.room)
    (h : temp.data.slice 0 (5 + bs.length) = tag :: kind :: a :: b :: c :: bs) :
    temp.byte 0 = .ret tag ∧ temp.byte 1 = .ret kind ∧ temp.data.slice 5 bs.length = bs := by
  have h0 := temp.data.slice_getD 0 (show 0 < 5 + bs.length by omega) 0
  have h1 := temp.data.slice_getD 0 (show 1 < 5 + bs.length by omega) 0
  rw [h] at h0 h1
  have hparts : temp.data.slice 0 (5 + bs.length) = [tag, kind, a, b, c] ++ bs := h
  obtain ⟨-, hrest⟩ := Mem.slice_parts hparts
  refine ⟨?_, ?_, hrest⟩
  · have hbyte := Area.byte_inside (a := temp) (i := 0) (by omega)
    rwa [← h0] at hbyte
  · have hbyte := Area.byte_inside (a := temp) (i := 1) (by omega)
    rwa [← h1] at hbyte

/-- A slice that is no key frame is handed on as it is. -/
theorem handsOn_inter (ts : Nat) (hne : nalu ≠ [])
    (htype : nalu.getD 0 0 &&& kNalTypeMask = yangAvcNaluTypeNonIDR)
    (hfit : 5 + (4 + nalu.length) ≤ yangVideoEncodeBufferLen) :
    HandsOn playH264 false (behindLength nalu) ts [⟨.P, behindLength nalu, ts⟩] := by
  intro temp hroom htemp
  have hlen := behindLength_length nalu
  have hpos := List.length_pos_of_ne_nil hne
  obtain ⟨htag, hkind, hunits⟩ := frame_tag (by rw [hlen, hroom]; exact hfit) htemp
  have hunit : UnitAt temp.data 5 nalu := unitAt_of_last hunits
  have hfirst : (temp.drop 5).byte 4 = .ret (nalu.getD 0 0) := by
    rw [← unitAt_first hunit hne]
    exact Area.byte_inside (a := temp.drop 5) (i := 4) (by simp only [Area.drop]; omega)
  have hnb : ¬ 5 + (behindLength nalu).length > yangVideoEncodeBufferLen := by omega
  refine ⟨[⟨.P, behindLength nalu, ts⟩], ?_, rfl⟩
  simp only [playtrackReceiveVideo, hnb, if_false, htag, hkind, Call.ret_bind, playH264,
    Bool.false_eq_true, and_self, if_true, hasH264Pframe, hfirst, htype, decide_true,
    Call.pure_eq, Nat.add_sub_cancel_left, hunits]

/-- Of parameter sets and a slice the walk gives the places of both. -/
theorem parseH264Nalu_units (payload : Area) (len : Nat) (hspsAt : UnitAt payload.data 0 sps)
    (hppsAt : UnitAt payload.data (4 + sps.length) pps)
    (hnaluAt : UnitAt payload.data (4 + sps.length + (4 + pps.length)) nalu) (hsps : sps ≠ [])
    (hpps : pps ≠ []) (hne : nalu ≠ [])
    (hspsType : sps.getD 0 0 &&& kNalTypeMask = yangAvcNaluTypeSPS)
    (hppsType : pps.getD 0 0 &&& kNalTypeMask = yangAvcNaluTypePPS)
    (htype : nalu.getD 0 0 &&& kNalTypeMask = yangAvcNaluTypeIDR)
    (hlen : len = 4 + sps.length + (4 + pps.length) + (4 + nalu.length))
    (hroom : len ≤ payload.room) (hlt : len < 2 ^ 32) :
    parseH264Nalu payload len =
      .ret ⟨0, (4 + sps.length + (4 + pps.length) : Nat)⟩ := by
  have hspsNext : 0 + (sps.length + 4) = 4 + sps.length := by omega
  have hppsNext : 4 + sps.length + (pps.length + 4) = 4 + sps.length + (4 + pps.length) := by omega
  obtain ⟨fuel, hfuel⟩ : ∃ fuel, len + 1 = fuel + 1 + 1 + 1 := ⟨len - 2, by omega⟩
  unfold parseH264Nalu
  rw [hfuel, parseNaluLoop_skip hspsAt hsps (by omega) hroom hlt (by rw [hspsType]; decide),
    hspsNext, parseNaluLoop_skip hppsAt hpps (by omega) hroom hlt (by rw [hppsType]; decide),
    hppsNext, parseNaluLoop_key hnaluAt hne (by omega) hroom (by rw [htype]; decide), hspsType,
    hppsType]
  rfl

/-- Of a key frame the slice alone is handed on, behind a record of the parameter sets. -/
theorem handsOn_key (ts : Nat) (hsps : sps ≠ []) (hpps : pps ≠ []) (hne : nalu ≠ [])
    (hspsType : sps.getD 0 0 &&& kNalTypeMask = yangAvcNaluTypeSPS)
    (hppsType : pps.getD 0 0 &&& kNalTypeMask = yangAvcNaluTypePPS)
    (htype : nalu.getD 0 0 &&& kNalTypeMask = yangAvcNaluTypeIDR)
    (hmeta : sps.length + pps.length + 16 ≤ 256)
    (hfit : 5 + ((4 + sps.length) + (4 + pps.length) + (4 + nalu.length)) ≤
      yangVideoEncodeBufferLen) :
    HandsOn playH264 true (behindLength sps ++ (behindLength pps ++ behindLength nalu)) ts
      [⟨.I, behindLength nalu, ts⟩] := by
  intro temp hroom htemp
  have hlen : (behindLength sps ++ (behindLength pps ++ behindLength nalu)).length =
      4 + sps.length + (4 + pps.length + (4 + nalu.length)) := by
    simp only [List.length_append, behindLength_length]
  obtain ⟨htag, hkind, hunits⟩ := frame_tag (by rw [hlen, hroom]; omega) htemp
  obtain ⟨hspsAt, hrest⟩ := unitAt_of_slice hunits
  obtain ⟨hppsAt, hlast⟩ := unitAt_of_slice hrest
  have hnaluAt := unitAt_of_last hlast
  have hmax : yangVideoEncodeBufferLen = 524288 := rfl
  have hdrop : (temp.drop 5).room = 524283 := by
    simp only [Area.drop, hroom, hmax]
  have hparse := parseH264Nalu_units (temp.drop 5)
    (behindLength sps ++ (behindLength pps ++ behindLength nalu)).length
    (unitAt_drop (p := 0) hspsAt) (unitAt_drop hppsAt)
    (unitAt_drop (by rwa [Nat.add_assoc] at hnaluAt)) hsps hpps hne hspsType hppsType htype
    (by omega) (by omega) (by omega)
  obtain ⟨buf, nb, hrecord⟩ := getH264SpsppseNalu_units
    (n := (behindLength sps ++ (behindLength pps ++ behindLength nalu)).length) hspsAt hppsAt
    (by omega) (by omega) (by omega) hmeta ⟨fun _ => 0, yangNaluSpsppsBufferLen⟩ rfl
  have hnb : ¬ 5 + (behindLength sps ++ (behindLength pps ++ behindLength nalu)).length >
      yangVideoEncodeBufferLen := by omega
  refine ⟨[⟨.Spspps, buf.data.slice 0 nb, ts⟩, ⟨.I, behindLength nalu, ts⟩], ?_, rfl⟩
  simp only [playtrackReceiveVideo, hnb, if_false, htag, hkind, Call.ret_bind, playH264,
    if_true, show (0x17 : UInt8) ≠ 0x27 by decide, show (0x01 : UInt8) ≠ 0x00 by decide, false_and,
    and_false, and_self]
  have hpos : ((4 + sps.length + (4 + pps.length) : Nat) : Int) > -1 := by omega
  have hrest : (behindLength sps ++ (behindLength pps ++ behindLength nalu)).length -
      (4 + sps.length + (4 + pps.length)) = (behindLength nalu).length := by
    rw [behindLength_length]
    omega
  rw [Nat.add_assoc] at hlast
  simp only [receiveKeyframe, Nat.add_sub_cancel_left, hparse, Call.ret_bind, hpos, if_true,
    Int.toNat_natCast, show (0 : Int) > -1 by decide, hrest, hlast]
  rw [Int.add_zero]
  exact Call.bind_eq_ret.mpr ⟨_, hrecord, rfl⟩

end Handing

end MetaRtc
