import MetaRtc.Rtp.PacketBounds

/-! # The parser that reads ahead and the decoder of the packet

The decoder walks the block to its end and takes the last number it comes to. The parser takes
the first. -/
namespace MetaRtc

open Bytes Loop

/-- The numbers that the elements of an identifier carry between `p` and the end of the block. -/
def twccNumbers (m : Mem) (twccId stop p : Nat) : List Nat :=
  if p < stop then
    if IsSought m twccId p then m.be (p + 1) 2 :: twccNumbers m twccId stop (behind m p)
    else twccNumbers m twccId stop (behind m p)
  else []
termination_by stop - p
decreasing_by
  all_goals
    have hlt := lt_behind m p
    omega

/-- The numbers of the identifier in the block, if there is one of one-byte elements. -/
def blockNumbers (m : Mem) (twccId : Nat) : List Nat :=
  if (m 0).toNat / 16 % 2 = 1 ∧ m.be (12 + 4 * csrcCount m) 2 = 0xBEDE then
    twccNumbers m twccId (blockEnd m) (blockStart m)
  else []

section Numbers

variable {m : Mem} {twccId stop p : Nat}

theorem twccNumbers_over (h : stop ≤ p) : twccNumbers m twccId stop p = [] := by
  rw [twccNumbers, if_neg (by omega)]

theorem twccNumbers_sought (h : p < stop) (hs : IsSought m twccId p) :
    twccNumbers m twccId stop p =
      m.be (p + 1) 2 :: twccNumbers m twccId stop (behind m p) := by
  rw [twccNumbers, if_pos h, if_pos hs]

theorem twccNumbers_passed (h : p < stop) (hs : ¬ IsSought m twccId p) :
    twccNumbers m twccId stop p = twccNumbers m twccId stop (behind m p) := by
  rw [twccNumbers, if_pos h, if_neg hs]

end Numbers

/-! ## The decoder -/

section Decoder

variable {fuel : Nat} {types : RtpExtensionTypes} {ext : RtpExtensions} {buf : YangBuffer}

/-- What is left in the record once the last of some numbers has been taken. -/
def RtpExtensionTwcc.last (twcc : RtpExtensionTwcc) (twccId : Nat) (numbers : List Nat) :
    RtpExtensionTwcc :=
  (numbers.getLast?.map fun sn => ⟨true, twccId, sn⟩).getD twcc

theorem RtpExtensionTwcc.last_cons (twcc : RtpExtensionTwcc) (twccId sn : Nat) (rest : List Nat) :
    twcc.last twccId (sn :: rest) = (⟨true, twccId, sn⟩ : RtpExtensionTwcc).last twccId rest := by
  rw [last, last, List.getLast?_cons]
  cases rest.getLast? <;> rfl

/-- An element that is decoded has a number of two bytes. -/
theorem decodeRtpExtensionsTwcc_ok {twcc : RtpExtensionTwcc}
    (h : (decodeRtpExtensionsTwcc twcc buf).1 = yangOk) :
    (buf.data buf.head).toNat % 16 = 1 ∧ ∃ fault, decodeRtpExtensionsTwcc twcc buf =
      (yangOk, ⟨true, (buf.data buf.head).toNat / 16, buf.data.be (buf.head + 1) 2⟩,
        { buf with head := buf.head + 3, fault }) := by
  unfold decodeRtpExtensionsTwcc at h ⊢
  split at h
  · exact absurd h (show ¬ errorRtcRtpMuxer = yangOk by decide)
  rename_i hreq
  rw [if_neg hreq]
  simp only [YangBuffer.read1bytes, YangBuffer.readNum, Mem.be_one] at h ⊢
  split at h
  · exact absurd h (show ¬ errorRtcRtp = yangOk by decide)
  rename_i hlen
  rw [if_neg hlen]
  rw [not_or, not_not] at hlen
  split at h
  · exact absurd h (show ¬ errorRtcRtpMuxer = yangOk by decide)
  rename_i hreq₂
  rw [if_neg hreq₂]
  exact ⟨hlen.2, _, rfl⟩

theorem decodeRtpExtensionsOneByte_ok {one : RtpExtensionOneByte}
    (h : (decodeRtpExtensionsOneByte one buf).1 = yangOk) :
    (buf.data buf.head).toNat % 16 = 0 ∧ ∃ level fault, decodeRtpExtensionsOneByte one buf =
      (yangOk, level, { buf with head := buf.head + 2, fault }) := by
  unfold decodeRtpExtensionsOneByte at h ⊢
  split at h
  · exact absurd h (show ¬ errorRtcRtpMuxer = yangOk by decide)
  rename_i hreq
  rw [if_neg hreq]
  simp only [YangBuffer.read1bytes, YangBuffer.readNum, Mem.be_one] at h ⊢
  split at h
  · exact absurd h (show ¬ errorRtcRtp = yangOk by decide)
  rename_i hlen
  rw [if_neg hlen]
  rw [not_or, not_not] at hlen
  exact ⟨hlen.2, _, _, rfl⟩

/-- A pass over an element that is sought, in a block that is accepted. -/
theorem decode0xbede_sought (htypes : ext.types = some types)
    (hdecode : ext.decodeTwccExtension = true) (hlt : buf.head < buf.size)
    (hs : IsSought buf.data types.transportSequenceNumber buf.head)
    (hok : (decode0xbedeLoop (fuel + 1) ext buf).1 = yangOk) :
    behind buf.data buf.head = buf.head + 3 ∧
      ∃ fault, decode0xbedeLoop (fuel + 1) ext buf = decode0xbedeLoop fuel
        { ext with
          twcc := ⟨true, types.transportSequenceNumber, buf.data.be (buf.head + 1) 2⟩
          hasExt := true }
        { buf with head := buf.head + 3, fault } := by
  have hempty : buf.empty ≠ true := by simpa [YangBuffer.empty] using hlt
  have hreq : buf.require 1 = true := (buf.require_iff 1).2 (by rw [YangBuffer.left]; omega)
  have htype : getRtpExtensionType types ((buf.data buf.head).toNat / 16) =
      .transportSequenceNumber := if_pos hs.2.symm
  rw [decode0xbedeLoop, if_neg hempty, hreq] at hok ⊢
  simp only [Bool.not_true, Bool.false_eq_true, if_false, htypes, Option.map_some,
    Option.getD_some, hdecode, if_true, if_neg hs.1, htype] at hok ⊢
  by_cases herr : (decodeRtpExtensionsTwcc ext.twcc (buf.touch 1)).1 = yangOk
  · obtain ⟨hlen, fault, hdec⟩ := decodeRtpExtensionsTwcc_ok herr
    simp only [YangBuffer.touch_data, YangBuffer.touch_head] at hlen hdec
    refine ⟨?_, fault, ?_⟩
    · rw [behind, if_neg hs.1, hlen]
    · simp only [hdec, hs.2]
      rfl
  · rw [if_pos herr] at hok
    exact absurd hok herr

/-- A pass over padding or another element. -/
theorem decode0xbede_passed (htypes : ext.types = some types)
    (hdecode : ext.decodeTwccExtension = true) (hlt : buf.head < buf.size)
    (hs : ¬ IsSought buf.data types.transportSequenceNumber buf.head)
    (hok : (decode0xbedeLoop (fuel + 1) ext buf).1 = yangOk) :
    ∃ ext' : RtpExtensions, ∃ fault, ext'.types = some types ∧ ext'.decodeTwccExtension = true ∧
      ext'.twcc = ext.twcc ∧ decode0xbedeLoop (fuel + 1) ext buf =
        decode0xbedeLoop fuel ext' { buf with head := behind buf.data buf.head, fault } := by
  have hempty : buf.empty ≠ true := by simpa [YangBuffer.empty] using hlt
  have hreq : buf.require 1 = true := (buf.require_iff 1).2 (by rw [YangBuffer.left]; omega)
  rw [decode0xbedeLoop, if_neg hempty, hreq] at hok ⊢
  by_cases hv : (buf.data buf.head).toNat = 0
  · refine ⟨ext, (buf.touch 1).fault, htypes, hdecode, rfl, ?_⟩
    simp only [Bool.not_true, Bool.false_eq_true, if_false, if_pos hv, behind]
    rfl
  have hid : types.transportSequenceNumber ≠ (buf.data buf.head).toNat / 16 :=
    fun hid => hs ⟨hv, hid.symm⟩
  by_cases haudio : types.audioLevel = (buf.data buf.head).toNat / 16
  · have htype : getRtpExtensionType types ((buf.data buf.head).toNat / 16) = .audioLevel := by
      rw [getRtpExtensionType, if_neg hid, if_pos haudio]
    simp only [Bool.not_true, Bool.false_eq_true, if_false, htypes, Option.map_some,
      Option.getD_some, if_neg hv, htype] at hok ⊢
    by_cases herr : (decodeRtpExtensionsOneByte ext.audioLevel (buf.touch 1)).1 = yangOk
    · obtain ⟨hlen, level, fault, hdec⟩ := decodeRtpExtensionsOneByte_ok herr
      simp only [YangBuffer.touch_data, YangBuffer.touch_head] at hlen hdec
      refine ⟨{ ext with audioLevel := level, hasExt := true }, fault, htypes, hdecode, rfl, ?_⟩
      simp only [hdec, behind, if_neg hv, hlen, htypes]
      rfl
    · rw [if_pos herr] at hok
      exact absurd hok herr
  · have htype : getRtpExtensionType types ((buf.data buf.head).toNat / 16) = .none := by
      rw [getRtpExtensionType, if_neg hid, if_neg haudio]
    simp only [Bool.not_true, Bool.false_eq_true, if_false, htypes, Option.map_some,
      Option.getD_some, if_neg hv, htype]
    refine ⟨ext, (buf.touch 1).fault, htypes, hdecode, rfl, ?_⟩
    refine congrArg (decode0xbedeLoop fuel ext) (YangBuffer.ext rfl rfl rfl ?_ rfl)
    simp only [behind, if_neg hv, YangBuffer.skip_head, YangBuffer.touch_head]
    omega

/-- The block that is accepted: its last number is what the record says. -/
theorem decode0xbede_numbers (htypes : ext.types = some types)
    (hdecode : ext.decodeTwccExtension = true) (hfuel : buf.size < buf.head + fuel)
    (hok : (decode0xbedeLoop fuel ext buf).1 = yangOk) :
    (decode0xbedeLoop fuel ext buf).2.1.twcc = ext.twcc.last types.transportSequenceNumber
      (twccNumbers buf.data types.transportSequenceNumber buf.size buf.head) := by
  induction fuel generalizing ext buf with
  | zero =>
    rw [twccNumbers_over (by omega)]
    rfl
  | succ fuel ih =>
    by_cases hlt : buf.head < buf.size
    · by_cases hs : IsSought buf.data types.transportSequenceNumber buf.head
      · obtain ⟨hbehind, fault, hpass⟩ := decode0xbede_sought htypes hdecode hlt hs hok
        rw [hpass] at hok ⊢
        rw [twccNumbers_sought hlt hs, RtpExtensionTwcc.last_cons, hbehind]
        exact ih htypes hdecode (show buf.size < buf.head + 3 + fuel by omega) hok
      · obtain ⟨ext', fault, htypes', hdecode', htwcc, hpass⟩ :=
          decode0xbede_passed htypes hdecode hlt hs hok
        have hbehind := lt_behind buf.data buf.head
        rw [hpass] at hok ⊢
        rw [twccNumbers_passed hlt hs, ← htwcc]
        exact ih htypes' hdecode' (show buf.size < behind buf.data buf.head + fuel by omega) hok
    · have hempty : buf.empty = true := decide_eq_true (Nat.le_of_not_lt hlt)
      rw [decode0xbedeLoop, if_pos hempty, twccNumbers_over (Nat.le_of_not_lt hlt)]
      rfl

variable {m : Mem} {n : Nat}

/-- A header for which two identifiers are registered. -/
def RtpHeader.registered (header : RtpHeader) (types : RtpExtensionTypes) : RtpHeader :=
  { header with extensions := some { decodeTwccExtension := true, types := some types } }

theorem decodeRtpExtensions_numbers (htypes : ext.types = some types)
    (hdecode : ext.decodeTwccExtension = true) (hext : (m 0).toNat / 16 % 2 = 1)
    (hok : (decodeRtpExtensions ext (behindCsrc m n)).1 = yangOk) :
    (decodeRtpExtensions ext (behindCsrc m n)).2.1.twcc =
      ext.twcc.last types.transportSequenceNumber
        (blockNumbers m types.transportSequenceNumber) := by
  by_cases hshort : n < blockStart m
  · rw [decodeRtpExtensions_short hshort] at hok
    exact absurd hok (show ¬ errorRtcRtpMuxer = yangOk by decide)
  rw [decodeRtpExtensions_profile (Nat.le_of_not_lt hshort)] at hok ⊢
  by_cases hprofile : m.be (12 + 4 * csrcCount m) 2 = 0xBEDE
  · rw [if_pos hprofile] at hok ⊢
    rw [blockNumbers, if_pos ⟨hext, hprofile⟩]
    have hfuel : blockEnd m < blockStart m + (blockEnd m - blockStart m + 1) := by omega
    exact @decode0xbede_numbers _ types ext ⟨m, n, blockEnd m, blockStart m, false⟩ htypes hdecode
      hfuel hok
  · have hnone : blockNumbers m types.transportSequenceNumber = [] :=
      if_neg fun h => hprofile h.2
    rw [if_neg hprofile, hnone]
    split <;> rfl

theorem decodePadding_extensions {padding : Prop} [Decidable padding] {header : RtpHeader} :
    (decodePadding padding header buf).2.1.extensions = header.extensions := by
  unfold decodePadding
  split
  · extract_lets
    split <;> rfl
  · rfl

theorem decodeRtpHeader_numbers {header : RtpHeader}
    (hok : (decodeRtpHeader (initBuffer m n) (header.registered types)).1 = yangOk) :
    (decodeRtpHeader (initBuffer m n) (header.registered types)).2.1.extensions.map (·.twcc) =
      some (({} : RtpExtensionTwcc).last types.transportSequenceNumber
        (blockNumbers m types.transportSequenceNumber)) := by
  by_cases hn : n < 12
  · rw [decodeRtpHeader_short hn] at hok
    exact absurd hok (show ¬ errorRtcRtpMuxer = yangOk by decide)
  rw [decodeRtpHeader_rest (Nat.le_of_not_lt hn)] at hok ⊢
  by_cases hext : (m 0).toNat / 16 % 2 = 1
  · by_cases herr :
        (decodeRtpExtensions ((fixedHeader m n (header.registered types)).extensions.getD {})
          (behindCsrc m n)).1 = yangOk
    · have hnumbers := decodeRtpExtensions_numbers (show _ = some types from rfl) rfl hext herr
      rw [decodeHeaderRest_accepted hext (Prod.ext herr rfl), decodePadding_extensions]
      exact congrArg some hnumbers
    · rw [decodeHeaderRest_refused hext herr] at hok
      exact absurd hok herr
  · have hnone : blockNumbers m types.transportSequenceNumber = [] := if_neg fun h => hext h.1
    rw [decodeHeaderRest_plain hext, decodePadding_extensions, hnone]
    rfl

end Decoder

/-! ## Both -/

/-- From `p` on an element of the identifier comes before the end that 16 bits tell. -/
inductive Comes (m : Mem) (twccId stop : Nat) : Nat → Prop where
  | here {p : Nat} (hp : p % 65536 ≠ stop % 65536) (hs : IsSought m twccId p) :
      Comes m twccId stop p
  | pass {p : Nat} (hp : p % 65536 ≠ stop % 65536) (hs : ¬ IsSought m twccId p)
      (h : Comes m twccId stop (behind m p)) : Comes m twccId stop p

section Parser

variable {m : Mem} {twccId limit stop : Nat} {s : FastTwcc}

theorem run_comes {fuel sn : Nat} {fault : Bool} (h : s.At stop)
    (hr : run (fastTwccPass m twccId limit) fuel s = some (some sn, fault)) :
    Comes m twccId stop s.buf := by
  induction fuel generalizing s with
  | zero => exact absurd hr (by simp [run])
  | succ fuel ih =>
    by_cases hleft : s.extensionLength = 0
    · rw [run_done (fastTwccPass_over hleft)] at hr
      exact absurd (congrArg Prod.fst (Option.some.inj hr)) (by simp)
    · have hp : s.buf % 65536 ≠ stop % 65536 := fun hp => hleft (h.over_iff.2 hp)
      by_cases hs : IsSought m twccId s.buf
      · exact .here hp hs
      · obtain ⟨t, hpass, hat, hbuf, -⟩ := fastTwccPass_pass limit h hleft hs
        rw [run_next hpass] at hr
        exact .pass hp hs (hbuf ▸ ih hat hr)

/-- The parser finds the first of the numbers. -/
theorem Comes.run {p : Nat} (limit e : Nat) (hc : Comes m twccId stop p) (h : s.At stop)
    (hp : s.buf = p) :
    ∃ fuel sn fault, Loop.run (fastTwccPass m twccId limit) fuel s = some (some sn, fault) ∧
      (twccNumbers m twccId e p ≠ [] → (twccNumbers m twccId e p).head? = some sn) := by
  induction hc generalizing s with
  | @here p hstop hs =>
    subst hp
    have hleft : s.extensionLength ≠ 0 := fun hleft => hstop (h.over_iff.1 hleft)
    refine ⟨1, _, _, run_done (fastTwccPass_found hleft hs) 0, fun hne => ?_⟩
    have hlt : s.buf < e := Nat.lt_of_not_le fun hle => hne (twccNumbers_over hle)
    rw [twccNumbers_sought hlt hs]
    rfl
  | @pass p hstop hs _ ih =>
    subst hp
    have hleft : s.extensionLength ≠ 0 := fun hleft => hstop (h.over_iff.1 hleft)
    obtain ⟨t, hpass, hat, hbuf, -⟩ := fastTwccPass_pass limit h hleft hs
    obtain ⟨fuel, sn, fault, hr, hfirst⟩ := ih hat hbuf
    refine ⟨fuel + 1, sn, fault, by rw [run_next hpass, hr], fun hne => ?_⟩
    have hlt : s.buf < e := Nat.lt_of_not_le fun hle => hne (twccNumbers_over hle)
    rw [twccNumbers_passed hlt hs] at hne ⊢
    exact hfirst hne

/-- In a block of less than 64 KiB the parser comes to every number. -/
theorem comes_of_numbers {p : Nat} (hstop : stop < p + 65536)
    (h : twccNumbers m twccId stop p ≠ []) : Comes m twccId stop p := by
  induction p using twccNumbers.induct m twccId stop with
  | case1 p hlt hs _ => exact .here (by omega) hs
  | case2 p hlt hs ih =>
    have hbehind := lt_behind m p
    rw [twccNumbers_passed hlt hs] at h
    exact .pass (by omega) hs (ih (by omega) h)
  | case3 p hle => exact absurd (twccNumbers_over (Nat.le_of_not_lt hle)) h

end Parser

/-- The parser finds a number exactly where the decoder does, and then the same. -/
def FastAgrees (m : Mem) (n : Nat) (header : RtpHeader) (types : RtpExtensionTypes) : Prop :=
  let decoded := decodeRtpHeader (initBuffer m n) (header.registered types)
  let twcc := (decoded.2.1.extensions.map (·.twcc)).getD {}
  decoded.1 = yangOk →
    ∃ fuel err twccSn fault,
      fastParseTwcc fuel m n types.transportSequenceNumber = some (err, twccSn, fault) ∧
        (err = yangOk ↔ twcc.hasTwcc = true) ∧ (err = yangOk → twccSn = some twcc.sn)

/-- The block passes the parser's checks and holds numbers, the first of which is within the
parser's count and the same as the last, or it does not pass them and holds none. -/
def SameNumber (m : Mem) (n twccId : Nat) : Prop :=
  HasBlock m n ∧ Comes m twccId (blockStop m) (blockStart m) ∧ blockNumbers m twccId ≠ [] ∧
      (blockNumbers m twccId).head? = (blockNumbers m twccId).getLast? ∨
    ¬ HasBlock m n ∧ blockNumbers m twccId = []

section Agreement

variable {m : Mem} {n twccId : Nat} {numbers : List Nat}

theorem RtpExtensionTwcc.last_has :
    (({} : RtpExtensionTwcc).last twccId numbers).hasTwcc = true ↔ numbers ≠ [] := by
  rw [last]
  cases hlast : numbers.getLast? with
  | none => simp [List.getLast?_eq_none_iff.1 hlast]
  | some sn =>
    refine iff_of_true rfl fun hnil => ?_
    rw [hnil] at hlast
    cases hlast

theorem RtpExtensionTwcc.last_sn (h : numbers ≠ []) :
    some (({} : RtpExtensionTwcc).last twccId numbers).sn = numbers.getLast? := by
  rw [last, List.getLast?_eq_some_getLast h]
  rfl

theorem fastParseTwcc_err {fuel : Nat} {err : Err} {r : Option Nat × Bool} (hb : HasBlock m n)
    (hr : fastParseTwcc fuel m n twccId = some (err, r)) : err = yangOk := by
  rw [fastParseTwcc_walk hb, Option.map_eq_some_iff] at hr
  obtain ⟨_, -, heq⟩ := hr
  exact (congrArg Prod.fst heq).symm

theorem fast_comes {fuel : Nat} {twccSn : Option Nat} {fault : Bool} (hb : HasBlock m n)
    (hr : fastParseTwcc fuel m n twccId = some (yangOk, twccSn, fault)) (hsome : twccSn ≠ none) :
    Comes m twccId (blockStop m) (blockStart m) := by
  rw [fastParseTwcc_walk hb, Option.map_eq_some_iff] at hr
  obtain ⟨⟨sn, _⟩, hr, heq⟩ := hr
  obtain rfl : sn = twccSn := congrArg (fun r => r.2.1) heq
  obtain ⟨sn, rfl⟩ := Option.ne_none_iff_exists'.1 hsome
  exact run_comes (blockStart_at m) hr

/-- Where the parser comes to an element its result is the first of the numbers. -/
theorem Comes.fast (hc : Comes m twccId (blockStop m) (blockStart m)) (hb : HasBlock m n) :
    ∃ fuel sn fault, fastParseTwcc fuel m n twccId = some (yangOk, some sn, fault) ∧
      (blockNumbers m twccId ≠ [] → (blockNumbers m twccId).head? = some sn) := by
  obtain ⟨fuel, sn, fault, hr, hfirst⟩ := hc.run (blockLimit m n) (blockEnd m)
    (blockStart_at m) rfl
  refine ⟨fuel, sn, fault, by rw [fastParseTwcc_walk hb, hr]; rfl, ?_⟩
  rw [blockNumbers, if_pos ⟨hb.extension, hb.profile⟩]
  exact hfirst

end Agreement

/-- On packets that are accepted the two agree exactly where the block has the same number first
and last, if it has any, and the parser's checks answer for that. -/
theorem fast_agrees_iff (m : Mem) (n : Nat) (header : RtpHeader) (types : RtpExtensionTypes) :
    FastAgrees m n header types ↔
      ((decodeRtpHeader (initBuffer m n) (header.registered types)).1 = yangOk →
        SameNumber m n types.transportSequenceNumber) := by
  refine forall_congr' fun hok => ?_
  rw [decodeRtpHeader_numbers hok, Option.getD_some, RtpExtensionTwcc.last_has, SameNumber]
  generalize types.transportSequenceNumber = twccId
  by_cases hb : HasBlock m n
  · rw [or_iff_left fun h => h.1 hb, and_iff_right hb]
    constructor
    · rintro ⟨fuel, err, twccSn, fault, hr, hfound, hsame⟩
      obtain rfl := fastParseTwcc_err hb hr
      have hne := hfound.1 rfl
      have hlast := (hsame rfl).trans (RtpExtensionTwcc.last_sn hne)
      have hc := fast_comes hb hr (by rw [hsame rfl]; exact Option.some_ne_none _)
      obtain ⟨fuel', sn, fault', hr', hfirst⟩ := hc.fast hb
      have hsn : twccSn = some sn := congrArg (fun r => r.2.1) (fastParseTwcc_unique hr hr')
      exact ⟨hc, hne, by rw [hfirst hne, ← hsn, hlast]⟩
    · rintro ⟨hc, hne, hsame⟩
      obtain ⟨fuel, sn, fault, hr, hfirst⟩ := hc.fast hb
      refine ⟨fuel, yangOk, some sn, fault, hr, iff_of_true rfl hne, fun _ => ?_⟩
      rw [RtpExtensionTwcc.last_sn hne, ← hsame, hfirst hne]
  · rw [or_iff_right fun h => hb h.1, and_iff_right hb]
    obtain ⟨err, herr, hr⟩ := fastParseTwcc_refused twccId hb
    constructor
    · rintro ⟨fuel, err', twccSn, fault, hr', hfound, -⟩
      obtain rfl : err = err' := congrArg Prod.fst (Option.some.inj ((hr fuel).symm.trans hr'))
      exact not_not.1 fun hne => herr (hfound.2 hne)
    · intro hnone
      exact ⟨0, err, none, false, hr 0, iff_of_false herr fun h => h hnone,
        fun h => absurd h herr⟩

/-- An accepted packet whose block holds another element only. -/
def otherElement : Mem := ofList
  ([0x90, 96, 0, 1, 0, 0, 0, 0, 0, 0, 0, 1] ++ [0xBE, 0xDE, 0, 1] ++ [0x50, 7, 0, 0] ++ [1, 2, 3])

/-- No number is there and the parser succeeds without one. -/
theorem absence_is_success : ¬ ∀ m n header types, FastAgrees m n header types := by
  intro h
  have hdec : (decodeRtpHeader (initBuffer otherElement 23)
      (({} : RtpHeader).registered ⟨3, 1⟩)).1 = yangOk := by decide +kernel
  obtain ⟨fuel, err, twccSn, fault, hr, hfound, -⟩ := h otherElement 23 {} ⟨3, 1⟩ hdec
  have hok : fastParseTwcc 4 otherElement 23 3 = some (yangOk, none, false) := by decide +kernel
  obtain rfl : err = yangOk := congrArg Prod.fst (fastParseTwcc_unique hr hok)
  exact absurd (hfound.1 rfl) (by decide +kernel)

end MetaRtc
