import MetaRtc.Rtcp.Decode

/-! # What one pass of the compound loop does

Every decoder turns on the same question, whether the four header bytes, the SSRC and
the announced length fit in what is left. Given the answer, where its cursor stops is a
function of the header bytes. -/
namespace MetaRtc

open Bytes

namespace YangBuffer

@[simp] theorem hdr_touch (buf : YangBuffer) (n : Nat) : (buf.touch n).hdr = buf.hdr := rfl
@[simp] theorem left_touch (buf : YangBuffer) (n : Nat) : (buf.touch n).left = buf.left := rfl

/-- The header check passes. -/
def HeaderOk (buf : YangBuffer) : Prop :=
  8 ≤ buf.left ∧ 4 * (buf.hdr.length : Int) + 4 ≤ buf.left

instance (buf : YangBuffer) : Decidable buf.HeaderOk :=
  inferInstanceAs (Decidable (_ ∧ _))

theorem headerOk_touch (buf : YangBuffer) (n : Nat) :
    (buf.touch n).HeaderOk ↔ buf.HeaderOk := Iff.rfl

/-- Where a failing header check leaves the cursor. -/
def refused (buf : YangBuffer) : Nat := if buf.left < 8 then 0 else 4

theorem hdr_rc_lt (buf : YangBuffer) : buf.hdr.rc < 32 := Nat.mod_lt _ (by omega)

end YangBuffer

open YangBuffer

theorem header_accepts {buf : YangBuffer} (h : buf.HeaderOk) (comm : RtcpCommon) :
    decodeHeaderRtcpCommon comm buf =
      ⟨yangOk, { comm with header := buf.hdr, ssrc := buf.data.be (buf.head + 4) 4 },
        buf.take 8⟩ := by
  obtain ⟨h8, hl⟩ := h
  have hr : buf.require 8 = true := (buf.require_iff 8).mpr h8
  have hp : ¬ ((buf.hdr.length : Int) * 4 > (buf.take 4).left) := by
    simp only [left, take_size, take_head] at hl ⊢
    omega
  simp [decodeHeaderRtcpCommon, hr, hp, read4bytes, readNum]

theorem header_refuses {buf : YangBuffer} (h : ¬ buf.HeaderOk) (comm : RtcpCommon) :
    decodeHeaderRtcpCommon comm buf =
      ⟨errorRtcRtcp, if buf.left < 8 then comm else { comm with header := buf.hdr },
        buf.take buf.refused⟩ := by
  by_cases h8 : buf.left < 8
  · have hr : buf.require 8 = false := by simpa [require] using h8
    simp [decodeHeaderRtcpCommon, hr, refused, h8]
  · have hr : buf.require 8 = true := (buf.require_iff 8).mpr (by omega)
    have hp : (buf.hdr.length : Int) * 4 > (buf.take 4).left := by
      have hl : ¬ 4 * (buf.hdr.length : Int) + 4 ≤ buf.left := fun hl => h ⟨by omega, hl⟩
      simp only [left, take_size, take_head] at hl ⊢
      omega
    simp [decodeHeaderRtcpCommon, hr, hp, refused, h8]

/-- An accepting decoder has moved the cursor by `adv`, read `reach` bytes from where it
was, and overrun a destination if `overrun`. -/
structure Decoded.Accepts (d : Decoded) (buf : YangBuffer) (adv reach : Nat)
    (overrun : Bool := false) : Prop where
  err : d.err = yangOk
  data : d.buf.data = buf.data
  bound : d.buf.bound = buf.bound
  size : d.buf.size = buf.size
  head : d.buf.head = buf.head + adv
  fault : d.buf.fault = ((buf.take reach).fault || overrun)
  header : d.comm.header = buf.hdr

theorem Decoded.Accepts.of_take {d : Decoded} {buf : YangBuffer} {n : Nat} (he : d.err = yangOk)
    (hb : d.buf = buf.take n) (hh : d.comm.header = buf.hdr) : d.Accepts buf n n :=
  ⟨he, by rw [hb]; rfl, by rw [hb]; rfl, by rw [hb]; rfl, by rw [hb]; rfl, by rw [hb, Bool.or_false], hh⟩

theorem start_accepts {buf : YangBuffer} (h : buf.HeaderOk) (comm : RtcpCommon) :
    (decodeStart comm buf).err = yangOk ∧ (decodeStart comm buf).buf = buf.take 8 ∧
      (decodeStart comm buf).comm.header = buf.hdr := by
  rw [decodeStart, header_accepts h]
  exact ⟨rfl, rfl, rfl⟩

theorem start_refuses {buf : YangBuffer} (h : ¬ buf.HeaderOk) (comm : RtcpCommon) :
    (decodeStart comm buf).err = errorRtcRtcp ∧
      (decodeStart comm buf).buf = buf.take buf.refused := by
  rw [decodeStart, header_refuses h]
  exact ⟨rfl, rfl⟩

theorem error_ne_ok : errorRtcRtcp ≠ yangOk := by decide

/-- The lines every decoder starts with leave the sub-structures alone. -/
theorem start_comm (comm : RtcpCommon) (buf : YangBuffer) :
    ∃ header ssrc, (decodeStart comm buf).comm =
        { comm with data := some buf.head, nbData := buf.left, header, ssrc } ∧
      (header = comm.header ∨ header = buf.hdr) ∧
      ((decodeStart comm buf).err = yangOk → header = buf.hdr) := by
  by_cases h : buf.HeaderOk
  · rw [decodeStart, header_accepts h]
    exact ⟨_, _, rfl, .inr rfl, fun _ => rfl⟩
  · rw [decodeStart, header_refuses h]
    by_cases h8 : buf.left < 8
    · rw [if_pos h8]
      exact ⟨_, _, rfl, .inl rfl, fun he => absurd he error_ne_ok⟩
    · rw [if_neg h8]
      exact ⟨_, _, rfl, .inr rfl, fun he => absurd he error_ne_ok⟩

section Accepting

variable {buf : YangBuffer} (h : buf.HeaderOk) (comm : RtcpCommon)
include h

theorem other_accepts : (decodeRtcpCommon comm buf).Accepts buf 8 8 := by
  rw [decodeRtcpCommon, header_accepts h]
  exact .of_take rfl rfl rfl

theorem sr_accepts :
    (decodeRtcpSR comm buf).Accepts buf (28 + buf.hdr.rc * 24) (28 + buf.hdr.rc * 24) := by
  have hrc := buf.hdr_rc_lt
  obtain ⟨he, hb, hh⟩ := start_accepts h comm
  refine .of_take (by simp [decodeRtcpSR, he]) ?_ (by simp [decodeRtcpSR, he, hh])
  simp only [decodeRtcpSR, he, ne_eq, not_true_eq_false, ite_false, read8bytes, read4bytes,
    readNum, hb, hh, take_take]
  split
  · rw [readBytes_snd _ (by omega), take_take]
  · rw [show buf.hdr.rc = 0 by omega]

theorem rr_accepts (hrb : comm.rb.isSome) (hrc : 0 < buf.hdr.rc) :
    (decodeRtcpRR comm buf).Accepts buf (8 + buf.hdr.rc * 24) (8 + buf.hdr.rc * 24) := by
  have hlt := buf.hdr_rc_lt
  have hn : comm.rb.isNone = false := Option.isNone_eq_false_iff.mpr hrb
  obtain ⟨he, hb, hh⟩ := start_accepts h comm
  have hne : buf.hdr.rc ≠ 0 := by omega
  refine .of_take (by simp [decodeRtcpRR, hn, he, hh, hne]) ?_
    (by simp [decodeRtcpRR, hn, he, hh, hne])
  simp only [decodeRtcpRR, hn, he, ne_eq, not_true_eq_false, ite_false, read4bytes, read1bytes,
    read3bytes, readNum, hb, hh, hne, take_take, Bool.false_eq_true]
  split
  · rw [readBytes_snd _ (by omega), take_take]
    congr 1
    omega
  · rw [show buf.hdr.rc = 1 by omega]

theorem rr_empty (hrb : comm.rb.isSome) (hrc : buf.hdr.rc = 0) :
    (decodeRtcpRR comm buf).err = errorRtcRtcpEmptyRR ∧
      (decodeRtcpRR comm buf).buf = buf.take 8 := by
  have hn : comm.rb.isNone = false := Option.isNone_eq_false_iff.mpr hrb
  obtain ⟨he, hb, hh⟩ := start_accepts h comm
  simp [decodeRtcpRR, hn, he, hh, hrc, hb]

omit h in
theorem nackEntries_buf (n : Nat) (nack : RtcpNack) (buf : YangBuffer) :
    (decodeNackEntries n nack buf).2 = buf.take (n * 4) := by
  induction n generalizing nack buf with
  | zero => simp [decodeNackEntries]
  | succ n ih =>
    simp only [decodeNackEntries, read2bytes, readNum, ih, take_take]
    congr 1
    omega

theorem nack_accepts :
    (decodeRtcpNack comm buf).Accepts buf (12 + (buf.hdr.length - 2) * 4)
      (12 + (buf.hdr.length - 2) * 4) := by
  obtain ⟨he, hb, hh⟩ := start_accepts h comm
  refine .of_take (by simp [decodeRtcpNack, he]) ?_ (by simp [decodeRtcpNack, he, hh])
  simp only [decodeRtcpNack, he, ne_eq, not_true_eq_false, ite_false, read4bytes, readNum, hb, hh,
    nackEntries_buf, take_take]
  congr 1
  omega

/-- The payload length is four less than the packet's own when the header announces
no word at all. -/
theorem twcc_accepts :
    (twccRtcpDecode comm buf).Accepts buf (4 * (buf.hdr.length + 1))
      (4 * (buf.hdr.length + 1)) (decide (buf.hdr.length = 0 ∨ 377 ≤ buf.hdr.length)) := by
  obtain ⟨he, hb, hh⟩ := start_accepts h comm
  have hbuf : (twccRtcpDecode comm buf).buf =
      ((buf.take 8).readBytes (((buf.hdr.length : Int) + 1) * 4 - 4 - 4) 1500).2 := by
    simp [twccRtcpDecode, he, hb, hh]
  refine ⟨by simp [twccRtcpDecode, he], ?_, ?_, ?_, ?_, ?_, by simp [twccRtcpDecode, he, hh]⟩
  · rw [hbuf, readBytes_data]; rfl
  · rw [hbuf, readBytes_bound]; rfl
  · rw [hbuf, readBytes_size]; rfl
  · rw [hbuf, readBytes_head]
    simp only [take_head]
    omega
  · rw [hbuf]
    by_cases hl : buf.hdr.length = 0 ∨ 377 ≤ buf.hdr.length
    · rw [readBytes, if_neg (by omega)]
      simp [hl]
    · have hn : ((buf.hdr.length : Int) + 1) * 4 - 4 - 4 = ↑(4 * buf.hdr.length - 4) := by omega
      rw [hn, readBytes_snd _ (by omega), take_take]
      simp only [hl, decide_false, Bool.or_false]
      congr 2
      omega

theorem pli_accepts : (decodeRtcpPli comm buf).Accepts buf 12 12 := by
  obtain ⟨he, hb, hh⟩ := start_accepts h comm
  exact .of_take (by simp [decodeRtcpPli, he])
    (by simp [decodeRtcpPli, he, read4bytes, readNum, hb]) (by simp [decodeRtcpPli, he, hh])

theorem rpsi_accepts :
    (decodeRtcpRpsi comm buf).Accepts buf (4 * (buf.hdr.length + 1)) 12 := by
  obtain ⟨he, hb, hh⟩ := start_accepts h comm
  refine ⟨?_, ?_, ?_, ?_, ?_, ?_, ?_⟩ <;>
    simp only [decodeRtcpRpsi, he, ne_eq, not_true_eq_false, ite_false, read4bytes, readNum, hb, hh,
      take_take, skip_data, skip_bound, skip_size, skip_head, skip_fault, take_data, take_bound, take_size, take_head,
      Bool.or_false]
  omega

theorem psfb_accepts :
    (decodeRtcpPsfb comm buf).Accepts buf (4 * (buf.hdr.length + 1)) 12 := by
  obtain ⟨he, hb, hh⟩ := start_accepts h comm
  refine ⟨?_, ?_, ?_, ?_, ?_, ?_, ?_⟩ <;>
    simp only [decodeRtcpPsfb, he, ne_eq, not_true_eq_false, ite_false, read4bytes, readNum, hb, hh,
      take_take, skip_data, skip_bound, skip_size, skip_head, skip_fault, take_data, take_bound, take_size, take_head,
      Bool.or_false]
  omega

theorem xr_accepts :
    (decodeRtcpXr comm buf).Accepts buf (4 * (buf.hdr.length + 1)) 8 := by
  obtain ⟨he, hb, hh⟩ := start_accepts h comm
  refine ⟨?_, ?_, ?_, ?_, ?_, ?_, ?_⟩ <;>
    simp only [decodeRtcpXr, he, ne_eq, not_true_eq_false, ite_false, hb, hh, skip_data, skip_bound,
      skip_size, skip_head, skip_fault, take_data, take_bound, take_size, take_head, Bool.or_false]
  omega

end Accepting

/-- What the loop takes a sub-packet for. It creates and decodes nothing for the
feedback formats it leaves `unread`. -/
inductive SubKind where
  | sr | rr | nack | twcc | unread | pli | rpsi | psfb | xr | other
  deriving DecidableEq

def subKind (enableTwcc : Bool) (header : RtcpHeader) : SubKind :=
  if header.type = RtcpType.sr then .sr
  else if header.type = RtcpType.rr then .rr
  else if header.type = RtcpType.rtpfb then
    if 1 = header.rc then .nack
    else if 15 = header.rc then if enableTwcc then .twcc else .unread
    else .unread
  else if header.type = RtcpType.psfb then
    if 1 = header.rc then .pli
    else if 2 = header.rc then .unread
    else if 3 = header.rc then .rpsi
    else .psfb
  else if header.type = RtcpType.xr then .xr
  else .other

/-- A pass in closed form: how far it moves the cursor (nowhere if it returns an
error), whether the packet is then kept, and what it reads and overruns. -/
structure Effect where
  advance : Option Nat
  kept : Bool := true
  reach : Nat
  overrun : Bool := false

def SubKind.accepted (k : SubKind) (header : RtcpHeader) : Effect :=
  match k with
  | .sr => { advance := some (28 + header.rc * 24), reach := 28 + header.rc * 24 }
  | .rr =>
    { advance := some (8 + header.rc * 24)
      kept := decide (0 < header.rc)
      reach := 8 + header.rc * 24 }
  | .nack =>
    { advance := some (12 + (header.length - 2) * 4), reach := 12 + (header.length - 2) * 4 }
  | .twcc =>
    { advance := some (4 * (header.length + 1))
      reach := 4 * (header.length + 1)
      overrun := decide (header.length = 0 ∨ 377 ≤ header.length) }
  | .unread => { advance := some 0, reach := 2 }
  | .pli => { advance := some 12, reach := 12 }
  | .rpsi | .psfb => { advance := some (4 * (header.length + 1)), reach := 12 }
  | .xr => { advance := some (4 * (header.length + 1)), reach := 8 }
  | .other => { advance := some 8, reach := 8 }

/-- Where the header check fails, three of the decoders have their error dropped and
the pass goes on from the place of the check. -/
def SubKind.refused (k : SubKind) (buf : YangBuffer) : Effect :=
  match k with
  | .nack | .twcc | .rpsi => { advance := some buf.refused, reach := max 2 buf.refused }
  | .unread => { advance := some 0, reach := 2 }
  | _ => { advance := none, reach := max 2 buf.refused }

def SubKind.effect (k : SubKind) (buf : YangBuffer) : Effect :=
  if buf.HeaderOk then k.accepted buf.hdr else k.refused buf

def effect (enableTwcc : Bool) (buf : YangBuffer) : Effect :=
  (subKind enableTwcc buf.hdr).effect buf

structure Decoded.Has (d : Decoded) (buf : YangBuffer) (e : Effect) : Prop where
  data : d.buf.data = buf.data
  bound : d.buf.bound = buf.bound
  size : d.buf.size = buf.size
  head : ∀ n, e.advance = some n → d.buf.head = buf.head + n
  fault : d.buf.fault = ((buf.take e.reach).fault || e.overrun)
  err : d.err = match e.advance with
    | none => errorRtcRtcp
    | some _ => if e.kept then yangOk else errorRtcRtcpEmptyRR

theorem touch_take_fault (buf : YangBuffer) {m n : Nat} (h : m ≤ n) :
    ((buf.touch m).take n).fault = (buf.take n).fault := by
  rw [Bool.eq_iff_iff, take_fault_iff, take_fault_iff, touch_fault_iff, or_assoc]
  refine or_congr_right ?_
  simp only [touch_bound, touch_head]
  omega

theorem Decoded.Accepts.has {d : Decoded} {buf : YangBuffer} {adv reach : Nat} {overrun : Bool}
    (h : d.Accepts (buf.touch 2) adv reach overrun) (hr : 2 ≤ reach) :
    d.Has buf { advance := some adv, reach, overrun } where
  data := h.data
  bound := h.bound
  size := h.size
  head n hn := by rw [← Option.some.inj hn]; exact h.head
  fault := by rw [h.fault, touch_take_fault buf hr]
  err := h.err

theorem touch_refused_fault (buf : YangBuffer) :
    ((buf.touch 2).take buf.refused).fault = (buf.take (max 2 buf.refused)).fault := by
  rw [Bool.eq_iff_iff, take_fault_iff, take_fault_iff, touch_fault_iff, or_assoc]
  refine or_congr_right ?_
  simp only [touch_bound, touch_head, refused]
  by_cases h8 : buf.left < 8
  · simp only [h8, ite_true]
    omega
  · simp only [h8, ite_false]
    omega

theorem Decoded.has_of_refused {d : Decoded} {buf : YangBuffer} {e : Effect}
    (hb : d.buf = (buf.touch 2).take buf.refused) (hr : e.reach = max 2 buf.refused) (ho : e.overrun = false)
    (ha : ∀ n, e.advance = some n → n = buf.refused)
    (he : d.err = match e.advance with
      | none => errorRtcRtcp
      | some _ => if e.kept then yangOk else errorRtcRtcpEmptyRR) : d.Has buf e where
  data := by rw [hb]; rfl
  bound := by rw [hb]; rfl
  size := by rw [hb]; rfl
  head n hn := by rw [ha n hn, hb]; rfl
  fault := by rw [hb, hr, ho, Bool.or_false, touch_refused_fault]
  err := he

section Kinds

variable (comm : RtcpCommon) (buf : YangBuffer)

theorem start_refused_err (h : ¬ buf.HeaderOk) :
    (decodeStart comm (buf.touch 2)).err ≠ yangOk := by
  rw [(start_refuses (h ∘ (buf.headerOk_touch 2).mp) comm).1]
  exact error_ne_ok

/-- A decoder whose error the loop returns. -/
theorem has_returned {k : SubKind} {d : Decoded}
    (ok : buf.HeaderOk → d.Has buf (k.accepted buf.hdr))
    (no : ¬ buf.HeaderOk → d = decodeStart comm (buf.touch 2))
    (hk : k.refused buf = { advance := none, reach := max 2 buf.refused }) : d.Has buf (k.effect buf) := by
  by_cases h : buf.HeaderOk
  · rw [SubKind.effect, if_pos h]
    exact ok h
  · obtain ⟨he, hb⟩ := start_refuses (h ∘ (buf.headerOk_touch 2).mp) comm
    rw [SubKind.effect, if_neg h, hk, no h]
    exact Decoded.has_of_refused hb rfl rfl (fun _ hn => by cases hn) he

/-- A decoder whose error the loop drops. -/
theorem has_dropped {k : SubKind} {d : Decoded} {adv reach : Nat} {overrun : Bool}
    (ok : buf.HeaderOk → d.Accepts (buf.touch 2) adv reach overrun)
    (no : ¬ buf.HeaderOk → d = decodeStart comm (buf.touch 2))
    (ha : k.accepted buf.hdr = { advance := some adv, reach, overrun }) (hr : 2 ≤ reach)
    (hk : k.refused buf = { advance := some buf.refused, reach := max 2 buf.refused }) :
    ({ d with err := yangOk } : Decoded).Has buf (k.effect buf) := by
  by_cases h : buf.HeaderOk
  · rw [SubKind.effect, if_pos h, ha]
    exact { (ok h).has hr with err := rfl }
  · rw [SubKind.effect, if_neg h, hk, no h]
    exact Decoded.has_of_refused (start_refuses (h ∘ (buf.headerOk_touch 2).mp) comm).2 rfl rfl
      (fun _ hn => (Option.some.inj hn).symm) rfl

theorem sr_has : (decodeRtcpSR comm (buf.touch 2)).Has buf (SubKind.sr.effect buf) := by
  refine has_returned comm buf (fun h => ?_) (fun h => ?_) rfl
  · exact (sr_accepts ((buf.headerOk_touch 2).mpr h) comm).has (by omega)
  · simp [decodeRtcpSR, start_refused_err comm buf h]

theorem rr_has (hrb : comm.rb.isSome) :
    (decodeRtcpRR comm (buf.touch 2)).Has buf (SubKind.rr.effect buf) := by
  refine has_returned comm buf (fun h => ?_) (fun h => ?_) rfl
  · rcases Nat.eq_zero_or_pos buf.hdr.rc with hrc | hrc
    · obtain ⟨he, hb⟩ := rr_empty ((buf.headerOk_touch 2).mpr h) comm hrb hrc
      have ha : SubKind.rr.accepted buf.hdr = ⟨some 8, false, 8, false⟩ := by
        simp [SubKind.accepted, hrc]
      rw [ha]
      refine ⟨by rw [hb]; rfl, by rw [hb]; rfl, by rw [hb]; rfl, ?_, ?_, he⟩
      · intro n hn
        rw [hb, ← Option.some.inj hn]
        rfl
      · rw [hb, touch_take_fault _ (by omega), Bool.or_false]
    · have ha : SubKind.rr.accepted buf.hdr =
          ⟨some (8 + buf.hdr.rc * 24), true, 8 + buf.hdr.rc * 24, false⟩ := by
        simp [SubKind.accepted, hrc]
      rw [ha]
      exact (rr_accepts ((buf.headerOk_touch 2).mpr h) comm hrb hrc).has (by omega)
  · simp [decodeRtcpRR, start_refused_err comm buf h, Option.isNone_eq_false_iff.mpr hrb]

theorem nack_has :
    ({ decodeRtcpNack comm (buf.touch 2) with err := yangOk } : Decoded).Has buf
      (SubKind.nack.effect buf) := by
  refine has_dropped comm buf (fun h => nack_accepts ((buf.headerOk_touch 2).mpr h) comm) (fun h => ?_)
    rfl (by omega) rfl
  simp [decodeRtcpNack, start_refused_err comm buf h]

theorem twcc_has :
    ({ twccRtcpDecode comm (buf.touch 2) with err := yangOk } : Decoded).Has buf
      (SubKind.twcc.effect buf) := by
  refine has_dropped comm buf (fun h => twcc_accepts ((buf.headerOk_touch 2).mpr h) comm) (fun h => ?_)
    rfl (by omega) rfl
  simp [twccRtcpDecode, start_refused_err comm buf h]

theorem pli_has : (decodeRtcpPli comm (buf.touch 2)).Has buf (SubKind.pli.effect buf) := by
  refine has_returned comm buf (fun h => ?_) (fun h => ?_) rfl
  · exact (pli_accepts ((buf.headerOk_touch 2).mpr h) comm).has (by omega)
  · simp [decodeRtcpPli, start_refused_err comm buf h]

theorem rpsi_has :
    ({ decodeRtcpRpsi comm (buf.touch 2) with err := yangOk } : Decoded).Has buf
      (SubKind.rpsi.effect buf) := by
  refine has_dropped comm buf (fun h => rpsi_accepts ((buf.headerOk_touch 2).mpr h) comm) (fun h => ?_)
    rfl (by omega) rfl
  simp [decodeRtcpRpsi, start_refused_err comm buf h]

theorem psfb_has : (decodeRtcpPsfb comm (buf.touch 2)).Has buf (SubKind.psfb.effect buf) := by
  refine has_returned comm buf (fun h => ?_) (fun h => ?_) rfl
  · exact (psfb_accepts ((buf.headerOk_touch 2).mpr h) comm).has (by omega)
  · simp [decodeRtcpPsfb, start_refused_err comm buf h]

theorem xr_has : (decodeRtcpXr comm (buf.touch 2)).Has buf (SubKind.xr.effect buf) := by
  refine has_returned comm buf (fun h => ?_) (fun h => ?_) rfl
  · exact (xr_accepts ((buf.headerOk_touch 2).mpr h) comm).has (by omega)
  · simp [decodeRtcpXr, start_refused_err comm buf h]

theorem other_has : (decodeRtcpCommon comm (buf.touch 2)).Has buf (SubKind.other.effect buf) := by
  by_cases h : buf.HeaderOk
  · rw [SubKind.effect, if_pos h]
    exact (other_accepts ((buf.headerOk_touch 2).mpr h) comm).has (by omega)
  · rw [SubKind.effect, if_neg h, decodeRtcpCommon,
      header_refuses (h ∘ (buf.headerOk_touch 2).mp)]
    exact Decoded.has_of_refused rfl rfl rfl (fun _ hn => by cases hn) rfl

theorem unread_has :
    (⟨yangOk, comm, buf.touch 2⟩ : Decoded).Has buf (SubKind.unread.effect buf) := by
  have he : SubKind.unread.effect buf = { advance := some 0, reach := 2 } := by
    unfold SubKind.effect
    split <;> rfl
  rw [he]
  exact ⟨rfl, rfl, rfl, fun n hn => by rw [← Option.some.inj hn]; rfl, (Bool.or_false _).symm, rfl⟩

end Kinds

/-- What a pass does is what the closed form says. -/
theorem subPacket_has (enableTwcc : Bool) (buf : YangBuffer) (heap : Heap) :
    (decodeSubPacket enableTwcc buf heap).1.Has buf (effect enableTwcc buf) := by
  unfold decodeSubPacket effect subKind
  simp only
  split
  · exact sr_has _ buf
  split
  · exact rr_has (createRtcpRR {} (heap.alloc .rtcp)).1 buf rfl
  split
  · split
    · exact nack_has _ buf
    split
    · split
      · exact twcc_has _ buf
      · exact unread_has _ buf
    · exact unread_has _ buf
  split
  · split
    · exact pli_has _ buf
    split
    · exact unread_has _ buf
    split
    · exact rpsi_has _ buf
    · exact psfb_has _ buf
  split
  · exact xr_has _ buf
  · exact other_has _ buf

end MetaRtc
