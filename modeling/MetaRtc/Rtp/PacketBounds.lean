import MetaRtc.Rtp.FastTwcc
import MetaRtc.Rtp.RoundTrip

/-! # What decoding a packet reads

The contributing sources, the extension block and the padding are passed over by amounts that
the packet says itself. -/
namespace MetaRtc

open Bytes

def decodePadding (padding : Prop) [Decidable padding] (header : RtpHeader) (buf : YangBuffer) :
    Err × RtpHeader × YangBuffer :=
  if padding ∧ header.ignorePadding = false ∧ buf.empty = false then
    let paddingLength := (buf.data (buf.size - 1)).toNat
    let header := { header with paddingLength }
    if !buf.require paddingLength then (errorRtcRtpMuxer, header, buf)
    else (yangOk, header, buf)
  else (yangOk, header, buf)

/-- The header behind its contributing sources. -/
def decodeHeaderRest (padding extension : Prop) [Decidable padding] [Decidable extension]
    (header : RtpHeader) (buf : YangBuffer) : Err × RtpHeader × YangBuffer :=
  let (err, header, buf) :=
    if extension then
      let (err, ext, buf) := decodeRtpExtensions (header.extensions.getD {}) buf
      (err, { header with extensions := some ext }, buf)
    else (yangOk, header, buf)
  if err ≠ yangOk then (err, header, buf) else decodePadding padding header buf

/-- The cursor behind the contributing sources, which are read without a check. -/
def behindCsrc (m : Mem) (n : Nat) : YangBuffer := (initBuffer m n).take (12 + 4 * csrcCount m)

/-- The header as far as the contributing sources tell it. -/
def fixedHeader (m : Mem) (n : Nat) (header : RtpHeader) : RtpHeader :=
  { header with
    cc := csrcCount m
    sequence := m.be 2 2
    timestamp := m.be 4 4
    ssrc := m.be 8 4
    marker := decide (128 ≤ (m 1).toNat)
    payloadType := (m 1).toNat % 128
    csrc := (decodeCsrc (csrcCount m) ((initBuffer m n).take 12)).1 ++
      header.csrc.drop (csrcCount m) }

section Header

variable {m : Mem} {n : Nat} {header : RtpHeader}

theorem decodeCsrc_take (k : Nat) (buf : YangBuffer) :
    (decodeCsrc k buf).2 = buf.take (4 * k) := by
  induction k generalizing buf with
  | zero => rw [Nat.mul_zero, YangBuffer.take_zero]; rfl
  | succ k ih =>
    have hrest : (decodeCsrc (k + 1) buf).2 = (decodeCsrc k (buf.take 4)).2 := rfl
    rw [hrest, ih, YangBuffer.take_take]
    congr 1
    ring

theorem decodeRtpHeader_short (hn : n < 12) :
    decodeRtpHeader (initBuffer m n) header = (errorRtcRtpMuxer, header, initBuffer m n) := by
  rw [decodeRtpHeader, YangBuffer.initBuffer_refuses (by omega)]
  rfl

theorem decodeRtpHeader_rest (hn : 12 ≤ n) : decodeRtpHeader (initBuffer m n) header =
    decodeHeaderRest ((m 0).toNat / 32 % 2 = 1) ((m 0).toNat / 16 % 2 = 1)
      (fixedHeader m n header) (behindCsrc m n) := by
  have hcsrc := decodeCsrc_take (csrcCount m) ((initBuffer m n).take 12)
  rw [YangBuffer.take_take] at hcsrc
  have hdata : (initBuffer m n).data = m := rfl
  have hhead : (initBuffer m n).head = 0 := rfl
  rw [decodeRtpHeader, YangBuffer.initBuffer_requires (by decide) (by omega)]
  simp only [Bool.not_true, Bool.false_eq_true, if_false, YangBuffer.read1bytes,
    YangBuffer.read2bytes, YangBuffer.read4bytes, YangBuffer.readNum, YangBuffer.take_data,
    YangBuffer.take_head, YangBuffer.take_take, hdata, hhead, Mem.be_one,
    Nat.zero_add, Nat.reduceAdd]
  have hread : decodeCsrc ((m 0).toNat % 16) ((initBuffer m n).take 12) =
      ((decodeCsrc (csrcCount m) ((initBuffer m n).take 12)).1, behindCsrc m n) :=
    Prod.ext rfl hcsrc
  rw [hread]
  rfl

theorem behindCsrc_within (h : 12 + 4 * csrcCount m ≤ n) :
    behindCsrc m n = ⟨m, n, n, 12 + 4 * csrcCount m, false⟩ := by
  rw [behindCsrc, initBuffer, take_within (by omega), Nat.zero_add]

theorem behindCsrc_fault (h : n < 12 + 4 * csrcCount m) : (behindCsrc m n).fault = true := by
  rw [behindCsrc, YangBuffer.take_fault_iff]
  exact .inr ⟨by omega, by simp only [initBuffer]; omega⟩

end Header

section Padding

variable {padding : Prop} [Decidable padding] {header : RtpHeader} {buf : YangBuffer}

theorem decodePadding_buf : (decodePadding padding header buf).2.2 = buf := by
  unfold decodePadding
  split
  · extract_lets
    split <;> rfl
  · rfl

/-- Padding that is accepted lies behind the head. -/
theorem decodePadding_fits (h0 : header.paddingLength = 0) (hle : buf.head ≤ buf.size)
    (h : (decodePadding padding header buf).1 = yangOk) :
    buf.head + (decodePadding padding header buf).2.1.paddingLength ≤ buf.size := by
  unfold decodePadding at h ⊢
  split at h
  · rename_i hpad
    rw [if_pos hpad]
    extract_lets at h ⊢
    split at h
    · exact absurd h (show ¬ errorRtcRtpMuxer = yangOk by decide)
    · rename_i hreq
      rw [if_neg hreq]
      simp only [Bool.not_eq_true', Bool.not_eq_false, YangBuffer.require_iff,
        YangBuffer.left] at hreq
      show buf.head + (buf.data (buf.size - 1)).toNat ≤ buf.size
      omega
  · rename_i hpad
    rw [if_neg hpad]
    dsimp only
    omega

/-- Behind the end no padding is looked for. -/
theorem decodePadding_beyond (hlt : buf.size < buf.head) :
    decodePadding padding header buf = (yangOk, header, buf) := by
  have hempty : buf.empty = true := decide_eq_true (by omega)
  exact if_neg fun h => absurd (h.2.2.symm.trans hempty) (by decide)

end Padding

section Elements

/-- Without registered identifiers the elements are passed over, and only their first bytes are
read. -/
theorem decode0xbede_untyped (fuel : Nat) {ext : RtpExtensions} (buf : YangBuffer)
    (h : ext.types = none) : ∃ b, decode0xbedeLoop fuel ext buf = (yangOk, ext, b) ∧
      (buf.fault = true → b.fault = true) ∧
      (buf.size ≤ buf.bound → buf.fault = false → b.fault = false) := by
  induction fuel generalizing buf with
  | zero => exact ⟨buf, rfl, id, fun _ => id⟩
  | succ fuel ih =>
    rw [decode0xbedeLoop]
    by_cases hempty : buf.empty = true
    · exact ⟨buf, if_pos hempty, id, fun _ => id⟩
    have hlt : buf.head < buf.size := by
      simpa only [YangBuffer.empty, decide_eq_true_eq, Nat.not_le] using hempty
    have hreq : buf.require 1 = true :=
      (buf.require_iff 1).2 (by rw [YangBuffer.left]; omega)
    rw [if_neg hempty, hreq]
    simp only [Bool.not_true, Bool.false_eq_true, if_false, h, Option.map_none, Option.getD_none]
    have hkept : buf.fault = true → (buf.touch 1).fault = true := fun hf =>
      (buf.touch_fault_iff 1).2 (.inl hf)
    have hin : buf.size ≤ buf.bound → buf.fault = false → (buf.touch 1).fault = false := by
      intro hle hf
      refine Bool.eq_false_iff.2 fun ht => ?_
      rw [YangBuffer.touch_fault_iff, hf] at ht
      rcases ht with ht | ⟨-, ht⟩
      · cases ht
      · omega
    split
    · obtain ⟨b, hb, hb₁, hb₂⟩ := ih ((buf.touch 1).skip 1)
      exact ⟨b, hb, fun hf => hb₁ (hkept hf), fun hle hf => hb₂ hle (hin hle hf)⟩
    · obtain ⟨b, hb, hb₁, hb₂⟩ :=
        ih ((buf.touch 1).skip (1 + ((buf.data buf.head).toNat % 16 + 1) : Nat))
      refine ⟨b, ?_, fun hf => hb₁ (hkept hf), fun hle hf => hb₂ hle (hin hle hf)⟩
      rw [← hb]
      rfl

/-- The kinds of block that are passed over by their length. -/
def SkipsBlock (m : Mem) : Prop :=
  m.be (12 + 4 * csrcCount m) 2 = 0xBEDE ∨ m.be (12 + 4 * csrcCount m) 2 = 0x1000

def blockEnd (m : Mem) : Nat := blockStart m + 4 * blockWords m

variable {m : Mem} {n : Nat}

theorem blockStart_eq (m : Mem) : blockStart m = 12 + 4 * csrcCount m + 2 + 2 := by
  rw [blockStart]
  omega

/-- The block as its two leading fields tell it. -/
theorem decodeRtpExtensions_profile {ext : RtpExtensions} (h : blockStart m ≤ n) :
    decodeRtpExtensions ext (behindCsrc m n) =
      if m.be (12 + 4 * csrcCount m) 2 = 0xBEDE then
        let (err, ext, xbuf) := decode0xbede ext ⟨m, n, blockEnd m, blockStart m, false⟩
        (err, ext, ⟨m, n, n, blockEnd m, xbuf.fault⟩)
      else if m.be (12 + 4 * csrcCount m) 2 = 0x1000 then
        (yangOk, ext, ⟨m, n, n, blockEnd m, false⟩)
      else (errorRtcRtpMuxer, ext, ⟨m, n, n, blockStart m, false⟩) := by
  have hstart := blockStart_eq m
  have hwords : m.be (12 + 4 * csrcCount m + 2) 2 = blockWords m := by
    rw [blockWords]
    congr 1
    omega
  have hend : blockStart m + blockWords m * 4 = blockEnd m := by
    rw [blockEnd]
    omega
  have hskip : ∀ fault, (⟨m, n, n, blockStart m, fault⟩ : YangBuffer).skip (blockWords m * 4) =
      ⟨m, n, n, blockEnd m, fault⟩ := by
    intro fault
    rw [← hend]
    exact YangBuffer.ext rfl rfl rfl (by simp only [YangBuffer.skip]; norm_cast) rfl
  rw [behindCsrc_within (by omega), decodeRtpExtensions, require_within (by decide) (by omega)]
  simp only [Bool.not_true, Bool.false_eq_true, if_false, YangBuffer.read2bytes,
    YangBuffer.readNum, take_within (show 12 + 4 * csrcCount m + 2 ≤ n by omega)]
  rw [take_within (by omega), ← hstart]
  simp only [hwords, hend, hskip]

theorem decodeRtpExtensions_short {ext : RtpExtensions} (h : n < blockStart m) :
    decodeRtpExtensions ext (behindCsrc m n) = (errorRtcRtpMuxer, ext, behindCsrc m n) := by
  have hreq : (behindCsrc m n).require 4 = false := by
    have hnot : ¬ (4 : Int) ≤ (n : Int) - (0 + (12 + 4 * csrcCount m) : Nat) := by
      rw [blockStart_eq] at h
      omega
    simp only [YangBuffer.require, YangBuffer.left, behindCsrc, initBuffer, YangBuffer.take_size,
      YangBuffer.take_head, hnot, decide_false, Bool.and_false]
  rw [decodeRtpExtensions, hreq]
  rfl

theorem decodeRtpExtensions_refused (ext : RtpExtensions) (hcsrc : 12 + 4 * csrcCount m ≤ n)
    (h : n < blockStart m ∨ ¬ SkipsBlock m) :
    (decodeRtpExtensions ext (behindCsrc m n)).1 ≠ yangOk ∧
      (decodeRtpExtensions ext (behindCsrc m n)).2.2.fault = false := by
  by_cases hhead : n < blockStart m
  · rw [decodeRtpExtensions_short hhead, behindCsrc_within hcsrc]
    exact ⟨show errorRtcRtpMuxer ≠ yangOk by decide, rfl⟩
  · have hskips : ¬ SkipsBlock m := h.resolve_left hhead
    rw [decodeRtpExtensions_profile (Nat.le_of_not_lt hhead), if_neg fun hp => hskips (.inl hp),
      if_neg fun hp => hskips (.inr hp)]
    exact ⟨show errorRtcRtpMuxer ≠ yangOk by decide, rfl⟩

/-- A block of a known kind is passed over as a whole, wherever its end is. -/
theorem decodeRtpExtensions_skips (hhead : blockStart m ≤ n) (h : SkipsBlock m) :
    ∃ fault, decodeRtpExtensions {} (behindCsrc m n) =
      (yangOk, {}, ⟨m, n, n, blockEnd m, fault⟩) ∧ (blockEnd m ≤ n → fault = false) := by
  rw [decodeRtpExtensions_profile hhead]
  rcases h with h | h
  · rw [if_pos h, decode0xbede]
    obtain ⟨b, hb, -, hin⟩ := @decode0xbede_untyped (blockEnd m - blockStart m + 1) {}
      ⟨m, n, blockEnd m, blockStart m, false⟩ rfl
    rw [hb]
    exact ⟨b.fault, rfl, fun hle => hin hle rfl⟩
  · rw [if_neg (by rw [h]; decide), if_pos h]
    exact ⟨false, rfl, fun _ => rfl⟩

theorem decodeRtpExtensions_fault {ext : RtpExtensions} (htypes : ext.types = none)
    {buf : YangBuffer} (h : buf.fault = true) : (decodeRtpExtensions ext buf).2.2.fault = true := by
  have hread : ∀ b : YangBuffer, b.fault = true → ∀ k, (b.readNum k).2.fault = true := fun b hb k =>
    (b.take_fault_iff k).2 (.inl hb)
  unfold decodeRtpExtensions
  split
  · exact h
  split
  rename_i b₁ h₁
  split
  rename_i b₂ h₂
  have hb₁ : b₁.fault = true := congrArg (fun r => r.2.fault) h₁ ▸ hread buf h 2
  have hb₂ : b₂.fault = true := congrArg (fun r => r.2.fault) h₂ ▸ hread b₁ hb₁ 2
  split
  · extract_lets xbuf
    obtain ⟨b, hb, hkept, -⟩ := decode0xbede_untyped (xbuf.size - xbuf.head + 1) xbuf htypes
    rw [decode0xbede, hb]
    exact hkept hb₂
  · split
    · exact hb₂
    · exact hb₂

end Elements

section Rest

variable {padding extension : Prop} [Decidable padding] [Decidable extension] {header : RtpHeader}
  {buf b : YangBuffer} {ext : RtpExtensions}

theorem decodeHeaderRest_plain (h : ¬ extension) :
    decodeHeaderRest padding extension header buf = decodePadding padding header buf := by
  rw [decodeHeaderRest, if_neg h]
  rfl

theorem decodeHeaderRest_refused (h : extension)
    (herr : (decodeRtpExtensions (header.extensions.getD {}) buf).1 ≠ yangOk) :
    decodeHeaderRest padding extension header buf =
      ((decodeRtpExtensions (header.extensions.getD {}) buf).1,
        { header with
          extensions := some (decodeRtpExtensions (header.extensions.getD {}) buf).2.1 },
        (decodeRtpExtensions (header.extensions.getD {}) buf).2.2) := by
  rw [decodeHeaderRest, if_pos h]
  exact if_pos herr

theorem decodeHeaderRest_accepted (h : extension)
    (hdec : decodeRtpExtensions (header.extensions.getD {}) buf = (yangOk, ext, b)) :
    decodeHeaderRest padding extension header buf =
      decodePadding padding { header with extensions := some ext } b := by
  rw [decodeHeaderRest, if_pos h, hdec]
  rfl

theorem decodeHeaderRest_fault (hnone : header.extensions = none) (hf : buf.fault = true) :
    (decodeHeaderRest padding extension header buf).2.2.fault = true := by
  by_cases h : extension
  · have hext : (decodeRtpExtensions (header.extensions.getD {}) buf).2.2.fault = true := by
      rw [hnone]
      exact decodeRtpExtensions_fault rfl hf
    by_cases herr : (decodeRtpExtensions (header.extensions.getD {}) buf).1 ≠ yangOk
    · rw [decodeHeaderRest_refused h herr, hext]
    · rw [decodeHeaderRest_accepted h (Prod.ext (not_not.1 herr) rfl), decodePadding_buf, hext]
  · rw [decodeHeaderRest_plain h, decodePadding_buf, hf]

end Rest

/-- What the packet says is inside the datagram, and only the datagram was read. -/
def PacketInside (m : Mem) (n : Nat) : Prop :=
  let (err, pkt, buf) := decodeRtpPacket {} (initBuffer m n)
  (err = yangOk → ∃ p, pkt.payload = some p ∧ p + pkt.nb + pkt.header.paddingLength ≤ n) ∧
    buf.fault = false

/-- The contributing sources are there, and the extension block as well if it is one that is
passed over. -/
def HeaderFits (m : Mem) (n : Nat) : Prop :=
  n < 12 ∨ 12 + 4 * csrcCount m ≤ n ∧ ((m 0).toNat / 16 % 2 = 1 →
    n < blockStart m ∨ ¬ SkipsBlock m ∨ blockEnd m ≤ n)

section Packet

variable {m : Mem} {n : Nat} {header : RtpHeader} {buf : YangBuffer}

theorem inside_of_header {r : Err × RtpHeader × YangBuffer}
    (h : decodeRtpHeader (initBuffer m n) {} = r) : PacketInside m n ↔
      (r.1 = yangOk → r.2.2.head + r.2.1.paddingLength ≤ n) ∧ r.2.2.fault = false := by
  have hsize : r.2.2.size = n := by rw [← h, decodeRtpHeader_size]; rfl
  obtain ⟨err, header, buf⟩ := r
  dsimp only at hsize ⊢
  rw [PacketInside, decodeRtpPacket, h]
  by_cases herr : err = yangOk
  · subst herr
    by_cases hreq : buf.require header.paddingLength = true
    · have hle : buf.head + header.paddingLength ≤ n := by
        rw [YangBuffer.require_iff, YangBuffer.left] at hreq
        omega
      simp only [ne_eq, not_true_eq_false, if_false, hreq, Bool.not_true, Bool.false_eq_true]
      refine and_congr_left fun _ => ?_
      simp only [forall_const, hle, iff_true, Option.some.injEq, exists_eq_left', YangBuffer.left]
      omega
    · have hle : ¬ buf.head + header.paddingLength ≤ n := by
        rw [YangBuffer.require_iff, YangBuffer.left] at hreq
        omega
      rw [Bool.not_eq_true] at hreq
      simp only [ne_eq, not_true_eq_false, if_false, hreq, Bool.not_false, if_true, forall_const,
        hle, reduceCtorEq, false_and, exists_false]
  · simp only [ne_eq, herr, not_false_eq_true, if_true, false_implies, true_and]

theorem inside_of_short (h : n < 12) : PacketInside m n := by
  rw [inside_of_header (decodeRtpHeader_short h)]
  exact ⟨fun herr => absurd herr (show ¬ errorRtcRtpMuxer = yangOk by decide), rfl⟩

/-- Behind the header the head is at `p`: it is in the datagram or no payload is found. -/
theorem inside_of_padding {p : Nat} {fault : Bool} {padding : Prop} [Decidable padding]
    (h0 : header.paddingLength = 0)
    (h : decodeRtpHeader (initBuffer m n) {} = decodePadding padding header ⟨m, n, n, p, fault⟩) :
    PacketInside m n ↔ p ≤ n ∧ fault = false := by
  rw [inside_of_header h, decodePadding_buf]
  refine and_congr_left fun _ => ?_
  by_cases hle : p ≤ n
  · exact iff_of_true (decodePadding_fits h0 hle) hle
  · rw [decodePadding_beyond (show n < p by omega)]
    simp only [forall_const, h0, Nat.add_zero]

/-- The packet is decoded safely exactly when its header fits. -/
theorem decodeRtpPacket_inside_iff (m : Mem) (n : Nat) : PacketInside m n ↔ HeaderFits m n := by
  by_cases hn : n < 12
  · exact iff_of_true (inside_of_short hn) (.inl hn)
  have hrest := @decodeRtpHeader_rest m n {} (Nat.le_of_not_lt hn)
  rw [HeaderFits, or_iff_right hn]
  by_cases hcsrc : 12 + 4 * csrcCount m ≤ n
  · rw [and_iff_right hcsrc]
    by_cases hext : (m 0).toNat / 16 % 2 = 1
    · rw [forall_prop_of_true hext]
      by_cases hskips : n < blockStart m ∨ ¬ SkipsBlock m
      · obtain ⟨herr, hfault⟩ := decodeRtpExtensions_refused {} hcsrc hskips
        rw [inside_of_header (hrest.trans (decodeHeaderRest_refused hext herr))]
        exact iff_of_true ⟨fun hok => absurd hok herr, hfault⟩ (or_assoc.1 (.inl hskips))
      · have hhead : blockStart m ≤ n := Nat.le_of_not_lt fun h => hskips (.inl h)
        have hkind : SkipsBlock m := not_not.1 fun h => hskips (.inr h)
        obtain ⟨fault, hdec, hin⟩ := decodeRtpExtensions_skips hhead hkind
        rw [inside_of_padding rfl (hrest.trans (decodeHeaderRest_accepted hext hdec)), ← or_assoc,
          or_iff_right hskips]
        exact and_iff_left_of_imp hin
    · rw [behindCsrc_within hcsrc, decodeHeaderRest_plain hext] at hrest
      rw [inside_of_padding rfl hrest]
      exact iff_of_true ⟨hcsrc, rfl⟩ fun h => absurd h hext
  · have hfault := behindCsrc_fault (Nat.lt_of_not_le hcsrc)
    rw [inside_of_header hrest, decodeHeaderRest_fault rfl hfault]
    exact iff_of_false (fun h => absurd h.2 (by decide)) fun h => hcsrc h.1

/-- Twelve bytes that announce a contributing source which is not there. -/
theorem csrc_read_outside : ¬ ∀ m n, PacketInside m n := by
  intro h
  have hin := (h (ofList [0x81, 96, 0, 1, 0, 0, 0, 0, 0, 0, 0, 1]) 12).2
  exact absurd hin (by decide)

end Packet

end MetaRtc
