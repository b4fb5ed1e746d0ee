import MetaRtc.Lib.Loop
import MetaRtc.Rtp.Header

/-! # The transport-wide number read ahead of the packet

The parser walks the elements of the extension block by pointer and counts the bytes left
in 16 bits. A block is measured before it is walked, an element is not. -/
namespace MetaRtc

open Bytes Loop

/-- `extensionLength` is what is left of the block. `fault` tells whether an element was read
outside of the datagram or of its block; the code does not look at it. -/
structure FastTwcc where
  buf : Nat
  extensionLength : Nat
  fault : Bool := false

/-- Look at `n` bytes of an element. -/
def FastTwcc.touch (s : FastTwcc) (limit n : Nat) : FastTwcc :=
  { s with fault := s.fault || decide (limit < s.buf + n) }

def FastTwcc.skip (s : FastTwcc) (n : Nat) : FastTwcc :=
  { s with buf := s.buf + n, extensionLength := (s.extensionLength + 65536 - n) % 65536 }

/-- One element. The result is the number that was found and whether a fault has happened. -/
def fastTwccPass (m : Mem) (twccId limit : Nat) (s : FastTwcc) :
    Outcome FastTwcc (Option Nat × Bool) :=
  if s.extensionLength > 0 then
    let v := (m s.buf).toNat
    let s := (s.touch limit 1).skip 1
    if v = 0 then .next s
    else
      let id := v / 16
      let len := v % 16 + 1
      if id = twccId then .done (some (m.be s.buf 2), (s.touch limit 2).fault)
      else .next (s.skip len)
  else .done (none, s.fault)

/-- How many contributing sources the first byte says there are. -/
def csrcCount (m : Mem) : Nat := (m 0).toNat % 16

/-- Where the elements of the extension block begin, and the length field in front of them. -/
def blockStart (m : Mem) : Nat := 16 + 4 * csrcCount m
def blockWords (m : Mem) : Nat := m.be (14 + 4 * csrcCount m) 2

/-- The end of what an element may be read of. -/
def blockLimit (m : Mem) (size : Nat) : Nat := min size (blockStart m + 4 * blockWords m)

/-- `none` says that the loop has not come to its end within `fuel` passes. -/
def fastParseTwcc (fuel : Nat) (m : Mem) (size twccId : Nat) : Option (Err × Option Nat × Bool) :=
  let needSize := 12 + 4 + 3
  if size < needSize then some (errorRtcRtpMuxer, none, false)
  else
    let extension := (m 0).toNat / 16 % 2 = 1
    let cc := csrcCount m
    if ¬ extension then some (errorRtcRtp, none, false)
    else
      let needSize := needSize + cc * 4
      if size < needSize then some (errorRtcRtpMuxer, none, false)
      else if m.be (12 + 4 * cc) 2 ≠ 0xBEDE then some (errorRtcRtpMuxer, none, false)
      else
        let extensionLength := blockWords m * 4 % 65536
        if size < needSize + extensionLength then some (errorRtcRtpMuxer, none, false)
        else
          (run (fastTwccPass m twccId (blockLimit m size)) fuel
            { buf := blockStart m, extensionLength }).map
            fun (twccSn, fault) => (yangOk, twccSn, fault)

/-- The parser comes to an end and has read no element outside. -/
def FastInside (m : Mem) (size twccId : Nat) : Prop :=
  ∃ fuel err twccSn, fastParseTwcc fuel m size twccId = some (err, twccSn, false)

/-- The datagram has a block of one-byte elements and passes the checks in front of it. -/
structure HasBlock (m : Mem) (size : Nat) : Prop where
  extension : (m 0).toNat / 16 % 2 = 1
  profile : m.be (12 + 4 * csrcCount m) 2 = 0xBEDE
  fits : blockStart m + blockWords m * 4 % 65536 + 3 ≤ size

/-- An element that the parser looks for, and the place behind one that it does not. -/
def IsSought (m : Mem) (twccId p : Nat) : Prop := (m p).toNat ≠ 0 ∧ (m p).toNat / 16 = twccId

instance (m : Mem) (twccId p : Nat) : Decidable (IsSought m twccId p) :=
  inferInstanceAs (Decidable (_ ∧ _))

def behind (m : Mem) (p : Nat) : Nat :=
  if (m p).toNat = 0 then p + 1 else p + 1 + ((m p).toNat % 16 + 1)

/-- From `p` on, padding and elements follow one another up to the element that is sought, with
its two bytes, or to the end of the block as 16 bits tell it. Each of them begins in front of
`limit`. -/
inductive Walks (m : Mem) (twccId limit stop : Nat) : Nat → Prop where
  | atEnd {p : Nat} (h : p % 65536 = stop % 65536) : Walks m twccId limit stop p
  | found {p : Nat} (hp : p % 65536 ≠ stop % 65536) (hlim : p + 3 ≤ limit)
      (hs : IsSought m twccId p) : Walks m twccId limit stop p
  | pass {p : Nat} (hp : p % 65536 ≠ stop % 65536) (hlim : p < limit)
      (hs : ¬ IsSought m twccId p) (h : Walks m twccId limit stop (behind m p)) :
      Walks m twccId limit stop p

theorem lt_behind (m : Mem) (p : Nat) : p < behind m p := by
  unfold behind
  split <;> omega

theorem behind_le (m : Mem) (p : Nat) : behind m p ≤ p + 17 := by
  unfold behind
  split <;> omega

section Walk

variable {m : Mem} {twccId limit stop : Nat} {s : FastTwcc}

/-- What is left in 16 bits and the place in the block tell its end. -/
structure FastTwcc.At (s : FastTwcc) (stop : Nat) : Prop where
  left : s.extensionLength < 65536
  ends : (s.buf + s.extensionLength) % 65536 = stop % 65536

theorem FastTwcc.At.over_iff (h : s.At stop) :
    s.extensionLength = 0 ↔ s.buf % 65536 = stop % 65536 := by
  have hleft := h.left
  have hends := h.ends
  omega

theorem fastTwccPass_over (h : s.extensionLength = 0) :
    fastTwccPass m twccId limit s = .done (none, s.fault) := by
  simp [fastTwccPass, h]

theorem FastTwcc.touch_found (s : FastTwcc) (limit : Nat) :
    (((s.touch limit 1).skip 1).touch limit 2).fault =
      (s.fault || decide (limit < s.buf + 3)) := by
  show (s.fault || decide (limit < s.buf + 1) || decide (limit < s.buf + 1 + 2)) = _
  have hall : (decide (limit < s.buf + 1) || decide (limit < s.buf + 1 + 2)) =
      decide (limit < s.buf + 3) := by
    rw [Bool.eq_iff_iff]
    simp only [Bool.or_eq_true, decide_eq_true_eq]
    omega
  rw [Bool.or_assoc, hall]

theorem fastTwccPass_found (hleft : s.extensionLength ≠ 0) (hs : IsSought m twccId s.buf) :
    fastTwccPass m twccId limit s =
      .done (some (m.be (s.buf + 1) 2), s.fault || decide (limit < s.buf + 3)) := by
  rw [fastTwccPass, if_pos (by omega)]
  simp only [if_neg hs.1, if_pos hs.2, FastTwcc.touch_found]
  rfl

theorem fastTwccPass_pass (limit : Nat) (h : s.At stop) (hleft : s.extensionLength ≠ 0)
    (hs : ¬ IsSought m twccId s.buf) : ∃ t : FastTwcc, fastTwccPass m twccId limit s = .next t ∧
      t.At stop ∧ t.buf = behind m s.buf ∧ t.fault = (s.fault || decide (limit < s.buf + 1)) := by
  have hl := h.left
  have he := h.ends
  rw [fastTwccPass, if_pos (by omega)]
  by_cases hv : (m s.buf).toNat = 0
  · rw [if_pos hv]
    refine ⟨_, rfl, ⟨?_, ?_⟩, ?_, rfl⟩
    · simp only [FastTwcc.touch, FastTwcc.skip]
      omega
    · simp only [FastTwcc.touch, FastTwcc.skip]
      omega
    · simp only [FastTwcc.touch, FastTwcc.skip, behind, if_pos hv]
  · have hid : ¬ (m s.buf).toNat / 16 = twccId := fun hid => hs ⟨hv, hid⟩
    simp only [if_neg hv, if_neg hid]
    refine ⟨_, rfl, ⟨?_, ?_⟩, ?_, rfl⟩
    · simp only [FastTwcc.touch, FastTwcc.skip]
      omega
    · simp only [FastTwcc.touch, FastTwcc.skip]
      omega
    · simp only [FastTwcc.touch, FastTwcc.skip, behind, if_neg hv]

/-- A read outside is not forgotten. -/
theorem run_fault {fuel : Nat} {r : Option Nat × Bool} (h : s.At stop) (hf : s.fault = true)
    (hr : run (fastTwccPass m twccId limit) fuel s = some r) : r.2 = true := by
  induction fuel generalizing s with
  | zero => exact absurd hr (by simp [run])
  | succ fuel ih =>
    by_cases hleft : s.extensionLength = 0
    · rw [run_done (fastTwccPass_over hleft)] at hr
      rw [← Option.some.inj hr, hf]
    · by_cases hs : IsSought m twccId s.buf
      · rw [run_done (fastTwccPass_found hleft hs)] at hr
        rw [← Option.some.inj hr, hf, Bool.true_or]
      · obtain ⟨t, hpass, hat, -, hfault⟩ := fastTwccPass_pass limit h hleft hs
        rw [run_next hpass] at hr
        exact ih hat (by rw [hfault, hf, Bool.true_or]) hr

theorem run_walks {fuel : Nat} {sn : Option Nat} (h : s.At stop)
    (hr : run (fastTwccPass m twccId limit) fuel s = some (sn, false)) :
    Walks m twccId limit stop s.buf := by
  induction fuel generalizing s with
  | zero => exact absurd hr (by simp [run])
  | succ fuel ih =>
    by_cases hleft : s.extensionLength = 0
    · exact .atEnd (h.over_iff.1 hleft)
    · have hp : s.buf % 65536 ≠ stop % 65536 := fun hp => hleft (h.over_iff.2 hp)
      by_cases hs : IsSought m twccId s.buf
      · rw [run_done (fastTwccPass_found hleft hs)] at hr
        have hin := congrArg Prod.snd (Option.some.inj hr)
        simp only [Bool.or_eq_false_iff, decide_eq_false_iff_not] at hin
        exact .found hp (by omega) hs
      · obtain ⟨t, hpass, hat, hbuf, hfault⟩ := fastTwccPass_pass limit h hleft hs
        rw [run_next hpass] at hr
        have htf : t.fault = false := by
          cases htf : t.fault with
          | false => rfl
          | true => exact absurd (run_fault hat htf hr) (by simp)
        rw [htf, eq_comm] at hfault
        simp only [Bool.or_eq_false_iff, decide_eq_false_iff_not] at hfault
        exact .pass hp (by omega) hs (hbuf ▸ ih hat hr)

theorem Walks.run {p : Nat} (hw : Walks m twccId limit stop p) (h : s.At stop) (hp : s.buf = p)
    (hf : s.fault = false) :
    ∃ fuel sn, Loop.run (fastTwccPass m twccId limit) fuel s = some (sn, false) := by
  induction hw generalizing s with
  | atEnd hstop =>
    refine ⟨1, none, ?_⟩
    rw [run_done (fastTwccPass_over (h.over_iff.2 (hp ▸ hstop))), hf]
  | found hstop hlim hs =>
    subst hp
    have hleft : s.extensionLength ≠ 0 := fun hleft => hstop (h.over_iff.1 hleft)
    have hin : decide (limit < s.buf + 3) = false := decide_eq_false (by omega)
    exact ⟨1, _, by rw [run_done (fastTwccPass_found hleft hs), hf, hin, Bool.false_or]⟩
  | pass hstop hlim hs _ ih =>
    subst hp
    have hleft : s.extensionLength ≠ 0 := fun hleft => hstop (h.over_iff.1 hleft)
    have hin : decide (limit < s.buf + 1) = false := decide_eq_false (by omega)
    obtain ⟨t, hpass, hat, hbuf, hfault⟩ := fastTwccPass_pass limit h hleft hs
    obtain ⟨fuel, sn, hr⟩ := ih hat hbuf (by rw [hfault, hf, hin, Bool.false_or])
    exact ⟨fuel + 1, sn, by rw [run_next hpass, hr]⟩

end Walk

/-! ## The checks in front of the walk -/

/-- Where the block ends, as 16 bits tell it. -/
def blockStop (m : Mem) : Nat := blockStart m + blockWords m * 4 % 65536

variable {m : Mem} {size twccId : Nat}

theorem blockStart_at (m : Mem) :
    FastTwcc.At ⟨blockStart m, blockWords m * 4 % 65536, false⟩ (blockStop m) :=
  ⟨Nat.mod_lt _ (by decide), rfl⟩

theorem fastParseTwcc_walk (h : HasBlock m size) (fuel : Nat) :
    fastParseTwcc fuel m size twccId =
      (run (fastTwccPass m twccId (blockLimit m size)) fuel
        { buf := blockStart m, extensionLength := blockWords m * 4 % 65536 }).map
        fun (twccSn, fault) => (yangOk, twccSn, fault) := by
  have hfits := h.fits
  have hstart : blockStart m = 16 + 4 * csrcCount m := rfl
  unfold fastParseTwcc
  rw [if_neg (by omega), if_neg (not_not.2 h.extension), if_neg (by omega),
    if_neg (not_not.2 h.profile), if_neg (by omega)]

theorem fastParseTwcc_refused (twccId : Nat) (h : ¬ HasBlock m size) :
    ∃ err, err ≠ yangOk ∧ ∀ fuel, fastParseTwcc fuel m size twccId = some (err, none, false) := by
  unfold fastParseTwcc
  by_cases hsize : size < 12 + 4 + 3
  · exact ⟨_, by decide, fun _ => if_pos hsize⟩
  by_cases hext : (m 0).toNat / 16 % 2 = 1
  · by_cases hcc : size < 12 + 4 + 3 + csrcCount m * 4
    · exact ⟨errorRtcRtpMuxer, by decide, fun _ => by
        rw [if_neg hsize, if_neg (not_not.2 hext), if_pos hcc]⟩
    by_cases hprofile : m.be (12 + 4 * csrcCount m) 2 = 0xBEDE
    · have hshort : size < 12 + 4 + 3 + csrcCount m * 4 + blockWords m * 4 % 65536 := by
        refine Nat.lt_of_not_le fun hle => h ⟨hext, hprofile, ?_⟩
        unfold blockStart
        omega
      exact ⟨errorRtcRtpMuxer, by decide, fun _ => by
        rw [if_neg hsize, if_neg (not_not.2 hext), if_neg hcc, if_neg (not_not.2 hprofile),
          if_pos hshort]⟩
    · exact ⟨errorRtcRtpMuxer, by decide, fun _ => by
        rw [if_neg hsize, if_neg (not_not.2 hext), if_neg hcc, if_pos hprofile]⟩
  · exact ⟨errorRtcRtp, by decide, fun _ => by rw [if_neg hsize, if_pos hext]⟩

theorem fastParseTwcc_unique {n k : Nat} {r q : Err × Option Nat × Bool}
    (hn : fastParseTwcc n m size twccId = some r) (hk : fastParseTwcc k m size twccId = some q) :
    r = q := by
  by_cases h : HasBlock m size
  · rw [fastParseTwcc_walk h, Option.map_eq_some_iff] at hn hk
    obtain ⟨_, hn, rfl⟩ := hn
    obtain ⟨_, hk, rfl⟩ := hk
    rw [run_unique hn hk]
  · obtain ⟨_, -, hr⟩ := fastParseTwcc_refused twccId h
    exact Option.some.inj (hn.symm.trans ((hr n).trans ((hr k).symm.trans hk)))

/-- The parser reads inside of the datagram and the block exactly where the block, if there is
one, is padding and elements up to its end or to the element sought. -/
theorem fastParse_inside_iff (m : Mem) (size twccId : Nat) :
    FastInside m size twccId ↔
      (HasBlock m size → Walks m twccId (blockLimit m size) (blockStop m) (blockStart m)) := by
  constructor
  · rintro ⟨fuel, err, twccSn, hrun⟩ h
    rw [fastParseTwcc_walk h, Option.map_eq_some_iff] at hrun
    obtain ⟨⟨sn, fault⟩, hrun, heq⟩ := hrun
    obtain rfl : fault = false := congrArg (fun r => r.2.2) heq
    exact run_walks (blockStart_at m) hrun
  · intro hw
    by_cases h : HasBlock m size
    · obtain ⟨fuel, sn, hrun⟩ := (hw h).run (blockStart_at m) rfl rfl
      exact ⟨fuel, yangOk, sn, by rw [fastParseTwcc_walk h, hrun]; rfl⟩
    · obtain ⟨err, -, hr⟩ := fastParseTwcc_refused twccId h
      exact ⟨0, err, none, hr 0⟩

/-- A block of one word whose only element says it has sixteen bytes. -/
def overlongElement : Mem := ofList
  ([0x90, 96, 0, 1, 0, 0, 0, 0, 0, 0, 0, 1] ++ [0xBE, 0xDE, 0, 1] ++ [0x1F, 0, 0, 0] ++
    List.replicate 13 0 ++ [0x31, 0, 7])

/-- The datagram ends after the 23rd byte, the number is taken from the 35th. -/
theorem overlong_element_read_outside :
    ¬ ∀ m size twccId, (m 0).toNat / 16 % 2 = 1 → FastInside m size twccId := by
  intro h
  obtain ⟨fuel, err, twccSn, hrun⟩ := h overlongElement 23 3 (by decide)
  have houtside : fastParseTwcc 3 overlongElement 23 3 = some (yangOk, some 7, true) := by
    decide +kernel
  exact absurd (congrArg (fun r => r.2.2) (fastParseTwcc_unique hrun houtside)) (by simp)

/-! ## Blocks of less than 64 KiB -/

/-- Padding and elements make up the block from `p` to `stop`, or to the element sought. -/
inductive Tiles (m : Mem) (twccId stop : Nat) : Nat → Prop where
  | atEnd : Tiles m twccId stop stop
  | found {p : Nat} (hp : p + 3 ≤ stop) (hs : IsSought m twccId p) : Tiles m twccId stop p
  | pass {p : Nat} (hp : p < stop) (hs : ¬ IsSought m twccId p)
      (h : Tiles m twccId stop (behind m p)) : Tiles m twccId stop p

theorem Walks.tiles {stop p : Nat} (h : Walks m twccId stop stop p) (hp : p ≤ stop + 17)
    (hstop : stop < p + 65536) : Tiles m twccId stop p := by
  induction h with
  | @atEnd p hend =>
    obtain rfl : p = stop := by omega
    exact .atEnd
  | found _ hlim hs => exact .found hlim hs
  | @pass p _ hlim hs _ ih =>
    have hlt := lt_behind m p
    have hle := behind_le m p
    exact .pass hlim hs (ih (by omega) (by omega))

theorem Tiles.walks {stop p : Nat} (h : Tiles m twccId stop p) (hstop : stop < p + 65536) :
    Walks m twccId stop stop p := by
  induction h with
  | atEnd => exact .atEnd rfl
  | found hp hs => exact .found (by omega) hp hs
  | @pass p hp hs _ ih =>
    have hlt := lt_behind m p
    exact .pass (by omega) hp hs (ih (by omega))

/-- Where the length fits in 16 bits no element wraps the counter unseen. -/
theorem walks_iff_tiles (h : HasBlock m size) (hwords : blockWords m < 16384) :
    Walks m twccId (blockLimit m size) (blockStop m) (blockStart m) ↔
      Tiles m twccId (blockStop m) (blockStart m) := by
  have hmod : blockWords m * 4 % 65536 = 4 * blockWords m := by omega
  have hfits := h.fits
  have hstop : blockStop m = blockStart m + 4 * blockWords m := by rw [blockStop, hmod]
  have hlimit : blockLimit m size = blockStop m := by
    rw [blockLimit, hstop]
    omega
  rw [hlimit]
  exact ⟨fun hw => hw.tiles (by omega) (by omega), fun ht => ht.walks (by omega)⟩

end MetaRtc
