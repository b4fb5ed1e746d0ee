import MetaRtc.Rtcp.Pass

/-! # Where the compound loop looks for sub-packets -/
namespace MetaRtc

open Bytes YangBuffer Loop

/-- A cursor at offset `p` of the datagram. -/
def bufferAt (data : Mem) (size p : Nat) : YangBuffer := ⟨data, size, size, p, false⟩

/-- The closed form looks at the bytes and the bound only, not at past faults. -/
theorem effect_bufferAt (enableTwcc : Bool) (buf : YangBuffer) :
    effect enableTwcc buf = effect enableTwcc (bufferAt buf.data buf.size buf.head) := rfl

/-- The offsets at which the loop takes a sub-packet to start, by the header bytes found
at each. -/
inductive Starts (enableTwcc : Bool) (data : Mem) (size first : Nat) : Nat → Prop where
  | first : Starts enableTwcc data size first first
  | next {p n : Nat} : Starts enableTwcc data size first p → p < size →
      (effect enableTwcc (bufferAt data size p)).advance = some n →
      Starts enableTwcc data size first (p + n)

section Pass

variable {enableTwcc : Bool} {s : DecodeState}

theorem pass_empty (h : s.buf.size ≤ s.buf.head) :
    decodePass enableTwcc s = .done (yangOk, s) := by
  simp [decodePass, empty, h]

theorem pass_error (h : s.buf.head < s.buf.size) (ha : (effect enableTwcc s.buf).advance = none) :
    decodePass enableTwcc s = .done (errorRtcRtcp,
      ⟨s.rtcps, (decodeSubPacket enableTwcc s.buf s.heap).1.buf,
        (decodeSubPacket enableTwcc s.buf s.heap).2.free .rtcp⟩) := by
  have hd := (subPacket_has enableTwcc s.buf s.heap).err
  rw [ha] at hd
  have hne : errorRtcRtcp ≠ errorRtcRtcpEmptyRR := by decide
  simp [decodePass, empty, h, hd, error_ne_ok, hne]

theorem pass_kept {n : Nat} (h : s.buf.head < s.buf.size)
    (ha : (effect enableTwcc s.buf).advance = some n)
    (hk : (effect enableTwcc s.buf).kept = true) :
    decodePass enableTwcc s = .next
      ⟨rtcpCompoundAddRtcp s.rtcps (decodeSubPacket enableTwcc s.buf s.heap).1.comm,
        (decodeSubPacket enableTwcc s.buf s.heap).1.buf,
        (decodeSubPacket enableTwcc s.buf s.heap).2.free .rtcp⟩ := by
  have hd := (subPacket_has enableTwcc s.buf s.heap).err
  simp only [ha, hk, ite_true] at hd
  simp [decodePass, empty, h, hd]

theorem pass_dropped {n : Nat} (h : s.buf.head < s.buf.size)
    (ha : (effect enableTwcc s.buf).advance = some n)
    (hk : (effect enableTwcc s.buf).kept = false) :
    decodePass enableTwcc s = .next
      ⟨s.rtcps, (decodeSubPacket enableTwcc s.buf s.heap).1.buf,
        (decodeSubPacket enableTwcc s.buf s.heap).2.free .rtcp⟩ := by
  have hd := (subPacket_has enableTwcc s.buf s.heap).err
  simp only [ha, hk, ite_false, Bool.false_eq_true] at hd
  have hne : errorRtcRtcpEmptyRR ≠ yangOk := by decide
  simp [decodePass, empty, h, hd, hne]

/-- A pass goes round exactly where the closed form does not end in an error. -/
theorem pass_goes {n : Nat} (h : s.buf.head < s.buf.size)
    (ha : (effect enableTwcc s.buf).advance = some n) :
    ∃ t, decodePass enableTwcc s = .next t ∧
      t.buf = (decodeSubPacket enableTwcc s.buf s.heap).1.buf := by
  cases hk : (effect enableTwcc s.buf).kept with
  | true => exact ⟨_, pass_kept h ha hk, rfl⟩
  | false => exact ⟨_, pass_dropped h ha hk, rfl⟩

theorem pass_next {t : DecodeState} (h : decodePass enableTwcc s = .next t) :
    s.buf.head < s.buf.size ∧
      t.buf = (decodeSubPacket enableTwcc s.buf s.heap).1.buf ∧
      ∃ n, (effect enableTwcc s.buf).advance = some n ∧ t.buf.data = s.buf.data ∧
        t.buf.bound = s.buf.bound ∧ t.buf.size = s.buf.size ∧ t.buf.head = s.buf.head + n := by
  rcases Nat.lt_or_ge s.buf.head s.buf.size with hlt | hge
  · refine ⟨hlt, ?_⟩
    cases ha : (effect enableTwcc s.buf).advance with
    | none =>
      rw [pass_error hlt ha] at h
      cases h
    | some n =>
      obtain ⟨u, hu, hb⟩ := pass_goes hlt ha
      obtain rfl : u = t := by rw [hu] at h; exact Outcome.next.inj h
      have hd := subPacket_has enableTwcc s.buf s.heap
      exact ⟨hb, n, rfl, hb ▸ hd.data, hb ▸ hd.bound, hb ▸ hd.size, hb ▸ hd.head n ha⟩
  · rw [pass_empty hge] at h
    cases h

end Pass

variable {enableTwcc : Bool} {s t : DecodeState}

theorem visits_mem (h : Visits (decodePass enableTwcc) s t) :
    t.buf.data = s.buf.data ∧ t.buf.size = s.buf.size := by
  induction h with
  | refl => exact ⟨rfl, rfl⟩
  | tail _ hab ih =>
    obtain ⟨_, _, n, _, hd, _, hs, _⟩ := pass_next hab
    exact ⟨hd.trans ih.1, hs.trans ih.2⟩

theorem visits_bound (h : Visits (decodePass enableTwcc) s t) : t.buf.bound = s.buf.bound := by
  induction h with
  | refl => rfl
  | tail _ hab ih =>
    obtain ⟨_, _, n, _, _, hb, _, _⟩ := pass_next hab
    exact hb.trans ih

theorem visits_starts (h : Visits (decodePass enableTwcc) s t) :
    Starts enableTwcc s.buf.data s.buf.size s.buf.head t.buf.head := by
  induction h with
  | refl => exact .first
  | tail hv hab ih =>
    obtain ⟨hlt, _, n, ha, _, _, _, hh⟩ := pass_next hab
    obtain ⟨hd, hs⟩ := visits_mem hv
    rw [effect_bufferAt, hd, hs] at ha
    rw [hh]
    exact .next ih (hs ▸ hlt) ha

theorem starts_visited {p : Nat}
    (h : Starts enableTwcc s.buf.data s.buf.size s.buf.head p) :
    ∃ t, Visits (decodePass enableTwcc) s t ∧ t.buf.head = p := by
  induction h with
  | first => exact ⟨s, .refl, rfl⟩
  | next _ hlt ha ih =>
    obtain ⟨t, hv, rfl⟩ := ih
    obtain ⟨hd, hs⟩ := visits_mem hv
    rw [← hd, ← hs, ← effect_bufferAt] at ha
    obtain ⟨u, hu, hb⟩ := pass_goes (hs ▸ hlt) ha
    refine ⟨u, hv.tail hu, ?_⟩
    rw [hb, (subPacket_has enableTwcc t.buf t.heap).head _ ha]

/-- The loop heads a run visits are the starts read off the bytes: what holds at
every start holds at every loop head, and the other way round. -/
theorem forall_visits_iff (P : YangBuffer → Prop)
    (hP : ∀ buf, P buf ↔ P (bufferAt buf.data buf.size buf.head)) :
    (∀ t, Visits (decodePass enableTwcc) s t → t.buf.head < t.buf.size → P t.buf) ↔
      ∀ p, Starts enableTwcc s.buf.data s.buf.size s.buf.head p → p < s.buf.size →
        P (bufferAt s.buf.data s.buf.size p) := by
  constructor
  · intro h p hp hlt
    obtain ⟨t, hv, rfl⟩ := starts_visited hp
    obtain ⟨hd, hs⟩ := visits_mem hv
    have ht := h t hv (hs ▸ hlt)
    rwa [hP, hd, hs] at ht
  · intro h t hv hlt
    obtain ⟨hd, hs⟩ := visits_mem hv
    rw [hP, hd, hs]
    exact h _ (visits_starts hv) (hs ▸ hlt)

end MetaRtc
