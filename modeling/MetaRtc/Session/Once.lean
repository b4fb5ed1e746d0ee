import Mathlib.Algebra.Order.BigOperators.Group.List
import MetaRtc.Session.Ledger

/-! # Each packet once, and nothing kept

The vector and the blocks of a session outlive the datagram. What is left in them behind a
call is dispatched, or lost, with the next one. -/
namespace MetaRtc

open Bytes Exec YangBuffer Loop

/-- A sub-packet that leaves nothing behind: no sender report, whose block is never given
back; no report that is refused or empty; and no other refused packet but as the first. -/
def Disposable (enableTwcc : Bool) (buf : YangBuffer) : Prop :=
  match subKind enableTwcc buf.hdr with
  | .sr => False
  | .rr => buf.HeaderOk ∧ 0 < buf.hdr.rc
  | .nack | .twcc | .rpsi | .unread => True
  | .pli | .psfb | .xr | .other => buf.HeaderOk ∨ buf.head = 0

/-- What a call leaves allocated behind the decoder: only success clears the vector. -/
def leftBy (r : Err × DecodeState) : Heap :=
  if r.1 = yangOk then residue r.2.rtcps r.2.heap else r.2.heap

section Pass

variable {enableTwcc : Bool} {s t : DecodeState}

theorem released_nonneg (rtcp : RtcpCommon) (k : Block) : 0 ≤ rtcp.released k := by
  unfold RtcpCommon.released RtcpCommon.owned blocksAt
  split
  · exact le_refl 0
  · cases k <;> simp only [le_refl] <;> split <;> decide

theorem residue_le_heap (rtcps : RtcpCompound) (heap : Heap) (k : Block) :
    residue rtcps heap k ≤ heap k := by
  rw [residue_eq]
  have hsum : 0 ≤ (rtcps.rtcpVector.map fun rtcp => rtcp.released k).sum := by
    apply List.sum_nonneg
    intro x hx
    obtain ⟨rtcp, _, rfl⟩ := List.mem_map.mp hx
    exact released_nonneg rtcp k
  omega

/-- The blocks behind a pass, the packet's own given back. -/
theorem subPacket_heap (enableTwcc : Bool) (buf : YangBuffer) (heap : Heap) (k : Block) :
    (decodeSubPacket enableTwcc buf heap).2.free .rtcp k =
      heap k + (subKind enableTwcc buf.hdr).makes k := by
  rw [free_apply, (subPacket_ledger enableTwcc buf heap).2 k]
  unfold packetBlock
  omega

theorem subPacket_released (enableTwcc : Bool) (buf : YangBuffer) (heap : Heap) (k : Block) :
    (decodeSubPacket enableTwcc buf heap).1.comm.released k =
      if k = .sr then 0 else (subKind enableTwcc buf.hdr).makes k := by
  rw [RtcpCommon.released, (subPacket_ledger enableTwcc buf heap).1]

/-- The step lemma: a pass that goes round loses a sender report, or all of a packet that
is dropped. -/
theorem pass_residue (hs : decodePass enableTwcc s = .next t) (k : Block) :
    residue t.rtcps t.heap k = residue s.rtcps s.heap k +
      if k = .sr ∨ (effect enableTwcc s.buf).kept = false then
        (subKind enableTwcc s.buf.hdr).makes k else 0 := by
  obtain ⟨hlt, _, n, ha, _⟩ := pass_next hs
  cases hk : (effect enableTwcc s.buf).kept with
  | true =>
    rw [pass_kept hlt ha hk] at hs
    cases hs
    rw [residue_eq, residue_eq]
    simp only [rtcpCompoundAddRtcp, List.map_append, List.map_cons, List.map_nil, List.sum_append,
      List.sum_cons, List.sum_nil, subPacket_heap, subPacket_released, Bool.true_eq_false, or_false]
    split <;> omega
  | false =>
    rw [pass_dropped hlt ha hk] at hs
    cases hs
    rw [residue_eq, residue_eq, if_pos (.inr rfl)]
    simp only [subPacket_heap]
    omega

theorem pass_done {r : Err × DecodeState} (hs : decodePass enableTwcc s = .done r) :
    (s.buf.size ≤ s.buf.head ∧ r = (yangOk, s)) ∨
      (s.buf.head < s.buf.size ∧ (effect enableTwcc s.buf).advance = none ∧ r.1 ≠ yangOk ∧
        r.2.rtcps = s.rtcps ∧
        ∀ k, r.2.heap k = s.heap k + (subKind enableTwcc s.buf.hdr).makes k) := by
  rcases Nat.lt_or_ge s.buf.head s.buf.size with hlt | hge
  · right
    cases ha : (effect enableTwcc s.buf).advance with
    | none =>
      rw [pass_error hlt ha] at hs
      cases hs
      exact ⟨hlt, rfl, error_ne_ok, rfl, fun k => subPacket_heap _ _ _ k⟩
    | some n =>
      obtain ⟨t, ht, _⟩ := pass_goes hlt ha
      rw [ht] at hs
      cases hs
  · rw [pass_empty hge] at hs
    exact .inl ⟨hge, (Outcome.done.inj hs).symm⟩

/-- The run lemma: what is lost stays lost. -/
theorem run_residue {n : Nat} {r : Err × DecodeState}
    (h : run (decodePass enableTwcc) n s = some r) (k : Block) :
    residue s.rtcps s.heap k ≤ leftBy r k := by
  induction n generalizing s with
  | zero => cases h
  | succ n ih =>
    have hmakes := (subKind enableTwcc s.buf.hdr).makes_nonneg k
    cases hs : decodePass enableTwcc s with
    | next t =>
      rw [run_next hs] at h
      have ht := ih h
      have hstep := pass_residue hs k
      split at hstep <;> omega
    | done q =>
      rw [run_done hs] at h
      obtain rfl := Option.some.inj h
      rcases pass_done hs with ⟨_, rfl⟩ | ⟨_, _, he, _, hheap⟩
      · rw [leftBy, if_pos rfl]
      · rw [leftBy, if_neg he, hheap k]
        have := residue_le_heap s.rtcps s.heap k
        omega

/-- And what the pass at hand loses is lost. -/
theorem run_residue_head {n : Nat} {r : Err × DecodeState} (hlt : s.buf.head < s.buf.size)
    (h : run (decodePass enableTwcc) n s = some r) (k : Block)
    (hk : k = .sr ∨ (effect enableTwcc s.buf).kept = false ∨
      (effect enableTwcc s.buf).advance = none) :
    residue s.rtcps s.heap k + (subKind enableTwcc s.buf.hdr).makes k ≤ leftBy r k := by
  cases n with
  | zero => cases h
  | succ n =>
    cases hs : decodePass enableTwcc s with
    | next t =>
      rw [run_next hs] at h
      obtain ⟨_, _, m, ha, _⟩ := pass_next hs
      have hlost : k = .sr ∨ (effect enableTwcc s.buf).kept = false := by
        rcases hk with hk | hk | hk
        · exact .inl hk
        · exact .inr hk
        · rw [ha] at hk
          cases hk
      have hstep := pass_residue hs k
      rw [if_pos hlost] at hstep
      have ht := run_residue h k
      omega
    | done q =>
      rw [run_done hs] at h
      obtain rfl := Option.some.inj h
      rcases pass_done hs with ⟨hge, _⟩ | ⟨_, _, he, _, hheap⟩
      · omega
      · rw [leftBy, if_neg he, hheap k]
        have := residue_le_heap s.rtcps s.heap k
        omega

theorem visits_residue (hv : Visits (decodePass enableTwcc) s t) (k : Block) :
    residue s.rtcps s.heap k ≤ residue t.rtcps t.heap k := by
  induction hv with
  | refl => exact le_refl _
  | tail _ hab ih =>
    rename_i b c _
    have hmakes := (subKind enableTwcc b.buf.hdr).makes_nonneg k
    have hstep := pass_residue hab k
    split at hstep <;> omega

end Pass

/-- Only an empty receiver report is decoded and not kept. -/
theorem rr_of_dropped {enableTwcc : Bool} {buf : YangBuffer}
    (hk : (effect enableTwcc buf).kept = false) : subKind enableTwcc buf.hdr = .rr := by
  unfold effect SubKind.effect at hk
  split at hk
  · revert hk
    cases subKind enableTwcc buf.hdr <;> simp [SubKind.accepted]
  · revert hk
    cases subKind enableTwcc buf.hdr <;> simp [SubKind.refused]

theorem advance_none {enableTwcc : Bool} {buf : YangBuffer} (h : ¬ buf.HeaderOk)
    (hk : subKind enableTwcc buf.hdr ∉ [SubKind.nack, .twcc, .rpsi, .unread]) :
    (effect enableTwcc buf).advance = none := by
  unfold effect SubKind.effect
  rw [if_neg h]
  revert hk
  cases subKind enableTwcc buf.hdr <;> simp [SubKind.refused]

section Run

variable {enableTwcc : Bool} {data : Mem} {size : Nat}

/-- A session without remains starts to decode. -/
def cleanStart (data : Mem) (size : Nat) : DecodeState := ⟨{}, initBuffer data size, fun _ => 0⟩

theorem cleanStart_residue (data : Mem) (size : Nat) (k : Block) :
    residue (cleanStart data size).rtcps (cleanStart data size).heap k = 0 := by
  rw [residue_eq]
  rfl

/-- Beyond the first byte something has been kept, or a receiver report was lost. -/
theorem visits_nonempty {t : DecodeState}
    (hv : Visits (decodePass enableTwcc) (cleanStart data size) t) :
    t.buf.head = 0 ∨ t.rtcps.rtcpVector ≠ [] ∨ 1 ≤ residue t.rtcps t.heap .rb := by
  refine visits_invariant hv (P := fun t => t.buf.head = 0 ∨ t.rtcps.rtcpVector ≠ [] ∨
    1 ≤ residue t.rtcps t.heap .rb) (.inl rfl) ?_
  intro a b hva _ hab
  right
  obtain ⟨hlt, _, n, ha, _⟩ := pass_next hab
  cases hk : (effect enableTwcc a.buf).kept with
  | true =>
    left
    rw [pass_kept hlt ha hk] at hab
    cases hab
    simp [rtcpCompoundAddRtcp]
  | false =>
    right
    have hstep := pass_residue hab .rb
    rw [if_pos (.inr hk), rr_of_dropped hk] at hstep
    have hnonneg := visits_residue hva .rb
    rw [cleanStart_residue] at hnonneg
    simp only [SubKind.makes] at hstep
    omega

/-- A decoder that leaves nothing has met disposable packets only. -/
theorem disposable_of_clean {n : Nat} {r : Err × DecodeState}
    (h : run (decodePass enableTwcc) n (cleanStart data size) = some r)
    (hheap : ∀ k, leftBy r k = 0) (hvec : r.1 ≠ yangOk → r.2.rtcps.rtcpVector = [])
    {t : DecodeState} (hv : Visits (decodePass enableTwcc) (cleanStart data size) t)
    (hlt : t.buf.head < t.buf.size) : Disposable enableTwcc t.buf := by
  obtain ⟨m, hm⟩ := run_visited hv h
  have hnonneg : ∀ k, 0 ≤ residue t.rtcps t.heap k := fun k => by
    rw [← cleanStart_residue data size k]
    exact visits_residue hv k
  -- no block of a kind that this pass loses was made by it
  have hlost : ∀ k, (k = .sr ∨ (effect enableTwcc t.buf).kept = false ∨
      (effect enableTwcc t.buf).advance = none) → (subKind enableTwcc t.buf.hdr).makes k ≤ 0 := by
    intro k hk
    have := run_residue_head hlt hm k hk
    have := hheap k
    have := hnonneg k
    omega
  have hfirst : (effect enableTwcc t.buf).advance = none → t.buf.head = 0 := by
    intro ha
    have hdone := pass_error hlt ha
    obtain ⟨j, hj⟩ := run_of_last hv hdone
    obtain rfl := run_unique hj h
    rcases visits_nonempty hv with h0 | hne | hrb
    · exact h0
    · exact absurd (hvec error_ne_ok) hne
    · have := run_residue hm .rb
      have := hheap .rb
      omega
  unfold Disposable
  cases hkind : subKind enableTwcc t.buf.hdr with
  | sr =>
    have := hlost .sr (.inl rfl)
    rw [hkind] at this
    exact absurd this (by decide)
  | rr =>
    have hrb : ¬ ((effect enableTwcc t.buf).kept = false ∨
        (effect enableTwcc t.buf).advance = none) := by
      intro hk
      have := hlost .rb (.inr hk)
      rw [hkind] at this
      exact absurd this (by decide)
    by_cases hok : t.buf.HeaderOk
    · refine ⟨hok, Nat.pos_of_ne_zero fun hrc => hrb (.inl ?_)⟩
      simp [effect, hkind, SubKind.effect, hok, SubKind.accepted, hrc]
    · exact absurd (.inr (advance_none hok (by simp [hkind]))) hrb
  | nack | twcc | rpsi | unread => trivial
  | pli | psfb | xr | other =>
    by_cases hok : t.buf.HeaderOk
    · exact .inl hok
    · exact .inr (hfirst (advance_none hok (by simp [hkind])))

/-- Over disposable packets the loop heads hold what their elements own, and no more. -/
theorem visits_clean {n : Nat} {r : Err × DecodeState}
    (h : run (decodePass enableTwcc) n (cleanStart data size) = some r)
    (hd : ∀ t, Visits (decodePass enableTwcc) (cleanStart data size) t →
      t.buf.head < t.buf.size → Disposable enableTwcc t.buf)
    {t : DecodeState} (hv : Visits (decodePass enableTwcc) (cleanStart data size) t) :
    (∀ k, residue t.rtcps t.heap k = 0) ∧ (t.buf.head = 0 → t.rtcps.rtcpVector = []) := by
  refine visits_invariant hv (P := fun t => (∀ k, residue t.rtcps t.heap k = 0) ∧
    (t.buf.head = 0 → t.rtcps.rtcpVector = [])) ⟨cleanStart_residue data size, fun _ => rfl⟩ ?_
  rintro a b hva ⟨hres, _⟩ hab
  obtain ⟨hlt, _⟩ := pass_next hab
  have hda := hd a hva hlt
  have hsr : (subKind enableTwcc a.buf.hdr).makes .sr = 0 := by
    unfold Disposable at hda
    cases hk : subKind enableTwcc a.buf.hdr <;> simp only [hk] at hda <;> rfl
  have hkept : (effect enableTwcc a.buf).kept ≠ false := by
    intro hk
    have hrr := rr_of_dropped hk
    simp only [Disposable, hrr] at hda
    obtain ⟨hok, hrc⟩ := hda
    simp [effect, hrr, SubKind.effect, hok, SubKind.accepted] at hk
    omega
  constructor
  · intro k
    rw [pass_residue hab k, hres k]
    split
    · rename_i hk
      obtain rfl := hk.resolve_right hkept
      omega
    · rfl
  · intro h0
    have hns := terminates_iff.mp ⟨n, r, h⟩ a hva hlt
    have hp := (progresses_iff hlt).mpr hns
    simp only [Progresses, hab] at hp
    omega

theorem clean_of_disposable {n : Nat} {r : Err × DecodeState}
    (h : run (decodePass enableTwcc) n (cleanStart data size) = some r)
    (hd : ∀ t, Visits (decodePass enableTwcc) (cleanStart data size) t →
      t.buf.head < t.buf.size → Disposable enableTwcc t.buf) :
    (∀ k, leftBy r k = 0) ∧ (r.1 ≠ yangOk → r.2.rtcps.rtcpVector = []) := by
  obtain ⟨u, hv, hu⟩ := run_last h
  obtain ⟨hres, hvec⟩ := visits_clean h hd hv
  rcases pass_done hu with ⟨_, rfl⟩ | ⟨hlt, ha, he, hr, hheap⟩
  · refine ⟨fun k => ?_, fun hne => absurd rfl hne⟩
    rw [leftBy, if_pos rfl]
    exact hres k
  · -- a refused packet was the first one, so the vector is empty
    have hdu := hd u hv hlt
    have hno : ¬ u.buf.HeaderOk := by
      intro hok
      unfold effect SubKind.effect at ha
      rw [if_pos hok] at ha
      revert ha
      cases subKind enableTwcc u.buf.hdr <;> simp [SubKind.accepted]
    have hkind : u.buf.head = 0 ∧ ∀ k, (subKind enableTwcc u.buf.hdr).makes k = 0 := by
      unfold effect SubKind.effect at ha
      rw [if_neg hno] at ha
      unfold Disposable at hdu
      cases hk : subKind enableTwcc u.buf.hdr <;>
        simp_all [SubKind.refused, SubKind.makes]
    have hempty := hvec hkind.1
    refine ⟨fun k => ?_, fun _ => by rw [hr, hempty]⟩
    have hk := hres k
    rw [residue_eq, hempty] at hk
    rw [leftBy, if_neg he, hheap k, hkind.2 k]
    simpa using hk

end Run

/-- No packet but the last makes its handler return an error. -/
def DispatchedWhole (env : SessionEnv) (memory : Mem) : List RtcpCommon → Streams → Prop
  | [], _ => True
  | rtcp :: rest, s => ∀ err s', rtcconnDispatchRtcp env memory s rtcp = .ret (err, s') →
      (err ≠ yangOk → rest = []) ∧ (err = yangOk → DispatchedWhole env memory rest s')

theorem dispatchAll_whole {env : SessionEnv} {memory : Mem} {rtcps log : List RtcpCommon}
    {s s' : Streams} {err : Err}
    (h : dispatchAll env memory rtcps s = .ret (err, s', log)) :
    log = rtcps ↔ DispatchedWhole env memory rtcps s := by
  induction rtcps generalizing s log with
  | nil =>
    cases h
    exact iff_of_true rfl trivial
  | cons rtcp rest ih =>
    obtain ⟨⟨e, mid⟩, hd, hrest⟩ := Call.bind_eq_ret.mp h
    have hunique : DispatchedWhole env memory (rtcp :: rest) s ↔
        (e ≠ yangOk → rest = []) ∧ (e = yangOk → DispatchedWhole env memory rest mid) := by
      constructor
      · exact fun hw => hw e mid hd
      · intro hw err' s'' hd'
        cases hd.symm.trans hd'
        exact hw
    rw [hunique]
    simp only at hrest
    split at hrest
    · rename_i he
      cases hrest
      simp [he, eq_comm]
    · rename_i he
      obtain ⟨⟨e', last, log'⟩, hall, hret⟩ := Call.bind_eq_ret.mp hrest
      cases hret
      simp [not_not.mp he, ih hall]

/-- The packets decoded from a datagram: those the decoder adds to an empty vector. -/
def decodedFrom (env : SessionEnv) (s : RtcpSession) (d : RtcpDatagram) : List RtcpCommon :=
  if decRtcp s.streams.pub.srtp d.status = yangOk then
    match decodeRtcpCompound env.enableTwcc (cleanStart d.data d.nb) with
    | some (_, t) => t.rtcps.rtcpVector
    | none => []
  else []

/-- No packet is left in the vector, and no block on the heap. -/
def RtcpSession.Clean (s : RtcpSession) : Prop := s.rtcps.rtcpVector = [] ∧ ∀ k, s.heap k = 0

/-- A call dispatches what was decoded from its datagram, and leaves nothing. -/
def OnceEach (env : SessionEnv) (s : RtcpSession) (d : RtcpDatagram) : Prop :=
  ∀ s', RtcpStep env s d s' →
    s'.dispatched = s.dispatched ++ decodedFrom env s d ∧ s'.Clean

/-- If the datagram is let through, each start in it is that of a disposable packet, and the
handlers of all packets but the last succeed. -/
def Tidy (env : SessionEnv) (s : RtcpSession) (d : RtcpDatagram) : Prop :=
  decRtcp s.streams.pub.srtp d.status = yangOk →
    (∀ p, Starts env.enableTwcc d.data d.nb 0 p → p < d.nb →
      Disposable env.enableTwcc (bufferAt d.data d.nb p)) ∧
    DispatchedWhole env d.data (decodedFrom env s d) s.streams

section Step

variable {env : SessionEnv} {s : RtcpSession} {d : RtcpDatagram}

theorem decodeState_clean (hc : s.Clean) : s.decodeState d = cleanStart d.data d.nb := by
  obtain ⟨hvec, hheap⟩ := hc
  have hr : s.rtcps = {} := by
    cases hs : s.rtcps
    simp only [hs] at hvec
    rw [hvec]
  simp only [RtcpSession.decodeState, cleanStart, hr, funext hheap]

theorem starts_disposable_iff :
    (∀ t, Visits (decodePass env.enableTwcc) (cleanStart d.data d.nb) t →
      t.buf.head < t.buf.size → Disposable env.enableTwcc t.buf) ↔
    ∀ p, Starts env.enableTwcc d.data d.nb 0 p → p < d.nb →
      Disposable env.enableTwcc (bufferAt d.data d.nb p) :=
  forall_visits_iff (s := cleanStart d.data d.nb) (Disposable env.enableTwcc) fun _ => Iff.rfl

/-- The step lemma: on a clean session, a call that returns does right exactly on a tidy
datagram. -/
theorem onceEach_iff (hc : s.Clean) {s' : RtcpSession} (hs : RtcpStep env s d s') :
    s'.dispatched = s.dispatched ++ decodedFrom env s d ∧ s'.Clean ↔ Tidy env s d := by
  obtain ⟨err, hs⟩ := hs
  by_cases hok : decRtcp s.streams.pub.srtp d.status = yangOk
  · obtain ⟨e, t, hd, hcases⟩ := onRtcp_passed hok hs
    rw [decodeState_clean hc] at hd
    have hfrom : decodedFrom env s d = t.rtcps.rtcpVector := by
      rw [decodedFrom, if_pos hok, hd]
    have hclean : (∀ p, Starts env.enableTwcc d.data d.nb 0 p → p < d.nb →
        Disposable env.enableTwcc (bufferAt d.data d.nb p)) ↔
        (∀ k, leftBy (e, t) k = 0) ∧ (e ≠ yangOk → t.rtcps.rtcpVector = []) := by
      rw [← starts_disposable_iff]
      constructor
      · exact clean_of_disposable hd
      · rintro ⟨hheap, hvec⟩ u hv hlt
        exact disposable_of_clean hd hheap hvec hv hlt
    rw [Tidy, hclean, hfrom]
    rcases hcases with ⟨he, rfl⟩ | ⟨rfl, streams, log, hall, rfl⟩
    · have hheap : leftBy (e, t) = t.heap := if_neg he
      rw [hheap]
      constructor
      · rintro ⟨_, hvec, hk⟩ _
        have hempty : t.rtcps.rtcpVector = [] := hvec
        exact ⟨⟨hk, fun _ => hempty⟩, by rw [hempty]; trivial⟩
      · intro htidy
        obtain ⟨⟨hk, hvec⟩, _⟩ := htidy hok
        exact ⟨by rw [hvec he, List.append_nil]; rfl, hvec he, hk⟩
    · have hwhole := dispatchAll_whole hall
      constructor
      · rintro ⟨hlog, _, hk⟩ _
        exact ⟨⟨hk, fun hne => absurd rfl hne⟩, hwhole.mp (List.append_cancel_left hlog)⟩
      · intro htidy
        obtain ⟨⟨hk, _⟩, hw⟩ := htidy hok
        exact ⟨by rw [hwhole.mpr hw], rfl, hk⟩
  · obtain ⟨e, hr⟩ := onRtcp_refused env hok
    cases hr.symm.trans hs
    refine iff_of_true ⟨?_, hc⟩ fun h => absurd h hok
    rw [decodedFrom, if_neg hok, List.append_nil]

theorem onceEach_of_tidy (hc : s.Clean) (h : Tidy env s d) : OnceEach env s d :=
  fun _ hs => (onceEach_iff hc hs).mpr h

end Step

/-- In a run over datagrams, each call dispatches the packets of its own datagram, each
once, and leaves no packet and no block, wherever the datagrams are tidy; and where the
calls all return, nowhere else. -/
theorem dispatched_once (env : SessionEnv) (streams : Streams) (ds : List RtcpDatagram) :
    let start : RtcpSession := { streams }
    (Run.Throughout (RtcpStep env) (Tidy env) ds start →
      Run.Throughout (RtcpStep env) (OnceEach env) ds start) ∧
    (Run.Throughout (RtcpStep env)
        (fun s d => (∃ s', RtcpStep env s d s') ∧ OnceEach env s d) ds start →
      Run.Throughout (RtcpStep env) (Tidy env) ds start) := by
  intro start
  have hclean : start.Clean := ⟨rfl, fun _ => rfl⟩
  constructor
  · exact Run.throughout_imp RtcpSession.Clean (fun _ _ hc ht => onceEach_of_tidy hc ht)
      (fun _ _ _ hc ht hs => (onceEach_of_tidy hc ht _ hs).2) hclean
  · refine Run.throughout_imp RtcpSession.Clean ?_ (fun _ _ _ _ ho hs => (ho.2 _ hs).2) hclean
    rintro s d hc ⟨⟨s', hs⟩, ho⟩
    exact (onceEach_iff hc hs).mp (ho s' hs)

/-- A key frame request, and behind it four bytes of a packet that was cut off. -/
def cutOff : List UInt8 := [0x81, 206, 0, 2, 0, 0, 0, 1, 0, 0, 0, 7, 0x80, 203, 0, 1]

/-- A source leaves. -/
def byeOne : List UInt8 := [0x81, 203, 0, 1, 0, 0, 0, 9]

/-- The request waits in the vector and is answered with the next datagram. -/
theorem cutOff_dispatched_late :
    ¬ Run.Throughout (RtcpStep demoEnv) (OnceEach demoEnv)
      [⟨0, ofList cutOff, 16⟩, ⟨0, ofList byeOne, 8⟩] { streams := demoSession.streams } ∧
    (do let (_, s) ← rtcconnOnRtcp demoEnv demoSession ⟨0, ofList cutOff, 16⟩
        let (_, s') ← rtcconnOnRtcp demoEnv s ⟨0, ofList byeOne, 8⟩
        return (s.rtcps.rtcpVector.length, s'.dispatched.length, s'.streams.requests)) =
      .ret (1, 2, [7]) := by
  have hlate : (do
      let (_, s) ← rtcconnOnRtcp demoEnv demoSession ⟨0, ofList cutOff, 16⟩
      let (_, s') ← rtcconnOnRtcp demoEnv s ⟨0, ofList byeOne, 8⟩
      return (s.rtcps.rtcpVector.length, s'.dispatched.length, s'.streams.requests)) =
      .ret (1, 2, [7]) := by
    decide +kernel
  refine ⟨?_, hlate⟩
  rintro ⟨hfirst, _⟩
  obtain ⟨⟨err, s⟩, hs, hrest⟩ := Call.bind_eq_ret.mp hlate
  obtain ⟨_, hvec, _⟩ := hfirst s ⟨err, hs⟩
  obtain ⟨⟨err', s'⟩, _, hret⟩ := Call.bind_eq_ret.mp hrest
  simp [hvec] at hret

end MetaRtc
