import MetaRtc.Play.RecvNack
import MetaRtc.Sorted

/-! # What a sweep does to every entry

The loop goes by index over the array it removes entries from, so the one behind a removed entry is
passed over, and it stops at the first young one. -/
namespace MetaRtc

/-- The loop of a sweep with the count of the numbers given up, an `uint32_t`. -/
def getNackSeqsCounted (now : Int) :
    Nat → Nat → RtpRecvNack → RtcpNack → Nat → RtpRecvNack × RtcpNack × Nat
  | 0, _, recvnack, nack, timeoutNacks => (recvnack, nack, timeoutNacks)
  | fuel + 1, i, recvnack, nack, timeoutNacks =>
    if i < recvnack.queue.vsize then
      let info := recvnack.queue.nackinfos i
      if Expired recvnack.opts now info then
        let timeoutNacks := (timeoutNacks + 1) % 2 ^ 32
        let recvnack := { recvnack with rtp := nackbufferNotifyDropSeq recvnack.rtp info.sn }
        getNackSeqsCounted now fuel (i + 1) (recvnackRemove recvnack info.sn) nack timeoutNacks
      else if now - info.generateTime < recvnack.opts.firstNackInterval then
        (recvnack, nack, timeoutNacks)
      else if now - info.preReqNackTime ≥ nackInterval recvnack.opts then
        getNackSeqsCounted now fuel (i + 1)
          { recvnack with queue := recvnack.queue.asked now i }
          (rtcpNackAddSn nack info.sn) timeoutNacks
      else getNackSeqsCounted now fuel (i + 1) recvnack nack timeoutNacks
    else (recvnack, nack, timeoutNacks)

def recvnackGetNackSeqsCounted (now : Int) (recvnack : RtpRecvNack) (nack : RtcpNack)
    (timeoutNacks : Nat) : RtpRecvNack × RtcpNack × Nat :=
  if now - recvnack.preCheckTime < recvnack.opts.nackCheckInterval then
    (recvnack, nack, timeoutNacks)
  else
    let recvnack := { recvnack with preCheckTime := now }
    getNackSeqsCounted now recvnack.queue.vsize 0 recvnack nack timeoutNacks

theorem getNackSeqsCounted_eq (now : Int) (fuel i : Nat) (r : RtpRecvNack) (nack : RtcpNack)
    (t : Nat) :
    ((getNackSeqsCounted now fuel i r nack t).1, (getNackSeqsCounted now fuel i r nack t).2.1) =
      getNackSeqsLoop now fuel i r nack := by
  induction fuel generalizing i r nack t with
  | zero => rfl
  | succ fuel ih =>
    unfold getNackSeqsCounted getNackSeqsLoop
    dsimp only
    split
    · split
      · exact ih _ _ _ _
      · split
        · rfl
        · split
          · exact ih _ _ _ _
          · exact ih _ _ _ _
    · rfl

/-- The sweep without its count is the one that the track makes. -/
theorem recvnackGetNackSeqsCounted_eq (now : Int) (r : RtpRecvNack) (nack : RtcpNack) (t : Nat) :
    ((recvnackGetNackSeqsCounted now r nack t).1, (recvnackGetNackSeqsCounted now r nack t).2.1) =
      recvnackGetNackSeqs now r nack := by
  unfold recvnackGetNackSeqsCounted recvnackGetNackSeqs
  split
  · rfl
  · exact getNackSeqsCounted_eq now _ 0 _ nack t

section Lists

variable {opts : NackOption} {now : Int}

/-- An entry is asked for once its first interval and the one since it was asked for last are over. -/
def Due (opts : NackOption) (now : Int) (info : RtpNackInfo) : Prop :=
  ¬ now - info.generateTime < opts.firstNackInterval ∧
    now - info.preReqNackTime ≥ nackInterval opts

instance (opts : NackOption) (now : Int) (info : RtpNackInfo) :
    Decidable (Due opts now info) := by
  unfold Due
  exact inferInstance

def RtpNackInfo.askedAt (info : RtpNackInfo) (now : Int) : RtpNackInfo :=
  { info with reqNackCount := info.reqNackCount + 1, preReqNackTime := now }

/-- What a sweep should leave: the entries not past a limit, those due noted as asked for. -/
def keptEntries (opts : NackOption) (now : Int) (infos : List RtpNackInfo) : List RtpNackInfo :=
  (infos.filter fun info => ¬ Expired opts now info).map fun info =>
    if Due opts now info then info.askedAt now else info

/-- The entries past a limit. -/
def expiredEntries (opts : NackOption) (now : Int) (infos : List RtpNackInfo) : List RtpNackInfo :=
  infos.filter fun info => Expired opts now info

/-- What a sweep leaves, the numbers it gives up and those it asks for. -/
structure SweepOut where
  left : List RtpNackInfo
  givenUp : List Nat := []
  askedFor : List Nat := []

/-- Where the loop stands once the number of an expired entry is taken out. -/
def closedOver (passed : List RtpNackInfo) (info : RtpNackInfo) : List RtpNackInfo :=
  if info.sn ∈ passed.map (·.sn) then passed.eraseP (·.sn = info.sn) ++ [info] else passed

/-- The sweep of the entries behind those passed. The first entry with the number of an expired one
is taken out, whichever that is, and the index moves on. -/
def sweepEntries (opts : NackOption) (now : Int) :
    List RtpNackInfo → List RtpNackInfo → SweepOut
  | passed, [] => ⟨passed, [], []⟩
  | passed, info :: rest =>
    if Expired opts now info then
      let passed := closedOver passed info
      let out : SweepOut := match rest with
        | [] => ⟨passed, [], []⟩
        | next :: rest => sweepEntries opts now (passed ++ [next]) rest
      { out with givenUp := info.sn :: out.givenUp }
    else if now - info.generateTime < opts.firstNackInterval then ⟨passed ++ info :: rest, [], []⟩
    else if now - info.preReqNackTime ≥ nackInterval opts then
      let out := sweepEntries opts now (passed ++ [info.askedAt now]) rest
      { out with askedFor := info.sn :: out.askedFor }
    else sweepEntries opts now (passed ++ [info]) rest

/-- The sweep meets no entry that it treats wrongly: behind an expired one, whose number no entry before
has, comes one that is neither expired nor due, and so do all behind a young one. -/
def MeetsAll (opts : NackOption) (now : Int) : List Nat → List RtpNackInfo → Prop
  | _, [] => True
  | kept, info :: rest =>
    if Expired opts now info then
      info.sn ∉ kept ∧ match rest with
        | [] => True
        | next :: rest =>
          ¬ Expired opts now next ∧ ¬ Due opts now next ∧ MeetsAll opts now (kept ++ [next.sn]) rest
    else if now - info.generateTime < opts.firstNackInterval then
      ∀ other ∈ rest, ¬ Expired opts now other ∧ ¬ Due opts now other
    else MeetsAll opts now (kept ++ [info.sn]) rest

section Steps

attribute [local simp] sweepEntries MeetsAll

variable {passed rest : List RtpNackInfo} {info next : RtpNackInfo}

theorem sweepEntries_last (h : Expired opts now info) :
    sweepEntries opts now passed [info] = ⟨closedOver passed info, [info.sn], []⟩ := by
  simp [sweepEntries, h]

theorem sweepEntries_expired (h : Expired opts now info) :
    sweepEntries opts now passed (info :: next :: rest) =
      { sweepEntries opts now (closedOver passed info ++ [next]) rest with
        givenUp := info.sn ::
          (sweepEntries opts now (closedOver passed info ++ [next]) rest).givenUp } := by
  simp [sweepEntries, h]

theorem sweepEntries_young (h : ¬ Expired opts now info)
    (hyoung : now - info.generateTime < opts.firstNackInterval) :
    sweepEntries opts now passed (info :: rest) = ⟨passed ++ info :: rest, [], []⟩ := by
  simp [sweepEntries, h, hyoung]

theorem sweepEntries_due (h : ¬ Expired opts now info) (hdue : Due opts now info) :
    sweepEntries opts now passed (info :: rest) =
      { sweepEntries opts now (passed ++ [info.askedAt now]) rest with
        askedFor := info.sn ::
          (sweepEntries opts now (passed ++ [info.askedAt now]) rest).askedFor } := by
  simp [sweepEntries, h, hdue.1, hdue.2]

theorem sweepEntries_quiet (h : ¬ Expired opts now info)
    (hold : ¬ now - info.generateTime < opts.firstNackInterval) (hdue : ¬ Due opts now info) :
    sweepEntries opts now passed (info :: rest) =
      sweepEntries opts now (passed ++ [info]) rest := by
  have hasked : ¬ now - info.preReqNackTime ≥ nackInterval opts := fun hlate => hdue ⟨hold, hlate⟩
  simp [sweepEntries, h, hold, hasked]

theorem meetsAll_last {kept : List Nat} (h : Expired opts now info) :
    MeetsAll opts now kept [info] ↔ info.sn ∉ kept := by
  simp [MeetsAll, h]

theorem meetsAll_expired {kept : List Nat} (h : Expired opts now info) :
    MeetsAll opts now kept (info :: next :: rest) ↔
      info.sn ∉ kept ∧ ¬ Expired opts now next ∧ ¬ Due opts now next ∧
        MeetsAll opts now (kept ++ [next.sn]) rest := by
  simp [MeetsAll, h]

theorem meetsAll_young {kept : List Nat} (h : ¬ Expired opts now info)
    (hyoung : now - info.generateTime < opts.firstNackInterval) :
    MeetsAll opts now kept (info :: rest) ↔
      ∀ other ∈ rest, ¬ Expired opts now other ∧ ¬ Due opts now other := by
  cases rest <;> simp [MeetsAll, h, hyoung]

theorem meetsAll_old {kept : List Nat} (h : ¬ Expired opts now info)
    (hold : ¬ now - info.generateTime < opts.firstNackInterval) :
    MeetsAll opts now kept (info :: rest) ↔ MeetsAll opts now (kept ++ [info.sn]) rest := by
  cases rest <;> simp [MeetsAll, h, hold]

theorem closedOver_length (passed : List RtpNackInfo) (info : RtpNackInfo) :
    (closedOver passed info).length = passed.length := by
  unfold closedOver
  split
  · rename_i hmem
    obtain ⟨first, hfirst, hsn⟩ := List.mem_map.mp hmem
    have hpos := List.length_pos_of_mem hfirst
    rw [List.length_append, List.length_eraseP_of_mem hfirst (by simpa using hsn)]
    simp only [List.length_cons, List.length_nil]
    omega
  · rfl

theorem eraseP_closedOver (passed rest : List RtpNackInfo) (info : RtpNackInfo) :
    (passed ++ info :: rest).eraseP (·.sn = info.sn) = closedOver passed info ++ rest := by
  unfold closedOver
  split
  · rename_i hmem
    obtain ⟨first, hfirst, hsn⟩ := List.mem_map.mp hmem
    rw [List.eraseP_append_left (by simpa using hsn) _ hfirst, List.append_assoc]
    rfl
  · rename_i hnew
    rw [List.eraseP_append_right _ fun other hother => ?_]
    · rw [List.eraseP_cons_of_pos (by simp)]
    · simpa using fun hsn => hnew (List.mem_map.mpr ⟨other, hother, hsn⟩)

/-- The entries that are asked for. -/
def dueEntries (opts : NackOption) (now : Int) (infos : List RtpNackInfo) : List RtpNackInfo :=
  infos.filter fun info => ¬ Expired opts now info ∧ Due opts now info

theorem keptEntries_quiet (h : ¬ Expired opts now info) (hdue : ¬ Due opts now info) :
    keptEntries opts now (info :: rest) = info :: keptEntries opts now rest := by
  simp [keptEntries, h, hdue]

theorem keptEntries_all (h : ∀ other ∈ rest, ¬ Expired opts now other ∧ ¬ Due opts now other) :
    keptEntries opts now rest = rest := by
  induction rest with
  | nil => rfl
  | cons info rest ih =>
    obtain ⟨hlive, hquiet⟩ := h info List.mem_cons_self
    rw [keptEntries_quiet hlive hquiet, ih fun other hother => h other (List.mem_cons_of_mem _ hother)]

/-- The result that a sweep of the entries should have. -/
def sweptRight (opts : NackOption) (now : Int) (passed rest : List RtpNackInfo) : SweepOut where
  left := passed ++ keptEntries opts now rest
  givenUp := (expiredEntries opts now rest).map (·.sn)
  askedFor := (dueEntries opts now rest).map (·.sn)

/-- Of an expired entry's rest the loop goes on behind the next one. -/
theorem entries_induct {P : List RtpNackInfo → Prop} (nil : P [])
    (cons : ∀ info rest, P rest → (∀ next rest', rest = next :: rest' → P rest') → P (info :: rest)) :
    ∀ rest, P rest := by
  have hboth : ∀ rest, P rest ∧ ∀ next rest', rest = next :: rest' → P rest' := by
    intro rest
    induction rest with
    | nil => exact ⟨nil, fun _ _ h => (nomatch h)⟩
    | cons info rest ih =>
      refine ⟨cons info rest ih.1 ih.2, ?_⟩
      rintro next rest' ⟨⟩
      exact ih.1
  exact fun rest => (hboth rest).1

theorem closedOver_new (h : info.sn ∉ passed.map (·.sn)) : closedOver passed info = passed :=
  if_neg h

/-- Where the sweep meets no entry it treats wrongly, its result is right. -/
theorem sweepEntries_right (h : MeetsAll opts now (passed.map (·.sn)) rest) :
    sweepEntries opts now passed rest = sweptRight opts now passed rest := by
  induction rest using entries_induct generalizing passed with
  | nil => simp [sweepEntries, sweptRight, keptEntries, expiredEntries, dueEntries]
  | cons info rest ih ihNext =>
    by_cases hexpired : Expired opts now info
    · cases rest with
      | nil =>
        rw [sweepEntries_last hexpired, closedOver_new ((meetsAll_last hexpired).mp h)]
        simp [sweptRight, keptEntries, expiredEntries, dueEntries, hexpired]
      | cons next rest =>
        obtain ⟨hnew, hlive, hquiet, hrest⟩ := (meetsAll_expired hexpired).mp h
        have hright := ihNext next rest rfl (by simpa using hrest : MeetsAll opts now
          ((passed ++ [next]).map (·.sn)) rest)
        rw [sweepEntries_expired hexpired, closedOver_new hnew, hright]
        simp [sweptRight, keptEntries, expiredEntries, dueEntries, hexpired, hlive, hquiet]
    · by_cases hyoung : now - info.generateTime < opts.firstNackInterval
      · rw [meetsAll_young hexpired hyoung] at h
        have hquiet : ¬ Due opts now info := fun hdue => hdue.1 hyoung
        have hkept := keptEntries_all h
        have hnone : expiredEntries opts now rest = [] :=
          List.filter_eq_nil_iff.mpr fun other hother => by simpa using (h other hother).1
        have hunasked : dueEntries opts now rest = [] :=
          List.filter_eq_nil_iff.mpr fun other hother => by simpa using fun _ => (h other hother).2
        rw [sweepEntries_young hexpired hyoung, sweptRight, keptEntries_quiet hexpired hquiet, hkept]
        unfold expiredEntries dueEntries at *
        rw [List.filter_cons_of_neg (by simpa using hexpired), hnone,
          List.filter_cons_of_neg (by simpa using fun _ => hquiet), hunasked]
        rfl
      · rw [meetsAll_old hexpired hyoung] at h
        by_cases hdue : Due opts now info
        · have hright := ih (by simpa [RtpNackInfo.askedAt] using h : MeetsAll opts now
            ((passed ++ [info.askedAt now]).map (·.sn)) rest)
          rw [sweepEntries_due hexpired hdue, hright]
          simp [sweptRight, keptEntries, expiredEntries, dueEntries, hexpired, hdue]
        · have hright := ih (by simpa using h : MeetsAll opts now
            ((passed ++ [info]).map (·.sn)) rest)
          rw [sweepEntries_quiet hexpired hyoung hdue, hright]
          simp [sweptRight, keptEntries, expiredEntries, dueEntries, hexpired, hdue]

/-- An entry that a sweep should have changed or taken out. -/
def Neglected (opts : NackOption) (now : Int) (info : RtpNackInfo) : Prop :=
  info.preReqNackTime < now ∧ (Expired opts now info ∨ Due opts now info)

theorem keptEntries_neglected (h : info ∈ keptEntries opts now rest) :
    ¬ Neglected opts now info := by
  obtain ⟨old, hold, rfl⟩ := List.mem_map.mp h
  obtain ⟨-, hlive⟩ := List.mem_filter.mp hold
  by_cases hdue : Due opts now old
  · rw [if_pos hdue]
    exact fun h => Int.lt_irrefl _ h.1
  · rw [if_neg hdue]
    exact fun h => h.2.elim (by simpa using hlive) hdue

theorem closedOver_neglected (h : ∃ old ∈ passed, Neglected opts now old)
    (hexpired : Expired opts now info) (hbefore : info.preReqNackTime < now) :
    ∃ old ∈ closedOver passed info, Neglected opts now old := by
  unfold closedOver
  split
  · exact ⟨info, by simp, hbefore, .inl hexpired⟩
  · exact h

/-- An entry that was passed over stays neglected. -/
theorem sweepEntries_neglected (hbefore : ∀ other ∈ rest, other.preReqNackTime < now)
    (h : ∃ old ∈ passed, Neglected opts now old) :
    ∃ old ∈ (sweepEntries opts now passed rest).left, Neglected opts now old := by
  induction rest using entries_induct generalizing passed with
  | nil => exact h
  | cons info rest ih ihNext =>
    obtain ⟨hinfo, hrest⟩ := List.forall_mem_cons.mp hbefore
    have hmore : ∀ more, ∃ old ∈ passed ++ more, Neglected opts now old := fun more =>
      h.imp fun old hold => ⟨List.mem_append_left _ hold.1, hold.2⟩
    by_cases hexpired : Expired opts now info
    · obtain ⟨old, hold, hneglected⟩ := closedOver_neglected h hexpired hinfo
      cases rest with
      | nil =>
        rw [sweepEntries_last hexpired]
        exact ⟨old, hold, hneglected⟩
      | cons next rest =>
        rw [sweepEntries_expired hexpired]
        exact ihNext next rest rfl (List.forall_mem_cons.mp hrest).2
          ⟨old, List.mem_append_left _ hold, hneglected⟩
    · by_cases hyoung : now - info.generateTime < opts.firstNackInterval
      · rw [sweepEntries_young hexpired hyoung]
        exact hmore _
      · by_cases hdue : Due opts now info
        · rw [sweepEntries_due hexpired hdue]
          exact ih hrest (hmore _)
        · rw [sweepEntries_quiet hexpired hyoung hdue]
          exact ih hrest (hmore _)

/-- A sweep that leaves no entry neglected met none that it treats wrongly. -/
theorem sweepEntries_meets (hbefore : ∀ other ∈ rest, other.preReqNackTime < now)
    (h : ∀ old ∈ (sweepEntries opts now passed rest).left, ¬ Neglected opts now old) :
    MeetsAll opts now (passed.map (·.sn)) rest := by
  induction rest using entries_induct generalizing passed with
  | nil => trivial
  | cons info rest ih ihNext =>
    obtain ⟨hinfo, hrest⟩ := List.forall_mem_cons.mp hbefore
    by_cases hexpired : Expired opts now info
    · have hclean : ∀ old ∈ closedOver passed info, ¬ Neglected opts now old := by
        intro old hold hneglected
        cases rest with
        | nil =>
          rw [sweepEntries_last hexpired] at h
          exact h old hold hneglected
        | cons next rest =>
          rw [sweepEntries_expired hexpired] at h
          obtain ⟨bad, hbad, hbad'⟩ := sweepEntries_neglected (List.forall_mem_cons.mp hrest).2
            ⟨old, List.mem_append_left [next] hold, hneglected⟩
          exact h bad hbad hbad'
      have hnew : info.sn ∉ passed.map (·.sn) := by
        intro hmem
        have hin : info ∈ closedOver passed info := by simp [closedOver, hmem]
        exact hclean info hin ⟨hinfo, .inl hexpired⟩
      cases rest with
      | nil => exact (meetsAll_last hexpired).mpr hnew
      | cons next rest =>
        rw [sweepEntries_expired hexpired, closedOver_new hnew] at h
        obtain ⟨hnext, hlater⟩ := List.forall_mem_cons.mp hrest
        have hquiet : ¬ Neglected opts now next := by
          intro hneglected
          obtain ⟨bad, hbad, hbad'⟩ := sweepEntries_neglected hlater
            ⟨next, List.mem_append_right passed (List.mem_singleton_self next), hneglected⟩
          exact h bad hbad hbad'
        have hmeets := ihNext next rest rfl hlater h
        exact (meetsAll_expired hexpired).mpr ⟨hnew, fun he => hquiet ⟨hnext, .inl he⟩,
          fun hd => hquiet ⟨hnext, .inr hd⟩, by simpa using hmeets⟩
    · by_cases hyoung : now - info.generateTime < opts.firstNackInterval
      · rw [meetsAll_young hexpired hyoung]
        rw [sweepEntries_young hexpired hyoung] at h
        intro other hother
        have hquiet := h other (List.mem_append_right _ (List.mem_cons_of_mem _ hother))
        exact ⟨fun he => hquiet ⟨hrest other hother, .inl he⟩,
          fun hd => hquiet ⟨hrest other hother, .inr hd⟩⟩
      · rw [meetsAll_old hexpired hyoung]
        by_cases hdue : Due opts now info
        · rw [sweepEntries_due hexpired hdue] at h
          simpa [RtpNackInfo.askedAt] using ih hrest h
        · rw [sweepEntries_quiet hexpired hyoung hdue] at h
          simpa using ih hrest h

end Steps

end Lists

section Loop

variable {now : Int} {r : RtpRecvNack} {nack : RtcpNack} {t : Nat}

/-- The result of the loop is that of the sweep of the entries. -/
structure SweptAs (r : RtpRecvNack) (nack : RtcpNack) (t : Nat) (s : SweepOut)
    (out : RtpRecvNack × RtcpNack × Nat) : Prop where
  entries : out.1.queue.entries = s.left
  rtp : out.1.rtp = s.givenUp.foldl nackbufferNotifyDropSeq r.rtp
  asked : out.2.1 = s.askedFor.foldl rtcpNackAddSn nack
  count : out.2.2 = (t + s.givenUp.length) % 2 ^ 32

theorem entries_length (vec : RtpNackInfoList) : vec.entries.length = vec.vsize :=
  Slots.entries_length _ _

theorem entries_asked (vec : RtpNackInfoList) (now : Int) (i : Nat) :
    (vec.asked now i).entries = vec.entries.set i ((vec.nackinfos i).askedAt now) :=
  Slots.entries_update _ _ _ _

theorem getNackSeqsCounted_over (now : Int) (fuel : Nat) {i : Nat} (h : r.queue.vsize ≤ i) :
    getNackSeqsCounted now fuel i r nack t = (r, nack, t) := by
  cases fuel with
  | zero => rfl
  | succ fuel =>
    unfold getNackSeqsCounted
    rw [if_neg (Nat.not_lt.mpr h)]

theorem getNackSeqsCounted_sweeps (fuel : Nat) {i : Nat} {passed rest : List RtpNackInfo}
    (hentries : r.queue.entries = passed ++ rest) (hi : passed.length = i)
    (hfuel : rest.length ≤ fuel) (ht : t < 2 ^ 32) :
    SweptAs r nack t (sweepEntries r.opts now passed rest)
      (getNackSeqsCounted now fuel i r nack t) := by
  induction fuel generalizing i passed rest r nack t with
  | zero =>
    obtain rfl := List.length_eq_zero_iff.mp (Nat.le_zero.mp hfuel)
    exact ⟨by simpa [getNackSeqsCounted, sweepEntries] using hentries, rfl, rfl,
      (Nat.mod_eq_of_lt ht).symm⟩
  | succ fuel ih =>
    have hsize := entries_length r.queue
    rw [hentries, List.length_append] at hsize
    cases rest with
    | nil =>
      rw [List.length_nil] at hsize
      rw [getNackSeqsCounted_over now _ (by omega)]
      exact ⟨by simpa [sweepEntries] using hentries, rfl, rfl, (Nat.mod_eq_of_lt ht).symm⟩
    | cons info rest =>
      subst hi
      rw [List.length_cons] at hsize hfuel
      have hin : passed.length < r.queue.vsize := by omega
      have hinfo : r.queue.nackinfos passed.length = info := by
        have hget : r.queue.entries[passed.length]? = some (r.queue.nackinfos passed.length) := by
          rw [List.getElem?_eq_getElem (by rw [entries_length]; exact hin)]
          exact congrArg some (Slots.entries_getElem _ _ _ _)
        rw [hentries, List.getElem?_append_right (Nat.le_refl _), Nat.sub_self] at hget
        exact (Option.some.inj hget).symm
      unfold getNackSeqsCounted
      rw [if_pos hin]
      dsimp only
      rw [hinfo]
      by_cases hexpired : Expired r.opts now info
      · rw [if_pos hexpired]
        have hclosed : (recvnackRemove { r with rtp := nackbufferNotifyDropSeq r.rtp info.sn }
            info.sn).queue.entries = closedOver passed info ++ rest := by
          rw [← eraseP_closedOver, ← hentries]
          exact entries_remove r.queue info.sn
        have hlen := closedOver_length passed info
        have ht' : (t + 1) % 2 ^ 32 < 2 ^ 32 := Nat.mod_lt _ (by decide)
        cases rest with
        | nil =>
          have hleft := entries_length
            (recvnackRemove { r with rtp := nackbufferNotifyDropSeq r.rtp info.sn } info.sn).queue
          rw [hclosed, List.append_nil, hlen] at hleft
          rw [getNackSeqsCounted_over now _ (by omega), sweepEntries_last hexpired]
          exact ⟨by rw [hclosed, List.append_nil], rfl, rfl, rfl⟩
        | cons next rest =>
          rw [List.length_cons] at hfuel
          obtain ⟨hleft, hrtp, hasked, hcount⟩ := ih
            (hclosed.trans (by rw [List.append_assoc]; rfl :
              _ = (closedOver passed info ++ [next]) ++ rest))
            (by rw [List.length_append, hlen]) (by omega) ht'
          rw [sweepEntries_expired hexpired]
          refine ⟨hleft, hrtp, hasked, hcount.trans ?_⟩
          simp only [List.length_cons]
          show (_ + (sweepEntries r.opts now _ rest).givenUp.length) % _ = _
          omega
      · rw [if_neg hexpired]
        by_cases hyoung : now - info.generateTime < r.opts.firstNackInterval
        · rw [if_pos hyoung, sweepEntries_young hexpired hyoung]
          exact ⟨hentries, rfl, rfl, (Nat.mod_eq_of_lt ht).symm⟩
        · rw [if_neg hyoung]
          by_cases hlate : now - info.preReqNackTime ≥ nackInterval r.opts
          · rw [if_pos hlate, sweepEntries_due hexpired ⟨hyoung, hlate⟩]
            have hasked : (r.queue.asked now passed.length).entries =
                (passed ++ [info.askedAt now]) ++ rest := by
              rw [entries_asked, hentries, hinfo, List.set_append_right _ _ (Nat.le_refl _),
                Nat.sub_self, List.set_cons_zero, List.append_assoc]
              rfl
            obtain ⟨hleft, hrtp, hnack, hcount⟩ := @ih
              { r with queue := r.queue.asked now passed.length } (rtcpNackAddSn nack info.sn) t _ _ _
              hasked (by rw [List.length_append]) (by omega) ht
            exact ⟨hleft, hrtp, hnack, hcount⟩
          · rw [if_neg hlate, sweepEntries_quiet hexpired hyoung fun hdue => hlate hdue.2]
            exact ih (by rw [hentries, List.append_assoc]; rfl)
              (by rw [List.length_append]; rfl) (by omega) ht

end Loop

section Times

variable {now time : Int} {vec : RtpNackInfoList} {r : RtpRecvNack} {nack : RtcpNack}

/-- No entry was asked for after this time. -/
def AskedBy (vec : RtpNackInfoList) (time : Int) : Prop :=
  ∀ i, (vec.nackinfos i).preReqNackTime ≤ time

theorem askedBy_asked (h : AskedBy vec now) (i : Nat) : AskedBy (vec.asked now i) now := by
  intro j
  show (Function.update vec.nackinfos i _ j).preReqNackTime ≤ now
  by_cases hj : j = i
  · subst hj
    simp
  · rw [Function.update_of_ne hj]
    exact h j

theorem askedBy_remove (h : AskedBy vec time) (value : Nat) :
    AskedBy (nackinfoRemove vec value) time := by
  intro j
  unfold nackinfoRemove
  dsimp only
  split
  · dsimp only
    split
    · exact h (j + 1)
    · exact h j
  · exact h j

theorem askedBy_grow (h : AskedBy vec time) (htime : 0 ≤ time) :
    AskedBy (growNackinfos vec) time := by
  intro j
  unfold growNackinfos
  split
  · dsimp only
    split
    · exact h j
    · exact htime
  · exact h j

theorem askedBy_insert (h : AskedBy vec time) (htime : 0 ≤ time) (clock : Int) (value : Nat) :
    AskedBy (nackinfoInsert clock vec value) time := by
  have hgrown := askedBy_grow h htime
  have hput : ∀ (nackinfos : Nat → RtpNackInfo) (k : Nat),
      (∀ j, (nackinfos j).preReqNackTime ≤ time) → ∀ j,
        (Function.update nackinfos k (createNackinfo clock value) j).preReqNackTime ≤ time := by
    intro nackinfos k hall j
    by_cases hj : j = k
    · subst hj
      rw [Function.update_self]
      exact htime
    · rw [Function.update_of_ne hj]
      exact hall j
  unfold nackinfoInsert
  dsimp only
  split
  · exact hput _ _ hgrown
  · split
    · exact hgrown
    · refine hput _ _ fun j => ?_
      split
      · exact hgrown (j - 1)
      · exact hgrown j

theorem askedBy_insert_all (htime : 0 ≤ time) (clock : Nat → Int) {values : List Nat}
    (h : AskedBy vec time) :
    AskedBy (values.foldl (fun vec s => nackinfoInsert (clock s) vec s) vec) time := by
  induction values generalizing vec with
  | nil => exact h
  | cons value values ih => exact ih (askedBy_insert h htime (clock value) value)

/-- What holds of the times in a track's list whatever the clock shows. -/
structure Timed (r : RtpRecvNack) : Prop where
  started : 0 ≤ r.preCheckTime
  interval : 0 < r.opts.nackCheckInterval
  asked : AskedBy r.queue r.preCheckTime

theorem timed_start (capacity queueSize : Nat) : Timed (createRecvnack capacity queueSize) :=
  ⟨Int.le_refl 0, (by decide : (0 : Int) < 15 * 1000), fun _ => Int.le_refl 0⟩

theorem getNackSeqsLoop_timed (fuel i : Nat) (h : Timed r) (hnow : now = r.preCheckTime) :
    Timed (getNackSeqsLoop now fuel i r nack).1 := by
  induction fuel generalizing i r nack with
  | zero => exact h
  | succ fuel ih =>
    obtain ⟨hstart, hinterval, hasked⟩ := h
    unfold getNackSeqsLoop
    dsimp only
    split
    · split
      · exact ih _ ⟨hstart, hinterval, askedBy_remove hasked _⟩ hnow
      · split
        · exact ⟨hstart, hinterval, hasked⟩
        · split
          · exact ih _ ⟨hstart, hinterval, hnow ▸ askedBy_asked (hnow ▸ hasked) i⟩ hnow
          · exact ih _ ⟨hstart, hinterval, hasked⟩ hnow
    · exact ⟨hstart, hinterval, hasked⟩

theorem recvnackGetNackSeqs_timed (h : Timed r) (now : Int) (nack : RtcpNack) :
    Timed (recvnackGetNackSeqs now r nack).1 := by
  unfold recvnackGetNackSeqs
  split
  · exact h
  · rename_i hover
    obtain ⟨hstart, hinterval, hasked⟩ := h
    have hlater : r.preCheckTime ≤ now := by omega
    exact getNackSeqsLoop_timed _ 0
      ⟨hstart.trans hlater, hinterval, fun i => (hasked i).trans hlater⟩ rfl

theorem Timed.set_queue (h : Timed r) {vec : RtpNackInfoList} (hvec : AskedBy vec r.preCheckTime)
    (rtp : ReceiveNackBuffer) : Timed { r with rtp, queue := vec } :=
  ⟨h.started, h.interval, hvec⟩

theorem checkQueueSize_timed (h : Timed r) : Timed (recvnackCheckQueueSize r) := by
  unfold recvnackCheckQueueSize
  split
  · exact ⟨h.started, h.interval, h.asked⟩
  · exact h

theorem onNackEnter_timed (h : Timed r) (clock : Nat → Int) (seq : Nat) :
    Timed (onNackEnter clock r seq) := by
  have hset : ∀ {r : RtpRecvNack}, Timed r → Timed { r with rtp := nackbufferSet r.rtp seq seq } :=
    fun hr => hr.set_queue hr.asked _
  unfold onNackEnter
  dsimp only
  apply hset
  obtain ⟨first, last, rtp⟩ := nackbufferUpdate2 r.rtp seq
  dsimp only
  split
  · apply checkQueueSize_timed
    exact h.set_queue (askedBy_insert_all h.started clock h.asked) _
  · exact h.set_queue h.asked _

theorem checkSendNacks_timed (h : Timed r) (now : Int) (ssrc : Nat) :
    Timed (checkSendNacks now ssrc r).1 := by
  have hswept := recvnackGetNackSeqs_timed h now { capacity := 50 }
  unfold checkSendNacks
  dsimp only
  split
  · exact hswept
  · exact hswept

theorem playtrackOnNack_timed (h : Timed r) (clock : Nat → Int) (now : Int) (ssrc seq : Nat) :
    Timed (playtrackOnNack clock now ssrc r seq).1 := by
  have henter := onNackEnter_timed h clock seq
  unfold playtrackOnNack
  dsimp only
  split
  · exact h.set_queue (askedBy_remove h.asked seq) _
  · split
    · exact henter
    · exact checkSendNacks_timed henter now ssrc

end Times

section Claim

variable {now : Int} {r : RtpRecvNack} {nack : RtcpNack} {t : Nat}

/-- A sweep gives up the entries past a limit and no others, asks for the ones that are due, and
does not move the window back. -/
structure SweepsRight (now : Int) (r : RtpRecvNack) (nack : RtcpNack) (t : Nat) : Prop where
  left : (recvnackGetNackSeqsCounted now r nack t).1.queue.entries =
    keptEntries r.opts now r.queue.entries
  timedOut : (recvnackGetNackSeqsCounted now r nack t).2.2 =
    (t + (expiredEntries r.opts now r.queue.entries).length) % 2 ^ 32
  asked : ∀ sn, sn ∈ (recvnackGetNackSeqsCounted now r nack t).2.1.nacks ↔
    sn ∈ nack.nacks ∨ ∃ info ∈ dueEntries r.opts now r.queue.entries, info.sn = sn
  forward : 0 ≤ rtpSeqDistance r.rtp.beginSn
    (recvnackGetNackSeqsCounted now r nack t).1.rtp.beginSn

/-- The last entry past a limit is not before the window. -/
def DropsAhead (now : Int) (r : RtpRecvNack) : Prop :=
  ∀ info, (expiredEntries r.opts now r.queue.entries).getLast? = some info →
    0 ≤ rtpSeqDistance r.rtp.beginSn ((info.sn + 1) % 65536)

theorem rtpSeqDistance_self (sn : Nat) : rtpSeqDistance sn sn = 0 := by
  simp [rtpSeqDistance]

theorem foldl_drop_begin (rtp : ReceiveNackBuffer) (infos : List RtpNackInfo) :
    ((infos.map (·.sn)).foldl nackbufferNotifyDropSeq rtp).beginSn =
      match infos.getLast? with
      | none => rtp.beginSn
      | some info => (info.sn + 1) % 65536 := by
  induction infos using List.reverseRecOn with
  | nil => rfl
  | append_singleton infos info ih =>
    rw [List.map_append, List.foldl_append, List.getLast?_append_of_ne_nil _ (by simp)]
    rfl

theorem dropsAhead_iff (now : Int) (r : RtpRecvNack) :
    0 ≤ rtpSeqDistance r.rtp.beginSn
      (((expiredEntries r.opts now r.queue.entries).map (·.sn)).foldl nackbufferNotifyDropSeq
        r.rtp).beginSn ↔ DropsAhead now r := by
  rw [foldl_drop_begin]
  unfold DropsAhead
  cases (expiredEntries r.opts now r.queue.entries).getLast? with
  | none => simp [rtpSeqDistance_self]
  | some info => simp

theorem mem_foldl_addSn (sns : List Nat) (nack : RtcpNack) (sn : Nat) :
    sn ∈ (sns.foldl rtcpNackAddSn nack).nacks ↔ sn ∈ nack.nacks ∨ sn ∈ sns := by
  have hfold : (sns.foldl rtcpNackAddSn nack).nacks = sns.foldl insertUint16Sort nack.nacks := by
    induction sns generalizing nack with
    | nil => rfl
    | cons value sns ih => exact ih _
  rw [hfold, mem_foldl_insert]

/-- A track that has received 4 and 7 and waits for 5 and 6. -/
def waitingForTwo : RtpRecvNack :=
  let r := (playtrackOnNack (fun _ => 0) 0 1 (createRecvnack 100 500) 4).1
  (playtrackOnNack (fun _ => 0) 0 1 r 7).1

theorem waitingForTwo_entries :
    waitingForTwo.queue.entries = [⟨5, 0, 0, 0⟩, ⟨6, 0, 0, 0⟩] := by
  decide +kernel

theorem waitingForTwo_timed : Timed waitingForTwo :=
  playtrackOnNack_timed (playtrackOnNack_timed (timed_start 100 500) _ _ _ _) _ _ _ _

end Claim

end MetaRtc
