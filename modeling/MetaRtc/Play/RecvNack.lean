import Mathlib.Data.List.Range
import MetaRtc.Lib.Slots
import MetaRtc.Rtcp.Nack

/-! # The numbers a receiving track still waits for -/
namespace MetaRtc

/-- The window of numbers a track has seen. `queue` is written and never read. -/
structure ReceiveNackBuffer where
  beginSn : Nat := 0
  endSn : Nat := 0
  capacity : Nat
  contexttialized : Bool := false
  queue : Nat → Int := fun _ => 0
  nnSeqFlipBacks : Nat := 0

structure RtpNackInfo where
  sn : Nat := 0
  generateTime : Int := 0
  preReqNackTime : Int := 0
  reqNackCount : Nat := 0
  deriving DecidableEq

/-- Times are in microseconds. -/
structure NackOption where
  maxReqCount : Nat := 10
  maxAliveTime : Int := 1000 * 1000
  firstNackInterval : Int := 10 * 1000
  nackInterval : Int := 50 * 1000
  maxNackInterval : Int := 500 * 1000
  minNackInterval : Int := 15 * 1000
  nackCheckInterval : Int := 15 * 1000
  deriving DecidableEq

/-- The array is in use up to `vsize`. What it holds from there on is left over from
before. -/
structure RtpNackInfoList where
  vsize : Nat := 0
  capacity : Nat := 100
  nackinfos : Nat → RtpNackInfo := fun _ => {}
  fits : vsize ≤ capacity := by decide

namespace RtpNackInfoList

def entries (vec : RtpNackInfoList) : List RtpNackInfo :=
  (List.range vec.vsize).map vec.nackinfos

def sns (vec : RtpNackInfoList) : List Nat := vec.entries.map (·.sn)

end RtpNackInfoList

/-- A track's `nack_receiver` and the `rtp_queue` it points to. -/
structure RtpRecvNack where
  preCheckTime : Int := 0
  maxQueueSize : Nat
  rtp : ReceiveNackBuffer
  opts : NackOption := {}
  queue : RtpNackInfoList := {}

def createRecvnack (capacity queueSize : Nat) : RtpRecvNack where
  maxQueueSize := queueSize
  rtp := { capacity }

/-- The search looks at the entry behind the last one too. -/
def getNackinfoIndex (a : Nat → RtpNackInfo) (value alen : Nat) : Int :=
  uint16Search ((List.range (alen + 1)).map fun i => (a i).sn) value (alen + 2) 0 alen

def createNackinfo (now : Int) (seq : Nat) : RtpNackInfo := { sn := seq, generateTime := now }

/-- A new array has the old one's entries and zeros behind them. -/
def growNackinfos (vec : RtpNackInfoList) : RtpNackInfoList :=
  if vec.vsize ≥ vec.capacity then
    { vec with
      capacity := vec.capacity + 50
      nackinfos := fun i => if i < vec.capacity then vec.nackinfos i else {}
      fits := Nat.le_add_right_of_le vec.fits }
  else vec

@[simp] theorem growNackinfos_vsize (vec : RtpNackInfoList) :
    (growNackinfos vec).vsize = vec.vsize := by
  unfold growNackinfos
  split <;> rfl

theorem growNackinfos_room (vec : RtpNackInfoList) :
    (growNackinfos vec).vsize + 1 ≤ (growNackinfos vec).capacity := by
  have hfits := vec.fits
  unfold growNackinfos
  split
  · dsimp only
    omega
  · omega

theorem growNackinfos_nackinfos (vec : RtpNackInfoList) {i : Nat} (h : i < vec.vsize) :
    (growNackinfos vec).nackinfos i = vec.nackinfos i := by
  have hfits := vec.fits
  unfold growNackinfos
  split
  · exact if_pos (by omega)
  · rfl

def nackinfoInsert (now : Int) (vec : RtpNackInfoList) (value : Nat) : RtpNackInfoList :=
  let nacks := (growNackinfos vec).nackinfos
  let alen := vec.vsize
  let filled (nackinfos : Nat → RtpNackInfo) : RtpNackInfoList :=
    ⟨(growNackinfos vec).vsize + 1, (growNackinfos vec).capacity, nackinfos, growNackinfos_room vec⟩
  if alen = 0 ∨ rtpSeqDistance (nacks (alen - 1)).sn value > 0 then
    filled (Function.update nacks alen (createNackinfo now value))
  else
    let index := getNackinfoIndex nacks value alen
    if index = -1 then growNackinfos vec
    else
      let moved := fun i : Nat => if index < i ∧ i ≤ alen then nacks (i - 1) else nacks i
      filled (Function.update moved index.toNat (createNackinfo now value))

/-- The first entry with the number is closed over by the ones behind it. -/
def nackinfoRemove (vec : RtpNackInfoList) (value : Nat) : RtpNackInfoList :=
  let k := vec.sns.idxOf value
  if k < vec.vsize then
    { vec with
      nackinfos := fun i => if k ≤ i ∧ i + 1 < vec.vsize then vec.nackinfos (i + 1)
        else vec.nackinfos i
      vsize := vec.vsize - 1
      fits := Nat.sub_le_of_le_add (Nat.le_add_right_of_le vec.fits) }
  else vec

/-- The numbers from one up to another, which is left out. -/
def snRange (first last : Nat) : List Nat :=
  (List.range ((last + 65536 - first) % 65536)).map fun i => (first + i) % 65536

/-- `clock` tells the time each number is entered at. -/
def recvnackInsert (clock : Nat → Int) (nack : RtpRecvNack) (first last : Nat) : RtpRecvNack :=
  { nack with
    queue := (snRange first last).foldl (fun vec s => nackinfoInsert (clock s) vec s) nack.queue }

def recvnackRemove (nack : RtpRecvNack) (seq : Nat) : RtpRecvNack :=
  { nack with queue := nackinfoRemove nack.queue seq }

def recvnackFind (nack : RtpRecvNack) (seq : Nat) : Option RtpNackInfo :=
  nack.queue.entries.find? fun info => info.sn = seq

def nackbufferSet (nackbuf : ReceiveNackBuffer) (at_ pkt : Nat) : ReceiveNackBuffer :=
  { nackbuf with queue := Function.update nackbuf.queue (at_ % nackbuf.capacity) pkt }

def nackbufferRemove (nackbuf : ReceiveNackBuffer) (at_ : Nat) : ReceiveNackBuffer :=
  { nackbuf with queue := Function.update nackbuf.queue (at_ % nackbuf.capacity) (-1) }

def nackbufferNotifyNackListFull (nackbuf : ReceiveNackBuffer) : ReceiveNackBuffer :=
  { nackbuf with queue := fun _ => -1, beginSn := 0, endSn := 0, contexttialized := false }

def nackbufferNotifyDropSeq (nackbuf : ReceiveNackBuffer) (seq : Nat) : ReceiveNackBuffer :=
  { nackbufferRemove nackbuf seq with beginSn := (seq + 1) % 65536 }

/-- A number before the window's beginning. -/
def BeforeBegin (nackbuf : ReceiveNackBuffer) (seq : Nat) : Prop :=
  rtpSeqDistance seq nackbuf.beginSn > 0

instance (nackbuf : ReceiveNackBuffer) (seq : Nat) : Decidable (BeforeBegin nackbuf seq) := by
  unfold BeforeBegin
  exact inferInstance

/-- The range of numbers that are now missing, from the first up to the second. -/
def nackbufferUpdate2 (nackbuf : ReceiveNackBuffer) (seq : Nat) : Nat × Nat × ReceiveNackBuffer :=
  if nackbuf.contexttialized = false then
    (0, 0, { nackbuf with
      contexttialized := true, beginSn := seq, endSn := (seq + 1) % 65536 })
  else if rtpSeqDistance nackbuf.endSn seq ≥ 0 then
    (nackbuf.endSn, seq, { nackbuf with
      nnSeqFlipBacks := if seq < nackbuf.endSn then nackbuf.nnSeqFlipBacks + 1
        else nackbuf.nnSeqFlipBacks
      endSn := (seq + 1) % 65536 })
  else if BeforeBegin nackbuf seq then
    (seq, nackbuf.beginSn, { nackbuf with beginSn := seq })
  else (0, 0, nackbuf)

def recvnackCheckQueueSize (nack : RtpRecvNack) : RtpRecvNack :=
  if nack.queue.vsize ≥ nack.maxQueueSize then
    { nack with
      rtp := nackbufferNotifyNackListFull nack.rtp
      queue := { nack.queue with vsize := 0, fits := Nat.zero_le _ } }
  else nack

/-- The retry and time limits of a number. The time is cut to an `int32_t`. -/
def Expired (opts : NackOption) (now : Int) (info : RtpNackInfo) : Prop :=
  Int.bmod (now - info.generateTime) (2 ^ 32) > opts.maxAliveTime ∨
    info.reqNackCount > opts.maxReqCount

instance (opts : NackOption) (now : Int) (info : RtpNackInfo) :
    Decidable (Expired opts now info) := by
  unfold Expired
  exact inferInstance

def nackInterval (opts : NackOption) : Int :=
  if opts.nackInterval < 50 * 1000 then max opts.minNackInterval opts.nackInterval
  else max opts.minNackInterval (opts.nackInterval.tdiv 3)

/-- The loop of a sweep, at the `i`-th number. One that is dropped moves the next into its
place, which is thereby passed over. -/
def getNackSeqsLoop (now : Int) : Nat → Nat → RtpRecvNack → RtcpNack → RtpRecvNack × RtcpNack
  | 0, _, recvnack, nack => (recvnack, nack)
  | fuel + 1, i, recvnack, nack =>
    if i < recvnack.queue.vsize then
      let info := recvnack.queue.nackinfos i
      if Expired recvnack.opts now info then
        let recvnack := { recvnack with rtp := nackbufferNotifyDropSeq recvnack.rtp info.sn }
        getNackSeqsLoop now fuel (i + 1) (recvnackRemove recvnack info.sn) nack
      else if now - info.generateTime < recvnack.opts.firstNackInterval then (recvnack, nack)
      else if now - info.preReqNackTime ≥ nackInterval recvnack.opts then
        let info' := { info with reqNackCount := info.reqNackCount + 1, preReqNackTime := now }
        let nackinfos := Function.update recvnack.queue.nackinfos i info'
        getNackSeqsLoop now fuel (i + 1)
          { recvnack with queue := { recvnack.queue with nackinfos } }
          (rtcpNackAddSn nack info.sn)
      else getNackSeqsLoop now fuel (i + 1) recvnack nack
    else (recvnack, nack)

/-- A sweep of the numbers waited for, with those to ask for again. -/
def recvnackGetNackSeqs (now : Int) (recvnack : RtpRecvNack) (nack : RtcpNack) :
    RtpRecvNack × RtcpNack :=
  if now - recvnack.preCheckTime < recvnack.opts.nackCheckInterval then (recvnack, nack)
  else
    let recvnack := { recvnack with preCheckTime := now }
    getNackSeqsLoop now recvnack.queue.vsize 0 recvnack nack

/-- `yang_check_send_nacks` up to the encryption of the request, of which the plaintext is
given. -/
def checkSendNacks (now : Int) (ssrc : Nat) (recvnack : RtpRecvNack) :
    RtpRecvNack × Option (List UInt8) :=
  let (recvnack, nack) := recvnackGetNackSeqs now recvnack { capacity := 50 }
  if nack.nacks.length = 0 then (recvnack, none)
  else
    let rtcp := rtcpNackInit { nack := some nack } ssrc
    (recvnack, some (encodeRtcpNack rtcp { size := kRtcpPacketSize }).2.2.bytes)

/-- What an arriving number that was not waited for does before the sweep. -/
def onNackEnter (clock : Nat → Int) (recvnack : RtpRecvNack) (seq : Nat) : RtpRecvNack :=
  let (first, last, rtp) := nackbufferUpdate2 recvnack.rtp seq
  let recvnack := { recvnack with rtp }
  let recvnack :=
    if rtpSeqDistance first last > 0 then
      recvnackCheckQueueSize (recvnackInsert clock recvnack first last)
    else recvnack
  { recvnack with rtp := nackbufferSet recvnack.rtp seq seq }

def playtrackOnNack (clock : Nat → Int) (now : Int) (ssrc : Nat) (recvnack : RtpRecvNack)
    (seq : Nat) : RtpRecvNack × Option (List UInt8) :=
  if (recvnackFind recvnack seq).isSome then (recvnackRemove recvnack seq, none)
  else
    let recvnack := onNackEnter clock recvnack seq
    if recvnack.queue.vsize = 0 then (recvnack, none) else checkSendNacks now ssrc recvnack

theorem sns_eq (vec : RtpNackInfoList) :
    vec.sns = (List.range vec.vsize).map fun i => (vec.nackinfos i).sn := by
  simp only [RtpNackInfoList.sns, RtpNackInfoList.entries, List.map_map, Function.comp_def]

@[simp] theorem sns_length (vec : RtpNackInfoList) : vec.sns.length = vec.vsize := by
  simp [sns_eq]

theorem recvnackFind_isSome (nack : RtpRecvNack) (seq : Nat) :
    (recvnackFind nack seq).isSome ↔ seq ∈ nack.queue.sns := by
  simp [recvnackFind, RtpNackInfoList.sns]

/-- A number after all that are waited for goes behind them. -/
theorem sns_insert (now : Int) {vec : RtpNackInfoList} {value : Nat}
    (h : List.IsChain After (vec.sns ++ [value])) :
    (nackinfoInsert now vec value).sns = vec.sns ++ [value] := by
  have hkept : (List.range vec.vsize).map (fun i => (Function.update (growNackinfos vec).nackinfos
      vec.vsize (createNackinfo now value) i).sn) = vec.sns := by
    rw [sns_eq]
    apply List.map_congr_left
    intro i hi
    have hlt := List.mem_range.mp hi
    rw [Function.update_of_ne (by omega), growNackinfos_nackinfos vec hlt]
  have happends : vec.vsize = 0 ∨
      rtpSeqDistance ((growNackinfos vec).nackinfos (vec.vsize - 1)).sn value > 0 := by
    by_cases h0 : vec.vsize = 0
    · exact .inl h0
    · right
      rw [growNackinfos_nackinfos vec (by omega)]
      obtain ⟨n, hn⟩ := Nat.exists_eq_succ_of_ne_zero h0
      rw [sns_eq, hn, List.range_succ, List.map_append, List.append_assoc] at h
      rw [hn]
      exact (List.isChain_append_cons_cons.mp h).2.1
  unfold nackinfoInsert
  simp only [happends, if_true, growNackinfos_vsize]
  rw [sns_eq]
  simp only [List.range_succ, List.map_append, hkept]
  simp [createNackinfo]

theorem sns_insert_all (clock : Nat → Int) {values : List Nat} {vec : RtpNackInfoList}
    (h : List.IsChain After (vec.sns ++ values)) :
    (values.foldl (fun vec s => nackinfoInsert (clock s) vec s) vec).sns = vec.sns ++ values := by
  induction values generalizing vec with
  | nil => simp
  | cons value values ih =>
    rw [show vec.sns ++ value :: values = (vec.sns ++ [value]) ++ values by simp] at h ⊢
    have hone := sns_insert (clock value) h.left_of_append
    rw [List.foldl_cons, ih (hone ▸ h), hone]

theorem sns_getElem (vec : RtpNackInfoList) (i : Nat) (h : i < vec.sns.length) :
    vec.sns[i] = (vec.nackinfos i).sn := by
  simp [sns_eq]

/-- The first entry with the number is taken out. -/
theorem entries_remove (vec : RtpNackInfoList) (value : Nat) :
    (nackinfoRemove vec value).entries = vec.entries.eraseP (·.sn = value) := by
  have hfind : vec.sns.idxOf value = vec.entries.findIdx (·.sn = value) := by
    unfold RtpNackInfoList.sns List.idxOf
    rw [List.findIdx_map]
    rfl
  have hlen : vec.entries.length = vec.vsize := Slots.entries_length _ _
  rw [Slots.eraseP_findIdx]
  unfold nackinfoRemove
  dsimp only
  rw [hfind]
  split
  · rename_i hk
    exact Slots.entries_removeAt vec.nackinfos hk
  · rename_i hk
    rw [List.eraseIdx_of_length_le (by omega)]

theorem sns_remove (vec : RtpNackInfoList) (value : Nat) :
    (nackinfoRemove vec value).sns = vec.sns.erase value := by
  rw [List.erase_eq_eraseP]
  unfold RtpNackInfoList.sns
  rw [entries_remove, List.eraseP_map]
  simp only [Function.comp_def, beq_eq_decide, eq_comm]

/-- The entries from an index on, as the loop of a sweep still finds them. -/
def RtpNackInfoList.ahead (vec : RtpNackInfoList) (i : Nat) (info : RtpNackInfo) : Prop :=
  ∃ j, i ≤ j ∧ j < vec.vsize ∧ vec.nackinfos j = info

theorem ahead_mem {vec : RtpNackInfoList} {i : Nat} {info : RtpNackInfo} (h : vec.ahead i info) :
    info ∈ vec.entries := by
  obtain ⟨j, _, hj, rfl⟩ := h
  exact List.mem_map_of_mem (List.mem_range.mpr hj)

theorem ahead_later {vec : RtpNackInfoList} {i : Nat} {info : RtpNackInfo}
    (h : vec.ahead (i + 1) info) : vec.ahead i info := by
  obtain ⟨j, hlo, hhi, rfl⟩ := h
  exact ⟨j, by omega, hhi, rfl⟩

/-- The entry of a number that is asked for again. -/
def RtpNackInfoList.asked (vec : RtpNackInfoList) (now : Int) (i : Nat) : RtpNackInfoList :=
  let info := vec.nackinfos i
  { vec with
    nackinfos := Function.update vec.nackinfos i
      { info with reqNackCount := info.reqNackCount + 1, preReqNackTime := now } }

@[simp] theorem asked_sns (vec : RtpNackInfoList) (now : Int) (i : Nat) :
    (vec.asked now i).sns = vec.sns := by
  rw [sns_eq, sns_eq]
  apply List.map_congr_left
  intro j _
  by_cases hj : j = i
  · subst hj
    simp [RtpNackInfoList.asked]
  · simp [RtpNackInfoList.asked, Function.update_of_ne hj]

theorem ahead_asked {vec : RtpNackInfoList} {now : Int} {i : Nat} {info : RtpNackInfo}
    (h : (vec.asked now i).ahead (i + 1) info) : vec.ahead (i + 1) info := by
  obtain ⟨j, hlo, hhi, rfl⟩ := h
  exact ⟨j, hlo, hhi, (Function.update_of_ne (by omega) _ _).symm⟩

theorem ahead_remove {vec : RtpNackInfoList} {i : Nat} {info : RtpNackInfo} (hi : i < vec.vsize)
    (h : (nackinfoRemove vec (vec.nackinfos i).sn).ahead (i + 1) info) : vec.ahead (i + 1) info := by
  have hk : vec.sns.idxOf (vec.nackinfos i).sn ≤ i := by
    have hlen : i < vec.sns.length := by rwa [sns_length]
    by_contra hlt
    have hne := List.not_of_lt_findIdx (Nat.lt_of_not_ge hlt)
    simp [sns_getElem] at hne
  unfold nackinfoRemove at h
  simp only [show vec.sns.idxOf (vec.nackinfos i).sn < vec.vsize by omega, if_true] at h
  obtain ⟨j, hlo, hhi, rfl⟩ := h
  dsimp only at hhi ⊢
  exact ⟨j + 1, by omega, by omega, (if_pos ⟨by omega, by omega⟩).symm⟩

/-- What a sweep from an index on does to the numbers waited for: some that have met a
limit are gone. -/
structure Swept (now : Int) (i : Nat) (r r' : RtpRecvNack) : Prop where
  sub : r'.queue.sns.Sublist r.queue.sns
  dropped : ∀ sn ∈ r.queue.sns, sn ∈ r'.queue.sns ∨
    ∃ info, r.queue.ahead i info ∧ info.sn = sn ∧ Expired r.opts now info
  endSn : r'.rtp.endSn = r.rtp.endSn
  contexttialized : r'.rtp.contexttialized = r.rtp.contexttialized

theorem Swept.refl (now : Int) (i : Nat) (r : RtpRecvNack) : Swept now i r r :=
  ⟨.refl _, fun _ h => .inl h, rfl, rfl⟩

theorem Swept.later {now : Int} {i : Nat} {r r' : RtpRecvNack} (h : Swept now (i + 1) r r') :
    Swept now i r r' := by
  refine ⟨h.sub, fun sn hsn => (h.dropped sn hsn).imp_right ?_, h.endSn, h.contexttialized⟩
  rintro ⟨info, hahead, hrest⟩
  exact ⟨info, ahead_later hahead, hrest⟩

theorem Swept.after_asked {now : Int} {i : Nat} {r r' : RtpRecvNack}
    (h : Swept now (i + 1) { r with queue := r.queue.asked now i } r') : Swept now i r r' := by
  obtain ⟨hsub, hdropped, hend, hctx⟩ := h
  simp only [asked_sns] at hsub hdropped
  refine ⟨hsub, fun sn hsn => (hdropped sn hsn).imp_right ?_, hend, hctx⟩
  rintro ⟨info, hahead, hrest⟩
  exact ⟨info, ahead_later (ahead_asked hahead), hrest⟩

/-- The number at the index is dropped, whatever becomes of the rest. -/
theorem Swept.after_drop {now : Int} {i : Nat} {r r' : RtpRecvNack} (hi : i < r.queue.vsize)
    (hexpired : Expired r.opts now (r.queue.nackinfos i))
    (h : Swept now (i + 1) (recvnackRemove
      { r with rtp := nackbufferNotifyDropSeq r.rtp (r.queue.nackinfos i).sn }
      (r.queue.nackinfos i).sn) r') : Swept now i r r' := by
  obtain ⟨hsub, hdropped, hend, hctx⟩ := h
  simp only [recvnackRemove, sns_remove] at hsub hdropped
  refine ⟨hsub.trans List.erase_sublist, fun sn hsn => ?_, hend, hctx⟩
  by_cases heq : (r.queue.nackinfos i).sn = sn
  · exact .inr ⟨_, ⟨i, Nat.le_refl i, hi, rfl⟩, heq, hexpired⟩
  · refine (hdropped sn ((List.mem_erase_of_ne (Ne.symm heq)).mpr hsn)).imp_right ?_
    rintro ⟨info, hahead, hrest⟩
    exact ⟨info, ahead_later (ahead_remove hi hahead), hrest⟩

theorem getNackSeqsLoop_swept (now : Int) (fuel i : Nat) (r : RtpRecvNack) (nack : RtcpNack) :
    Swept now i r (getNackSeqsLoop now fuel i r nack).1 := by
  induction fuel generalizing i r nack with
  | zero => exact .refl now i r
  | succ fuel ih =>
    unfold getNackSeqsLoop
    dsimp only
    split
    · rename_i hi
      split
      · rename_i hexpired
        exact .after_drop hi hexpired (ih _ _ _)
      · split
        · exact .refl now i r
        · split
          · exact .after_asked (ih _ _ _)
          · exact .later (ih _ _ _)
    · exact .refl now i r

theorem recvnackGetNackSeqs_swept (now : Int) (r : RtpRecvNack) (nack : RtcpNack) :
    Swept now 0 r (recvnackGetNackSeqs now r nack).1 := by
  unfold recvnackGetNackSeqs
  split
  · exact .refl now 0 r
  · obtain ⟨hsub, hdropped, hend, hctx⟩ :=
      getNackSeqsLoop_swept now r.queue.vsize 0 { r with preCheckTime := now } nack
    exact ⟨hsub, hdropped, hend, hctx⟩

theorem checkSendNacks_swept (now : Int) (ssrc : Nat) (r : RtpRecvNack) :
    Swept now 0 r (checkSendNacks now ssrc r).1 := by
  have h := recvnackGetNackSeqs_swept now r { capacity := 50 }
  unfold checkSendNacks
  dsimp only
  split <;> exact h

end MetaRtc
