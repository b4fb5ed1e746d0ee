import MetaRtc.Lib.Exec
import MetaRtc.Play.Highest

/-! # A request fits its packet

Whatever closes an entry is left out of the request, so that there are half as many entries as
numbers, and a list that reaches its limit is emptied before it is swept. -/
namespace MetaRtc

open Exec Bytes

section Chunks

/-- The array has a place for each number of the list. -/
def putChunk (room : Nat) (chunks : List PidBlp) (chunk : PidBlp) : Call (List PidBlp) :=
  if chunks.length < room then .ret (chunks ++ [chunk]) else .crash

/-- A pass of the packing loop, with the array it writes to. -/
def packNackSnIn (room : Nat) (s : NackPacking) (sn : Nat) : Call NackPacking :=
  let distance : Int := (sn : Int) - s.chunk.pid
  if s.chunk.inUse ∧ distance > 16 then do
    return { chunks := ← putChunk room s.chunks s.chunk, chunk := { s.chunk with inUse := false } }
  else .ret (packNackSn s sn)

def closeIn (room : Nat) (s : NackPacking) : Call (List PidBlp) :=
  if s.chunk.inUse then putChunk room s.chunks s.chunk else .ret s.chunks

def packNacksIn (nacks : List Nat) : Call (List PidBlp) := do
  closeIn nacks.length (← nacks.foldlM (packNackSnIn nacks.length) ⟨[], ⟨0, 0, false⟩⟩)

/-- What the packing has taken: two numbers for each closed entry, one for the open one. -/
def NackPacking.taken (s : NackPacking) : Nat := 2 * s.chunks.length + s.chunk.inUse.toNat

theorem putChunk_room {room : Nat} {chunks : List PidBlp} (h : chunks.length < room)
    (chunk : PidBlp) : putChunk room chunks chunk = .ret (chunks ++ [chunk]) := if_pos h

theorem packNackSn_taken (s : NackPacking) (sn : Nat) :
    (packNackSn s sn).taken ≤ s.taken + 1 := by
  obtain ⟨chunks, pid, blp, inUse⟩ := s
  unfold packNackSn NackPacking.taken
  cases inUse with
  | false => simp
  | true =>
    simp only [Bool.not_true, Bool.false_eq_true, if_false]
    split
    · simp
    · split
      · simp
        omega
      · simp

theorem packNackSnIn_eq {room : Nat} {s : NackPacking} (h : s.taken < room) (sn : Nat) :
    packNackSnIn room s sn = .ret (packNackSn s sn) := by
  unfold packNackSnIn
  dsimp only
  split
  · rename_i hcloses
    obtain ⟨huse, hfar⟩ := hcloses
    have hroom : s.chunks.length < room := by
      unfold NackPacking.taken at h
      omega
    rw [putChunk_room hroom, packNackSn, if_neg (by simp [huse]), if_neg (by omega), if_pos hfar]
    rfl
  · rfl

theorem foldl_pack {room : Nat} {nacks : List Nat} {s : NackPacking}
    (h : s.taken + nacks.length ≤ room) :
    nacks.foldlM (packNackSnIn room) s = .ret (nacks.foldl packNackSn s) ∧
      (nacks.foldl packNackSn s).taken ≤ s.taken + nacks.length := by
  induction nacks generalizing s with
  | nil => exact ⟨rfl, Nat.le_refl _⟩
  | cons sn nacks ih =>
    rw [List.length_cons] at h
    have hone := packNackSn_taken s sn
    obtain ⟨hret, htaken⟩ := ih (show (packNackSn s sn).taken + nacks.length ≤ room by omega)
    rw [List.foldlM_cons, List.foldl_cons, packNackSnIn_eq (by omega), Call.ret_bind]
    refine ⟨hret, ?_⟩
    rw [List.length_cons]
    omega

theorem close_length (s : NackPacking) : 2 * s.close.length ≤ s.taken + 1 := by
  unfold NackPacking.close NackPacking.taken
  split
  · rename_i huse
    simp [huse]
    omega
  · omega

theorem packNacks_taken (nacks : List Nat) :
    (nacks.foldl packNackSn ⟨[], ⟨0, 0, false⟩⟩).taken ≤ nacks.length := by
  have h := (@foldl_pack nacks.length nacks ⟨[], ⟨0, 0, false⟩⟩
    (by simp [NackPacking.taken])).2
  simpa [NackPacking.taken] using h

/-- An entry takes two numbers, but for the last. -/
theorem packNacks_length (nacks : List Nat) : 2 * (packNacks nacks).length ≤ nacks.length + 1 := by
  have htaken := packNacks_taken nacks
  have hclose := close_length (nacks.foldl packNackSn ⟨[], ⟨0, 0, false⟩⟩)
  unfold packNacks
  omega

/-- No entry is written behind the array, for any list of numbers. -/
theorem packNacksIn_eq (nacks : List Nat) : packNacksIn nacks = .ret (packNacks nacks) := by
  have htaken := packNacks_taken nacks
  have hfold := (@foldl_pack nacks.length nacks ⟨[], ⟨0, 0, false⟩⟩
    (by simp [NackPacking.taken])).1
  rw [packNacksIn, hfold, Call.ret_bind, closeIn, packNacks, NackPacking.close]
  split
  · rename_i huse
    apply putChunk_room
    simp only [NackPacking.taken, huse, Bool.toNat_true] at htaken
    omega
  · rfl

end Chunks

section Sweep

variable {r : RtpRecvNack} {limit : Nat}

theorem getNackSeqsLoop_length (now : Int) (fuel i : Nat) (r : RtpRecvNack) (nack : RtcpNack) :
    (getNackSeqsLoop now fuel i r nack).2.nacks.length ≤ nack.nacks.length + fuel := by
  induction fuel generalizing i r nack with
  | zero => exact Nat.le_refl _
  | succ fuel ih =>
    unfold getNackSeqsLoop
    dsimp only
    split
    · split
      · have hrest := ih (i + 1) (recvnackRemove
          { r with rtp := nackbufferNotifyDropSeq r.rtp (r.queue.nackinfos i).sn }
          (r.queue.nackinfos i).sn) nack
        omega
      · split
        · exact Nat.le_add_right _ _
        · split
          · have hone := insertUint16Sort_length nack.nacks (r.queue.nackinfos i).sn
            have hrest := ih (i + 1) { r with queue := r.queue.asked now i }
              (rtcpNackAddSn nack (r.queue.nackinfos i).sn)
            unfold rtcpNackAddSn RtpNackInfoList.asked at *
            dsimp only at *
            omega
          · have hrest := ih (i + 1) r nack
            omega
    · exact Nat.le_add_right _ _

/-- A sweep asks for a number at most once. -/
theorem recvnackGetNackSeqs_length (now : Int) (r : RtpRecvNack) (nack : RtcpNack) :
    (recvnackGetNackSeqs now r nack).2.nacks.length ≤ nack.nacks.length + r.queue.vsize := by
  unfold recvnackGetNackSeqs
  split
  · exact Nat.le_add_right _ _
  · exact getNackSeqsLoop_length now r.queue.vsize 0 { r with preCheckTime := now } nack

theorem getNackSeqsLoop_limit (now : Int) (fuel i : Nat) (r : RtpRecvNack) (nack : RtcpNack) :
    (getNackSeqsLoop now fuel i r nack).1.maxQueueSize = r.maxQueueSize := by
  induction fuel generalizing i r nack with
  | zero => rfl
  | succ fuel ih =>
    unfold getNackSeqsLoop
    dsimp only
    split
    · split
      · exact ih _ _ _
      · split
        · rfl
        · split
          · exact ih _ _ _
          · exact ih _ _ _
    · rfl

theorem checkSendNacks_limit (now : Int) (ssrc : Nat) (r : RtpRecvNack) :
    (checkSendNacks now ssrc r).1.maxQueueSize = r.maxQueueSize := by
  have h : (recvnackGetNackSeqs now r { capacity := 50 }).1.maxQueueSize = r.maxQueueSize := by
    unfold recvnackGetNackSeqs
    split
    · rfl
    · exact getNackSeqsLoop_limit now _ _ _ _
  unfold checkSendNacks
  dsimp only
  split <;> exact h

/-- The list is shorter than its limit, as it is between two packets. -/
structure BelowLimit (limit : Nat) (r : RtpRecvNack) : Prop where
  size : r.maxQueueSize = limit
  short : r.queue.vsize < limit

theorem BelowLimit.swept (h : BelowLimit limit r) (now : Int) (ssrc : Nat) :
    BelowLimit limit (checkSendNacks now ssrc r).1 := by
  have hsub := (checkSendNacks_swept now ssrc r).sub.length_le
  rw [sns_length, sns_length] at hsub
  exact ⟨(checkSendNacks_limit now ssrc r).trans h.size, Nat.lt_of_le_of_lt hsub h.short⟩

theorem BelowLimit.remove (h : BelowLimit limit r) (seq : Nat) :
    BelowLimit limit (recvnackRemove r seq) := by
  have hsub := (List.erase_sublist (a := seq) (l := r.queue.sns)).length_le
  rw [← sns_remove, sns_length, sns_length] at hsub
  exact ⟨h.size, Nat.lt_of_le_of_lt hsub h.short⟩

/-- Whatever range was entered, the check leaves less than the limit. -/
theorem checkQueueSize_below (hpos : 0 < limit) (hlimit : r.maxQueueSize = limit) :
    BelowLimit limit (recvnackCheckQueueSize r) := by
  unfold recvnackCheckQueueSize
  split
  · exact ⟨hlimit, hpos⟩
  · rename_i hshort
    exact ⟨hlimit, by omega⟩

theorem BelowLimit.enter (h : BelowLimit limit r) (clock : Nat → Int) (seq : Nat) :
    BelowLimit limit (onNackEnter clock r seq) := by
  have hpos := Nat.zero_lt_of_lt h.short
  unfold onNackEnter
  dsimp only
  split
  · have hbelow := checkQueueSize_below hpos (r := recvnackInsert clock
      { r with rtp := (nackbufferUpdate2 r.rtp seq).2.2 } (nackbufferUpdate2 r.rtp seq).1
      (nackbufferUpdate2 r.rtp seq).2.1) h.size
    exact ⟨hbelow.size, hbelow.short⟩
  · exact ⟨h.size, h.short⟩

theorem BelowLimit.onNack (h : BelowLimit limit r) (clock : Nat → Int) (now : Int)
    (ssrc seq : Nat) : BelowLimit limit (playtrackOnNack clock now ssrc r seq).1 := by
  unfold playtrackOnNack
  dsimp only
  split
  · exact h.remove seq
  · split
    · exact h.enter clock seq
    · exact (h.enter clock seq).swept now ssrc

theorem BelowLimit.next {w : NackWorld} (h : BelowLimit limit w.recvnack) (e : NackEvent) :
    BelowLimit limit (w.next e).recvnack := by
  cases e with
  | arrive clock now ssrc seq =>
    have honce := h.onNack clock now ssrc seq.toNat
    unfold NackWorld.next
    dsimp only
    split <;> exact honce
  | sweep now ssrc => exact h.swept now ssrc
  | setNackInterval interval => exact ⟨h.size, h.short⟩

end Sweep

section Request

/-- What `srtp_protect_rtcp` may write behind a packet: the tag, an MKI and the index. -/
def srtpMaxTrailerLen : Nat := 16 + 128
def srtcpTrailer : Nat := srtpMaxTrailerLen + 4

/-- The receiver of a track as it is created. -/
def NackWorld.startOf (isAudio : Bool) : NackWorld :=
  if isAudio then .start 100 (100 * 2 / 3) else .start 1000 (1000 * 2 / 3)

/-- The request an event sends, if it sends one. -/
def NackWorld.request (w : NackWorld) : NackEvent → Option (List UInt8)
  | .arrive clock now ssrc seq => (playtrackOnNack clock now ssrc w.recvnack seq.toNat).2
  | .sweep now ssrc => (checkSendNacks now ssrc w.recvnack).2
  | .setNackInterval _ => none

variable {r : RtpRecvNack} {limit : Nat} {bytes : List UInt8}

theorem nackBytes_length {comm : RtcpCommon} {nack : RtcpNack} (h : comm.nack = some nack) :
    (nackBytes comm).length = 12 + 4 * (packNacks nack.nacks).length := by
  obtain ⟨b0, b1, heq⟩ := nackBytes_eq h
  rw [heq]
  simp only [List.length_append, beBytes_length, chunks_length, List.length_cons, List.length_nil]
  omega

theorem checkSendNacks_length {now : Int} {ssrc : Nat} (hr : r.queue.vsize ≤ limit)
    (h : (checkSendNacks now ssrc r).2 = some bytes) : bytes.length ≤ 14 + 2 * limit := by
  have hlist := recvnackGetNackSeqs_length now r { capacity := 50 }
  rw [List.length_nil, Nat.zero_add] at hlist
  unfold checkSendNacks at h
  dsimp only at h
  split at h
  · exact nomatch h
  · obtain rfl := Option.some.inj h
    have hchunks := packNacks_length (recvnackGetNackSeqs now r { capacity := 50 }).2.nacks
    have hlen := @nackBytes_length (rtcpNackInit
      { nack := some (recvnackGetNackSeqs now r { capacity := 50 }).2 } ssrc) _ rfl
    unfold nackBytes at hlen
    dsimp only at hlen
    omega

theorem request_length {w : NackWorld} (hw : BelowLimit (limit + 1) w.recvnack) {e : NackEvent}
    (h : w.request e = some bytes) : bytes.length ≤ 14 + 2 * limit := by
  cases e with
  | arrive clock now ssrc seq =>
    unfold NackWorld.request playtrackOnNack at h
    dsimp only at h
    split at h
    · exact nomatch h
    · split at h
      · exact nomatch h
      · exact checkSendNacks_length (Nat.le_of_lt_succ (hw.enter clock seq.toNat).short) h
  | sweep now ssrc => exact checkSendNacks_length (Nat.le_of_lt_succ hw.short) h
  | setNackInterval interval => exact nomatch h

/-- In every state of every run, each request a sweep makes has room for its trailer in the packet,
and the array of entries a place for each. -/
theorem request_fits (isAudio : Bool) {es : List NackEvent} {w : NackWorld}
    (hl : Run.Leads NackStep es (.startOf isAudio) w) :
    (∀ e bytes, w.request e = some bytes → bytes.length + srtcpTrailer ≤ kRtcpPacketSize) ∧
    ∀ nacks, packNacksIn nacks = .ret (packNacks nacks) := by
  have hstart : ∃ n < 666, BelowLimit (n + 1) (NackWorld.startOf isAudio).recvnack := by
    cases isAudio with
    | true => exact ⟨65, by decide, rfl, by decide⟩
    | false => exact ⟨665, by decide, rfl, by decide⟩
  obtain ⟨n, hn, hbelow⟩ := hstart
  have hstep : ∀ v e v', BelowLimit (n + 1) v.recvnack → True → NackStep v e v' →
      BelowLimit (n + 1) v'.recvnack := by
    rintro v e _ hv - rfl
    exact hv.next e
  have hw := Run.leads_invariant (P := fun _ _ => True) _ hstep hl hbelow
    (Run.throughout_of_forall fun _ _ => trivial)
  refine ⟨?_, packNacksIn_eq⟩
  intro e bytes h
  have hlen := request_length hw h
  simp only [srtcpTrailer, srtpMaxTrailerLen, kRtcpPacketSize]
  omega

/-- Two lost packets are asked for at the first sweep behind their first ten milliseconds. -/
theorem request_fits_lost :
    ∃ bytes, (((NackWorld.startOf false).next (.packet 1)).next (.packet 4)).request
      (.sweep 20000 1) = some bytes ∧ bytes.length + srtcpTrailer ≤ kRtcpPacketSize := by
  have hl : Run.Leads NackStep [.packet 1, .packet 4] (.startOf false) _ :=
    .cons rfl (.cons rfl (.nil _))
  obtain ⟨bytes, hbytes⟩ : ∃ bytes, (((NackWorld.startOf false).next (.packet 1)).next
      (.packet 4)).request (.sweep 20000 1) = some bytes := Option.isSome_iff_exists.mp (by decide)
  exact ⟨bytes, hbytes, (request_fits false hl).1 _ _ hbytes⟩

end Request

end MetaRtc
