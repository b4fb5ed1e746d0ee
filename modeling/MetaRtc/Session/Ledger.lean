import MetaRtc.Rtcp.Progress
import MetaRtc.Session.Receive

/-! # The memory of decoded packets

A ledger of the blocks each packet owns: what a pass of the decoder allocates is owned by
the packet it decodes, and clearing the vector gives back what its elements own, sender
reports apart. -/
namespace MetaRtc

open Bytes Exec YangBuffer Loop

/-- One block for a pointer that is set. -/
def blocksAt {α : Type} (p : Option α) : Int := if p.isSome then 1 else 0

@[simp] theorem blocksAt_none {α : Type} : blocksAt (none : Option α) = 0 := rfl
@[simp] theorem blocksAt_some {α : Type} (a : α) : blocksAt (some a) = 1 := rfl

@[simp] theorem blocksAt_map {α β : Type} (f : α → β) (p : Option α) :
    blocksAt (p.map f) = blocksAt p := by
  cases p <;> rfl

/-- The blocks a packet's pointers lead to. -/
def RtcpCommon.owned (rtcp : RtcpCommon) : Block → Int
  | .rtcp => 0
  | .sr => blocksAt rtcp.sr
  | .rb => blocksAt rtcp.rb
  | .nack | .nacks => blocksAt rtcp.nack
  | .rpsi => blocksAt rtcp.rpsi
  | .twcc | .twccLists => blocksAt rtcp.twcc

/-- What a pass allocates besides the packet itself. -/
def SubKind.makes : SubKind → Block → Int
  | .sr, .sr | .rr, .rb | .nack, .nack | .nack, .nacks => 1
  | .rpsi, .rpsi | .twcc, .twcc | .twcc, .twccLists => 1
  | _, _ => 0

theorem SubKind.makes_nonneg (kind : SubKind) (k : Block) : 0 ≤ kind.makes k := by
  cases kind <;> cases k <;> decide

/-- The packet's own block, which every pass gives back. -/
def packetBlock (k : Block) : Int := if k = .rtcp then 1 else 0

section Decoding

variable {buf : YangBuffer} {comm : RtcpCommon}

/-- Two packets with the same pointers set own the same. -/
theorem owned_congr {a b : RtcpCommon} (hsr : blocksAt a.sr = blocksAt b.sr)
    (hrb : blocksAt a.rb = blocksAt b.rb) (hn : blocksAt a.nack = blocksAt b.nack)
    (hp : blocksAt a.rpsi = blocksAt b.rpsi) (ht : blocksAt a.twcc = blocksAt b.twcc) :
    a.owned = b.owned := by
  funext k
  cases k <;> first | rfl | assumption

theorem start_owned (comm : RtcpCommon) (buf : YangBuffer) :
    (decodeStart comm buf).comm.owned = comm.owned := by
  obtain ⟨header, ssrc, hcomm, _, _⟩ := start_comm comm buf
  rw [hcomm]
  rfl

theorem sr_owned (comm : RtcpCommon) (buf : YangBuffer) :
    (decodeRtcpSR comm buf).comm.owned = comm.owned := by
  rw [← start_owned comm buf]
  unfold decodeRtcpSR
  simp only
  split
  · rfl
  · exact owned_congr (blocksAt_map _ _) rfl rfl rfl rfl

theorem rr_owned (hc : comm.rb.isSome) (buf : YangBuffer) :
    (decodeRtcpRR comm buf).comm.owned = comm.owned := by
  obtain ⟨header, ssrc, hcomm, _, _⟩ := start_comm comm buf
  have hrb : blocksAt comm.rb = 1 := if_pos hc
  unfold decodeRtcpRR
  rw [if_neg (by simpa [Option.isNone_iff_eq_none] using Option.isSome_iff_ne_none.mp hc)]
  simp only
  split
  · exact start_owned comm buf
  split
  · exact start_owned comm buf
  · rw [← start_owned comm buf]
    exact owned_congr rfl (by simp [hcomm, hrb]) rfl rfl rfl

theorem nack_owned (comm : RtcpCommon) (buf : YangBuffer) :
    (decodeRtcpNack comm buf).comm.owned = comm.owned := by
  rw [← start_owned comm buf]
  unfold decodeRtcpNack
  simp only
  split
  · rfl
  · exact owned_congr rfl rfl (blocksAt_map _ _) rfl rfl

theorem twcc_owned (comm : RtcpCommon) (buf : YangBuffer) :
    (twccRtcpDecode comm buf).comm.owned = comm.owned := by
  rw [← start_owned comm buf]
  unfold twccRtcpDecode
  simp only
  split <;> rfl

theorem rpsi_owned (comm : RtcpCommon) (buf : YangBuffer) :
    (decodeRtcpRpsi comm buf).comm.owned = comm.owned := by
  rw [← start_owned comm buf]
  unfold decodeRtcpRpsi
  simp only
  split
  · rfl
  · exact owned_congr rfl rfl rfl (blocksAt_map _ _) rfl

theorem pli_owned (comm : RtcpCommon) (buf : YangBuffer) :
    (decodeRtcpPli comm buf).comm.owned = comm.owned := by
  rw [← start_owned comm buf]
  unfold decodeRtcpPli
  simp only
  split <;> rfl

theorem psfb_owned (comm : RtcpCommon) (buf : YangBuffer) :
    (decodeRtcpPsfb comm buf).comm.owned = comm.owned := by
  rw [← start_owned comm buf]
  unfold decodeRtcpPsfb
  simp only
  split <;> rfl

theorem xr_owned (comm : RtcpCommon) (buf : YangBuffer) :
    (decodeRtcpXr comm buf).comm.owned = comm.owned := by
  rw [← start_owned comm buf]
  unfold decodeRtcpXr
  simp only
  split <;> rfl

theorem other_owned (comm : RtcpCommon) (buf : YangBuffer) :
    (decodeRtcpCommon comm buf).comm.owned = comm.owned := by
  unfold decodeRtcpCommon decodeHeaderRtcpCommon
  split
  · rfl
  simp only
  split <;> rfl

end Decoding

theorem alloc_apply (heap : Heap) (j k : Block) :
    heap.alloc j k = heap k + if k = j then 1 else 0 := by
  unfold Heap.alloc
  split <;> simp

theorem free_apply (heap : Heap) (j k : Block) :
    heap.free j k = heap k - if k = j then 1 else 0 := by
  unfold Heap.free
  split <;> simp

/-- A pass allocates the packet and what the packet owns in the end, whether the decoder
accepts it or not. -/
theorem subPacket_ledger (enableTwcc : Bool) (buf : YangBuffer) (heap : Heap) :
    let kind := subKind enableTwcc buf.hdr
    (decodeSubPacket enableTwcc buf heap).1.comm.owned = kind.makes ∧
      ∀ k, (decodeSubPacket enableTwcc buf heap).2 k = heap k + packetBlock k + kind.makes k := by
  -- every branch: the decoder keeps what its creator made, and the creator's blocks are counted
  have hpacket : ∀ k, heap.alloc .rtcp k = heap k + packetBlock k := alloc_apply heap .rtcp
  intro kind
  unfold kind decodeSubPacket subKind
  simp only
  split
  · refine ⟨(sr_owned _ _).trans (by funext k; cases k <;> rfl), fun k => ?_⟩
    cases k <;> simp [createRtcpSR, Heap.allocIf, alloc_apply, packetBlock, SubKind.makes]
  split
  · refine ⟨(rr_owned rfl _).trans (by funext k; cases k <;> rfl), fun k => ?_⟩
    cases k <;> simp [createRtcpRR, Heap.allocIf, alloc_apply, packetBlock, SubKind.makes]
  have hnone : (⟨yangOk, {}, buf.touch 2⟩ : Decoded).comm.owned = SubKind.unread.makes ∧
      ∀ k, heap.alloc .rtcp k = heap k + packetBlock k + SubKind.unread.makes k :=
    ⟨by funext k; cases k <;> rfl, fun k => by rw [hpacket]; exact (Int.add_zero _).symm⟩
  split
  · split
    · refine ⟨(nack_owned _ _).trans (by funext k; cases k <;> rfl), fun k => ?_⟩
      cases k <;> simp [createRtcpNack, Heap.allocIf, alloc_apply, packetBlock, SubKind.makes]
    split
    · split
      · refine ⟨(twcc_owned _ _).trans (by funext k; cases k <;> rfl), fun k => ?_⟩
        cases k <;> simp [createRtcptwcc, alloc_apply, packetBlock, SubKind.makes]
      · exact hnone
    · exact hnone
  split
  · split
    · refine ⟨(pli_owned _ _).trans (by funext k; cases k <;> rfl), fun k => ?_⟩
      exact (hpacket k).trans (Int.add_zero _).symm
    split
    · exact hnone
    split
    · refine ⟨(rpsi_owned _ _).trans (by funext k; cases k <;> rfl), fun k => ?_⟩
      cases k <;> simp [createRtcpRpsi, Heap.allocIf, alloc_apply, packetBlock, SubKind.makes]
    · refine ⟨(psfb_owned _ _).trans (by funext k; cases k <;> rfl), fun k => ?_⟩
      exact (hpacket k).trans (Int.add_zero _).symm
  split
  · refine ⟨(xr_owned _ _).trans (by funext k; cases k <;> rfl), fun k => ?_⟩
    exact (hpacket k).trans (Int.add_zero _).symm
  · refine ⟨(other_owned _ _).trans (by funext k; cases k <;> rfl), fun k => ?_⟩
    exact (hpacket k).trans (Int.add_zero _).symm

/-- What clearing gives back for an element: all it owns but a sender report. -/
def RtcpCommon.released (rtcp : RtcpCommon) (k : Block) : Int :=
  if k = .sr then 0 else rtcp.owned k

section Destroying

variable (rtcp : RtcpCommon) (heap : Heap) (k : Block)

theorem destroyRR_heap : (destroyRtcpRR rtcp heap).2 k =
    heap k - if k = .rb then blocksAt rtcp.rb else 0 := by
  unfold destroyRtcpRR
  cases rtcp.rb <;> simp [free_apply]

theorem destroyNack_heap : (destroyRtcpNack rtcp heap).2 k =
    heap k - if k = .nack ∨ k = .nacks then blocksAt rtcp.nack else 0 := by
  unfold destroyRtcpNack
  cases rtcp.nack <;> cases k <;> simp [free_apply]

theorem destroyRpsi_heap : (destroyRtcpRpsi rtcp heap).2 k =
    heap k - if k = .rpsi then blocksAt rtcp.rpsi else 0 := by
  unfold destroyRtcpRpsi
  cases rtcp.rpsi <;> simp [free_apply]

theorem destroytwcc_heap : (destroyRtcptwcc rtcp heap).2 k =
    heap k - if k = .twcc ∨ k = .twccLists then blocksAt rtcp.twcc else 0 := by
  unfold destroyRtcptwcc
  cases rtcp.twcc <;> cases k <;> simp [free_apply]

/-- Each destructor drops one pointer. -/
theorem destroyRR_comm : (destroyRtcpRR rtcp heap).1 = { rtcp with rb := none } := by
  unfold destroyRtcpRR
  cases h : rtcp.rb with
  | none => simp [← h]
  | some rb => simp

theorem destroyNack_comm : (destroyRtcpNack rtcp heap).1 = { rtcp with nack := none } := by
  unfold destroyRtcpNack
  cases h : rtcp.nack with
  | none => simp [← h]
  | some nack => simp

theorem destroyRpsi_comm : (destroyRtcpRpsi rtcp heap).1 = { rtcp with rpsi := none } := by
  unfold destroyRtcpRpsi
  cases h : rtcp.rpsi with
  | none => simp [← h]
  | some rpsi => simp

theorem destroy_heap : (destroyRtcpCommon rtcp heap).2 k = heap k - rtcp.released k := by
  unfold destroyRtcpCommon destroyRtcpSR
  simp only [Bool.true_or, ite_true, destroytwcc_heap, destroyRpsi_heap, destroyNack_heap,
    destroyRR_heap, destroyRR_comm, destroyNack_comm, destroyRpsi_comm]
  cases k <;> simp [RtcpCommon.released, RtcpCommon.owned]

end Destroying

/-- The blocks of a kind that would be left if the vector were cleared. -/
def residue (rtcps : RtcpCompound) (heap : Heap) : Heap := (rtcpCompoundClear rtcps heap).2

theorem foldl_destroy (rtcps : List RtcpCommon) (heap : Heap) (k : Block) :
    rtcps.foldl (fun heap rtcp => (destroyRtcpCommon rtcp heap).2) heap k =
      heap k - (rtcps.map fun rtcp => rtcp.released k).sum := by
  induction rtcps generalizing heap with
  | nil => simp
  | cons rtcp rest ih =>
    rw [List.foldl_cons, ih, destroy_heap, List.map_cons, List.sum_cons]
    omega

theorem residue_eq (rtcps : RtcpCompound) (heap : Heap) (k : Block) :
    residue rtcps heap k = heap k - (rtcps.rtcpVector.map fun rtcp => rtcp.released k).sum :=
  foldl_destroy rtcps.rtcpVector heap k

end MetaRtc
