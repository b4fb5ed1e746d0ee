import MetaRtc.Rtcp.Feedback

/-! # The packer of the symbols on its own

Symbols are fed one by one, and the chunk that is still open at the end is put away. -/
namespace MetaRtc

/-- The first error ends it. -/
def twccPack : List Nat → RecvTwccFeedback → RtcpTWCCChunk → Err × RecvTwccFeedback × RtcpTWCCChunk
  | [], twcc, chunk => (yangOk, twcc, chunk)
  | deltaSize :: rest, twcc, chunk =>
    let (err, twcc, chunk) := twccProcessPktChunk twcc chunk deltaSize
    if err ≠ yangOk then (err, twcc, chunk) else twccPack rest twcc chunk

def twccPackAll (syms : List Nat) (twcc : RecvTwccFeedback) (chunk : RtcpTWCCChunk) :
    Err × RecvTwccFeedback :=
  let (err, twcc, chunk) := twccPack syms twcc chunk
  if err ≠ yangOk then (err, twcc)
  else if 0 < chunk.size then twccEncodeRemainingChunk twcc chunk else (yangOk, twcc)

/-- The limit of the packet is not reached at any of the symbols. -/
def RoomThroughout : List Nat → RecvTwccFeedback → RtcpTWCCChunk → Prop
  | [], _, _ => True
  | deltaSize :: rest, twcc, chunk =>
    HasRoom twcc chunk deltaSize ∧ RoomThroughout rest
      (twccProcessPktChunk twcc chunk deltaSize).2.1 (twccProcessPktChunk twcc chunk deltaSize).2.2

instance : ∀ (syms : List Nat) (twcc : RecvTwccFeedback) (chunk : RtcpTWCCChunk),
    Decidable (RoomThroughout syms twcc chunk)
  | [], _, _ => isTrue trivial
  | _ :: rest, _, _ => @instDecidableAnd _ _ _ (instDecidableRoomThroughout rest _ _)

/-- What the chunks expand to. The last of them may be a vector with places left over, which are
fewer than seven and stand for nothing received: the count of the message leaves them out. -/
def ExpandsTo (chucks syms : List Nat) : Prop :=
  ∃ unused < 7, chucks.flatMap chunkSymbols = syms ++ List.replicate unused 0

section Packing

variable {twcc : RecvTwccFeedback} {chunk : RtcpTWCCChunk} {syms packed : List Nat}

/-- Where there is room, what was packed before goes on to be packed. -/
theorem Packed.pack (h : Packed twcc.encodedChucks chunk packed) (hsyms : ∀ d ∈ syms, d < 3)
    (hroom : RoomThroughout syms twcc chunk) : ∃ chucks chunk',
      twccPack syms twcc chunk = (yangOk, twcc.insertChunks chucks, chunk') ∧
      (∀ c ∈ chucks, c < 65536) ∧
      Packed (twcc.insertChunks chucks).encodedChucks chunk' (packed ++ syms) := by
  induction syms generalizing twcc chunk packed with
  | nil => exact ⟨[], chunk, by simp [twccPack, RecvTwccFeedback.insertChunks], by simp,
      by simpa [RecvTwccFeedback.insertChunks] using h⟩
  | cons d syms ih =>
    obtain ⟨hd, hrest⟩ := List.forall_mem_cons.mp hsyms
    obtain ⟨chucks, chunk₁, hone, hwords, hpacked⟩ := h.process hd hroom.1
    obtain ⟨more, chunk', hpack, hwords', hpacked'⟩ := ih hpacked hrest (by
      simpa only [hone] using hroom.2)
    refine ⟨chucks ++ more, chunk', ?_, ?_, ?_⟩
    · simp only [twccPack, hone, ne_eq, not_true_eq_false, if_false, hpack]
      simp [RecvTwccFeedback.insertChunks, Nat.add_mul, Nat.add_assoc]
    · intro c hc
      rcases List.mem_append.mp hc with hc | hc
      · exact hwords c hc
      · exact hwords' c hc
    · simpa [RecvTwccFeedback.insertChunks] using hpacked'

end Packing

/-- Whatever the record holds already, the chunks put behind it expand to the symbols fed. -/
theorem pack_expands (twcc : RecvTwccFeedback) {chunk : RtcpTWCCChunk} {syms : List Nat}
    (hempty : chunk.Unfilled) (hsyms : ∀ d ∈ syms, d < 3)
    (hroom : RoomThroughout syms twcc chunk) : ∃ twcc' chucks,
      twccPackAll syms twcc chunk = (yangOk, twcc') ∧
      twcc'.encodedChucks = twcc.encodedChucks ++ chucks ∧ (∀ c ∈ chucks, c < 65536) ∧
      ExpandsTo chucks syms := by
  have hbefore : Packed twcc.encodedChucks chunk (twcc.encodedChucks.flatMap chunkSymbols) :=
    ⟨[], List.append_nil _, .of_unfilled hempty⟩
  obtain ⟨chucks, chunk', hpack, hwords, hpacked⟩ := hbefore.pack hsyms hroom
  obtain ⟨last, unused, hunused, hrem, hwords', hflat⟩ := Packed.remaining _ hpacked
  refine ⟨(twcc.insertChunks chucks).insertChunks last, chucks ++ last, ?_, ?_, ?_, unused,
    hunused, ?_⟩
  · simp only [twccPackAll, hpack, ne_eq, not_true_eq_false, if_false, hrem]
  · simp [RecvTwccFeedback.insertChunks]
  · intro c hc
    rcases List.mem_append.mp hc with hc | hc
    · exact hwords c hc
    · exact hwords' c hc
  · simpa [RecvTwccFeedback.insertChunks] using hflat

theorem pack_expands_three : ∃ twcc' chucks,
    twccPackAll [1, 0, 2] {} ⟨fun _ => 0, 0, true, false⟩ = (yangOk, twcc') ∧
    twcc'.encodedChucks = [] ++ chucks ∧ (∀ c ∈ chucks, c < 65536) ∧ ExpandsTo chucks [1, 0, 2] :=
  pack_expands {} (by decide) (by decide) (by decide)

end MetaRtc
