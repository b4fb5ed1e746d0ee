import MetaRtc.Play.Arrive

/-! # What each packet adds to a frame

A packet adds a fragment of a unit, or whole units, or nothing. What is written of a frame
depends on its packets only through that. -/
namespace MetaRtc

open Bytes Exec

inductive Piece where
  | fragment (fua2 : Fua2DataCache) (bytes : List UInt8)
  | units (nalus : List (List UInt8))

/-- What a cached packet adds to its frame. -/
def pieceOf (codec : PlayCodec) (ring : Mem) (pkt : PacketCache) : Piece :=
  match pkt.payload with
  | none => .units []
  | some p =>
    if pkt.naluType = codec.fuA ∧ pkt.nb > 0 then .fragment pkt.fua2 (ring.slice p pkt.nb)
    else if pkt.naluType = codec.stapA then
      .units (((codec.decodeStap (initBuffer (ring.drop p) pkt.nb) {}).2.1.nalus.filter
        fun sample => sample.nb > 0).map YangSample.bytes)
    else if pkt.nb > 0 then .units [ring.slice p pkt.nb]
    else .units []

/-- What the packets of a frame add from the `i`-th on, each slot as its turn finds it. -/
def piecesFrom (codec : PlayCodec) (ring : Mem) (start : Nat) (cache : Nat → PacketCache) :
    Nat → Nat → List Piece
  | 0, _ => []
  | n + 1, i => pieceOf codec ring (releaseAll codec start cache i (cacheIndex (start + i))) ::
      piecesFrom codec ring start cache n (i + 1)

def framePieces (codec : PlayCodec) (ring : Mem) (track : PlayTrackH2645) (start last : Nat) :
    List Piece :=
  piecesFrom codec ring start track.cacheVideoPkts (frameCount start last) 0

namespace Output

def putUnits (out : Output) : List (List UInt8) → Call Output
  | [] => .ret out
  | nalu :: rest => do
    let out ← out.putNalu nalu
    out.putUnits rest

def putPiece (codec : PlayCodec) (out : Output) : Piece → Call Output
  | .fragment fua2 bytes => out.putFua2 codec fua2 bytes
  | .units nalus => out.putUnits nalus

def putPieces (codec : PlayCodec) (out : Output) : List Piece → Call Output
  | [] => .ret out
  | piece :: rest => do
    let out ← out.putPiece codec piece
    out.putPieces codec rest

end Output

section Writing

variable {codec : PlayCodec} {ring : Mem} {start last n i nb : Nat}
  {cache cache₁ : Nat → PacketCache} {out out' : Output} {track track' : PlayTrackH2645}

theorem putStap_units (out : Output) (nalus : List YangSample) :
    out.putStap nalus =
      out.putUnits ((nalus.filter fun sample => sample.nb > 0).map YangSample.bytes) := by
  induction nalus generalizing out with
  | nil => rfl
  | cons sample rest ih =>
    by_cases hnb : sample.nb > 0
    · simp only [Output.putStap, hnb, if_true, decide_true, List.filter_cons_of_pos, List.map_cons,
        Output.putUnits, ih]
    · simp only [Output.putStap, hnb, if_false, Call.ret_bind, decide_false, Bool.false_eq_true,
        not_false_eq_true, List.filter_cons_of_neg, ih]

theorem packetOne_piece (h : packetOne codec ring start i cache out = .ret (cache₁, out')) :
    out.putPiece codec (pieceOf codec ring (cache (cacheIndex (start + i)))) = .ret out' := by
  simp only [packetOne] at h
  unfold pieceOf
  split at h
  · rename_i hfu
    obtain ⟨p, hp, h⟩ := Call.bind_eq_ret.mp h
    obtain ⟨mid, hput, hret⟩ := Call.bind_eq_ret.mp h
    cases hret
    rw [Call.deref_eq_ret.mp hp]
    simp only [hfu, and_self, if_true]
    exact hput
  · rename_i hfu
    split at h
    · rename_i hst
      obtain ⟨p, hp, h⟩ := Call.bind_eq_ret.mp h
      obtain ⟨mid, hput, hret⟩ := Call.bind_eq_ret.mp h
      cases hret
      rw [Call.deref_eq_ret.mp hp]
      dsimp only at hfu hst ⊢
      rw [if_neg hfu, if_pos hst]
      exact (putStap_units _ _).symm.trans hput
    · rename_i hst
      split at h
      · rename_i p hp
        rw [hp]
        simp only [hfu, hst, if_false]
        split at h
        · rename_i hnb
          obtain ⟨mid, hput, hret⟩ := Call.bind_eq_ret.mp h
          cases hret
          rw [if_pos hnb]
          simp only [Output.putPiece, Output.putUnits, hput, Call.ret_bind]
        · rename_i hnb
          obtain ⟨mid, -, hret⟩ := Call.bind_eq_ret.mp h
          cases hret
          rw [if_neg hnb]
          rfl
      · rename_i hp
        obtain ⟨mid, -, hret⟩ := Call.bind_eq_ret.mp h
        cases hret
        rw [hp]
        rfl

/-- The loop over the packets writes their pieces. -/
theorem assembleLoop_pieces
    (h : assembleLoop codec ring start n i (releaseAll codec start cache i) out =
      .ret (cache₁, out')) :
    out.putPieces codec (piecesFrom codec ring start cache n i) = .ret out' := by
  induction n generalizing i out with
  | zero =>
    cases h
    rfl
  | succ n ih =>
    obtain ⟨⟨cache₂, mid⟩, hone, hrest⟩ := Call.bind_eq_ret.mp h
    dsimp only at hrest
    rw [packetOne_release hone] at hrest
    rw [piecesFrom, Output.putPieces, packetOne_piece hone, Call.ret_bind]
    exact ih hrest

/-- A frame is its head and the pieces of its packets. -/
theorem assembleFrame_pieces
    (h : assembleFrame codec ring track start last = .ret (track', nb)) : ∃ tag buffer out,
    track.videoBuffer.write 0 [tag, 0x01, 0x00, 0x00, 0x00] = .ret buffer ∧
      (⟨buffer, 5, 0⟩ : Output).putPieces codec (framePieces codec ring track start last) =
        .ret out ∧
      track'.videoBuffer = out.buffer ∧ nb = out.p := by
  obtain ⟨key, -, h⟩ := Call.bind_eq_ret.mp h
  obtain ⟨buffer, hwrite, h⟩ := Call.bind_eq_ret.mp h
  obtain ⟨⟨cache, out⟩, hloop, hret⟩ := Call.bind_eq_ret.mp h
  cases hret
  cases key with
  | true => exact ⟨codec.keyTag, buffer, out, hwrite, assembleLoop_pieces hloop, rfl, rfl⟩
  | false => exact ⟨codec.interTag, buffer, out, hwrite, assembleLoop_pieces hloop, rfl, rfl⟩

end Writing

section Single

/-- A frame in one packet. -/
def onlyUnit : RtpUnit :=
  ⟨{ payloadType := 96, sequence := 0, ssrc := 2, marker := true }, [0x41, 9]⟩

/-- The only packet of a frame that is complete at once is all that is assembled. -/
theorem onlyUnit_assembling {ring : Mem} {t : PlayTrackH2645} {s l : Nat}
    (h : (unitEvent onlyUnit).Assembling playH264 listeningPlay ring t s l) :
    framePieces playH264 ring t s l = [.units [[0x41, 9]]] := by
  obtain ⟨track, sn, tailSn, ⟨plaintext, pkt, hplain, hpkt, rfl, harrive⟩, hsearch, -, hcalls⟩ := h
  rw [unitEvent_plaintext] at hplain
  obtain rfl := Option.some.inj hplain
  obtain ⟨pkt', hpkt', t₀, ht₀, hframe, hpieces, hheader, t₁, nb, hasm, t₂, hput, hnext⟩ :
      ∃ pkt', videoPacket listeningPlay onlyUnit.bytes = some pkt' ∧
      ∃ t₀, playtrackArrive playH264 [2] (copied listeningPlay onlyUnit.bytes).rtpBuffer.buffer
        listeningPlay.stream.track pkt' = .ret (t₀, some 0) ∧ findNextLostSn t₀ 0 = .frame 0 ∧
      framePieces playH264 (copied listeningPlay onlyUnit.bytes).rtpBuffer.buffer t₀ 0 0 =
        [.units [[0x41, 9]]] ∧ t₀.headerSn = 0 ∧
      ∃ t₁ nb, assembleFrame playH264 (copied listeningPlay onlyUnit.bytes).rtpBuffer.buffer t₀ 0 0
        = .ret (t₁, nb) ∧
      ∃ t₂, putFrameVideo t₁ (t₀.cacheVideoPkts (cacheIndex 0)).ts nb = .ret t₂ ∧
        findNextLostSn { t₂ with headerSn := 1 } 1 = .lost 1 :=
    ⟨_, rfl, _, rfl, rfl, rfl, rfl, _, _, rfl, _, rfl, rfl⟩
  obtain rfl := Option.some.inj (hpkt.symm.trans hpkt')
  cases harrive.symm.trans ht₀
  cases hsearch.symm.trans hframe
  rw [hheader] at hcalls
  cases hcalls with
  | here => exact hpieces
  | next hasm' hput' hfind _ _ =>
    cases hasm'.symm.trans hasm
    cases hput'.symm.trans hput
    cases hfind.symm.trans hnext

end Single

end MetaRtc
