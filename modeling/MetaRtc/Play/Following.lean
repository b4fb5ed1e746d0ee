import MetaRtc.Play.Arrivals

/-! # From frame to frame

The track hands on what is there of a stream, frame by frame, and comes to rest at a packet
that is missing. -/
namespace MetaRtc

open Bytes Exec

namespace VideoStream

/-- The track waits for the packet `lost`: it has handed on what ends before `start`, and its
header is at `head`. A search that found no end of a frame in a full cache left the number
waited for as it was. -/
structure Rests (codec : PlayCodec) (v : VideoStream) (entry : Nat → Entry) (sink : FrameSink)
    (r : Nat) (rtpBuffer : RtpBuffer) (before : List Nat) (start head lost : Nat)
    (track : PlayTrackH2645) : Prop where
  slots : v.Slots codec entry r rtpBuffer track.cacheVideoPkts before start
  sink : v.handedOver codec entry sink start = .ret track.sink
  header : track.headerSn = v.seq head
  reached : v.Reached codec before start head lost
  begins : start < v.count → v.frameStart codec start = start
  missing : lost ∉ before
  headLe : head ≤ lost
  startLe : start ≤ head
  lost : track.lostSn = v.seq lost ∨ lost = start + 512

/-- From the place where it was the track went on over frames that are all there. -/
structure WentOn (codec : PlayCodec) (v : VideoStream) (before : List Nat) (start head : Nat)
    (keyFrameTs : Int) (start' head' : Nat) (track : PlayTrackH2645) : Prop where
  le : start ≤ start'
  stays : start' = start → head' = head ∧ track.keyFrameTs = keyFrameTs
  moves : start < start' → head' = start'
  covers : ∀ x, start ≤ x → x < start' → x ∈ before
  settled : start < start' → v.closes codec (start' - 1) = true ∨ start' ∈ before
  keyFrameTs : track.keyFrameTs = -1 ∨ track.keyFrameTs = keyFrameTs

/-- The track stops as the stream does, or comes to rest further on. -/
def ComesToRest (codec : PlayCodec) (v : VideoStream) (entry : Nat → Entry) (sink : FrameSink)
    (r : Nat) (rtpBuffer : RtpBuffer) (before : List Nat) (start head : Nat) (keyFrameTs : Int)
    (call : Call (Err × PlayTrackH2645)) : Prop :=
  Call.Settles call (v.handedOver codec entry sink v.count) fun result =>
    ∃ start' head' lost,
      v.Rests codec entry sink r rtpBuffer before start' head' lost result.2 ∧
        v.WentOn codec before start head keyFrameTs start' head' result.2

section Following

variable {codec : PlayCodec} {v : VideoStream} {entry : Nat → Entry} {r c start head : Nat}
  {rtpBuffer : RtpBuffer} {before : List Nat} {track : PlayTrackH2645} {sink : FrameSink}

theorem findNextLostSn_found (hv : v.Framed codec entry)
    (h : v.Slots codec entry r rtpBuffer track.cacheVideoPkts before start)
    (hp : ∀ x < v.count, Cacheable codec (v.marker x) (v.payload x) (entry x))
    (hb : ∀ x ∈ before, x < v.count) (hheader : track.headerSn = v.seq head) (hhead : start ≤ head)
    (hheaded : start ∈ before → head = start) (hc : head ≤ c) (hin : c ≤ start + 512)
    (hahead : ∀ x ∈ before, start < x → v.opens codec x = false)
    (hmark : ∀ x ∈ before, c ≤ x → v.opens codec x = true → v.marker x = false)
    (hfirst : head < c ∨ (head ∈ before → v.frameStart codec head = start))
    (hreached : v.Reached codec before start head c) :
    v.Found codec before start head (findNextLostSn track (v.seq c)) := by
  have hts : head ∈ before →
      (track.cacheVideoPkts (cacheIndex track.headerSn)).ts = v.timestamp head := by
    intro hmem
    rw [hheader, cacheIndex_seq]
    exact (h.held head hmem hhead).1.ts
  exact findNextLostLoop_found hv h hp hb hhead hheaded hc hahead hmark hfirst hts
    yangRtcRecvBufferCount 0 rfl hin hreached

/-- The frame is the slots from its first packet on. -/
theorem slots_heldAll {x : Nat}
    (h : v.Slots codec entry r rtpBuffer track.cacheVideoPkts before start)
    (hx : x ∈ before) (hstart : v.frameStart codec x = start)
    (hreached : v.Reached codec before start start x) :
    HeldAll codec rtpBuffer.buffer (v.timestamp x) track.cacheVideoPkts (v.seq start)
      (v.frame codec entry x) := by
  intro k hk
  have hle := frameStart_le codec v x
  rw [frame_length, hstart] at hk
  have hmem : start + k ∈ before := by
    by_cases hlast : start + k = x
    · rwa [hlast]
    · exact (hreached (start + k) (by omega) (by omega)).1
  have hheld := (h.held _ hmem (by omega)).1
  rw [(frameStart_between codec (x := x) (by omega) (by omega)).2] at hheld
  rw [frame_getElem, hstart, seq, cacheIndex_mod_add, Nat.add_assoc]
  exact hheld

theorem handsOver_new (hv : v.Framed codec entry) {x : Nat} (h : v.handsOver codec x = true)
    (hx : x + 1 < v.count) : v.timestamp (x + 1) ≠ v.timestamp x := by
  rcases Bool.or_eq_true_iff.mp h with hclose | hnew
  · exact hv.marker x hx (closes_marker hclose)
  · simp only [Bool.and_eq_true, decide_eq_true_eq] at hnew
    exact hnew.1.2

/-- Nothing is handed on inside a frame. -/
theorem handedOver_frame {x : Nat} (hstart : v.frameStart codec x = start)
    (hreached : v.Reached codec before start start x) :
    v.handedOver codec entry sink x = v.handedOver codec entry sink start := by
  apply handedOver_skip (hstart ▸ frameStart_le codec v x)
  intro k hk hk'
  apply handsOver_not (hreached k hk hk').2.2
  intro _
  refine .inl ?_
  rw [(frameStart_between codec (x := x) (y := k) (by omega) (by omega)).2,
    (frameStart_between codec (x := x) (y := k + 1) (by omega) (by omega)).2]

theorem wentOn_stays {keyFrameTs : Int} (hkf : track.keyFrameTs = keyFrameTs) :
    v.WentOn codec before start head keyFrameTs start head track where
  le := Nat.le_refl _
  stays := fun _ => ⟨rfl, hkf⟩
  moves := fun hlt => absurd hlt (Nat.lt_irrefl _)
  covers := fun _ hlo hhi => absurd hhi (Nat.not_lt.mpr hlo)
  settled := fun hlt => absurd hlt (Nat.lt_irrefl _)
  keyFrameTs := .inr hkf

theorem wentOn_trans {x lo start' head' : Nat} {keyFrameTs keyFrameTs' : Int} (hlo : lo < x + 1)
    (hcovers : ∀ y, lo ≤ y → y < x + 1 → y ∈ before)
    (hknown : v.closes codec x = true ∨ x + 1 ∈ before)
    (hkf : keyFrameTs' = -1 ∨ keyFrameTs' = keyFrameTs)
    (h : v.WentOn codec before (x + 1) (x + 1) keyFrameTs' start' head' track) :
    v.WentOn codec before lo lo keyFrameTs start' head' track where
  le := by
    have hle := h.le
    omega
  stays := by
    intro heq
    have hle := h.le
    omega
  moves := by
    intro _
    obtain heq | hlt := Nat.eq_or_lt_of_le h.le
    · rw [(h.stays heq.symm).1, heq]
    · exact h.moves hlt
  covers := by
    intro y hy hy'
    by_cases hin : y < x + 1
    · exact hcovers y hy hin
    · exact h.covers y (by omega) hy'
  settled := by
    intro _
    obtain rfl | hlt := Nat.eq_or_lt_of_le h.le
    · exact hknown
    · exact h.settled hlt
  keyFrameTs := by
    rcases h.keyFrameTs with hnone | hsame
    · exact .inl hnone
    · rw [hsame]
      exact hkf

/-- A search that finds no frame. -/
theorem follow_stays (n : Nat) {found : NextLost}
    (h : v.Slots codec entry r rtpBuffer track.cacheVideoPkts before start)
    (hsink : v.handedOver codec entry sink start = .ret track.sink)
    (hheader : track.headerSn = v.seq head) (hhead : start ≤ head)
    (hbegins : start < v.count → v.frameStart codec start = start)
    (hfound : v.Found codec before start head found) (hno : ∀ sn, found ≠ .frame sn) :
    v.ComesToRest codec entry sink r rtpBuffer before start head track.keyFrameTs
      (follow codec rtpBuffer.buffer n track found) := by
  cases hfound with
  | @lost x hle hmissing hreached =>
    exact .inr ⟨(yangOk, { track with lostSn := v.seq x }), rfl, start, head, x,
      ⟨h, hsink, hheader, hreached, hbegins, hmissing, hle, hhead, .inl rfl⟩, wentOn_stays rfl⟩
  | frame => exact absurd rfl (hno _)
  | overflow heq hreached =>
    have hmissing : start + 512 ∉ before := fun hmem => absurd (h.inside _ hmem) (by omega)
    exact .inr ⟨(errorRtcRtpMuxer, track), rfl, start, head, start + 512,
      ⟨h, hsink, hheader, hreached, hbegins, hmissing, by omega, hhead, .inr rfl⟩, wentOn_stays rfl⟩

/-- A frame that is there is handed on, and the search goes on behind it. -/
theorem follow_frame (hv : v.Framed codec entry) (hstap : StapByValue codec)
    (hp : ∀ x < v.count, Cacheable codec (v.marker x) (v.payload x) (entry x))
    (hb : ∀ x ∈ before, x < v.count) (n : Nat) {x : Nat}
    (h : v.Slots codec entry r rtpBuffer track.cacheVideoPkts before start)
    (hsink : v.handedOver codec entry sink start = .ret track.sink)
    (hheader : track.headerSn = v.seq start) (hx : x ∈ before)
    (hstart : v.frameStart codec x = start) (hreached : v.Reached codec before start start x)
    (hhands : v.handsOver codec x = true) :
    ∃ step : FrameSink → PlayTrackH2645,
      follow codec rtpBuffer.buffer (n + 1) track (.frame (v.seq x)) = (do
        let sink ← v.handedOver codec entry sink (x + 1)
        follow codec rtpBuffer.buffer n (step sink)
          (findNextLostSn (step sink) (v.seq (x + 1)))) ∧
      ∀ sink, v.Slots codec entry r rtpBuffer (step sink).cacheVideoPkts before (x + 1) ∧
        (step sink).sink = sink ∧ (step sink).headerSn = v.seq (x + 1) ∧
        ((step sink).keyFrameTs = -1 ∨ (step sink).keyFrameTs = track.keyFrameTs) := by
  have hle := frameStart_le codec v x
  have hin := h.inside x hx
  obtain ⟨es, hframe, hlen⟩ := frame_cons entry v x
  rw [hstart] at hframe hlen
  have hheld := slots_heldAll h hx hstart hreached
  have hcomplete := checkFrameComplete_held hheld (by rw [frame_length, hstart]; omega)
    (show x - start < 512 by omega) (Nat.mod_lt _ (by decide))
  rw [hv.whole x (hb x hx) (handsOver_new hv hhands), beq_self_eq_true, seq_add,
    show start + (x - start) = x by omega] at hcomplete
  have hmem : ∀ f ∈ v.frame codec entry x, f.bytes ≠ [] := by
    intro f hf
    obtain ⟨k, hk, rfl⟩ := List.mem_map.mp hf
    rw [List.mem_range] at hk
    exact (hp _ (Nat.lt_of_le_of_lt (by omega) (hb x hx))).bytes
  have hlead := (hp start (Nat.lt_of_le_of_lt (by omega) (hb x hx))).stap
  rw [hframe] at hheld hmem
  obtain ⟨cache, hr, hvideo⟩ := packetVideo_frame hstap n track hmem hheld
    (by rw [List.length_cons]; omega) (Nat.mod_lt _ (by decide)) hlead
  rw [hlen] at hr hvideo
  rw [seq_add, show start + (x - start) = x by omega, seq_add, ← hframe] at hvideo
  refine ⟨fun sink => { track with
    keyFrameTs := if (entry start).key codec then -1 else track.keyFrameTs
    cacheVideoPkts := cache
    videoBuffer := sink.videoBuffer
    frames := sink.frames
    headerSn := v.seq (x + 1) }, ?_, fun sink => ⟨?_, rfl, rfl, ?_⟩⟩
  · rw [handedOver, if_pos hhands, handedOver_frame hstart hreached, hsink, Call.ret_bind]
    rw [follow, hheader, hcomplete, if_pos rfl, hvideo]
  · have hslots := slots_released h hr (by omega)
    rwa [show start + (x - start + 1) = x + 1 by omega] at hslots
  · dsimp only
    split
    · exact .inl rfl
    · exact .inr rfl

/-- All frames that are there are handed on, one after the other. -/
theorem follow_rests (hv : v.Framed codec entry) (hstap : StapByValue codec)
    (hp : ∀ x < v.count, Cacheable codec (v.marker x) (v.payload x) (entry x))
    (hb : ∀ x ∈ before, x < v.count) (n : Nat) {found : NextLost}
    (h : v.Slots codec entry r rtpBuffer track.cacheVideoPkts before start)
    (hsink : v.handedOver codec entry sink start = .ret track.sink)
    (hheader : track.headerSn = v.seq head) (hhead : start ≤ head)
    (hbegins : start < v.count → v.frameStart codec start = start)
    (hahead : ∀ x ∈ before, start < x → v.opens codec x = false)
    (hbehind : head ≠ start → ∀ x ∈ before, start ≤ x →
      x + 1 < v.count ∧ v.frameStart codec (x + 1) = start)
    (hfound : v.Found codec before start head found) (hbound : ∀ x ∈ before, x < start + n) :
    v.ComesToRest codec entry sink r rtpBuffer before start head track.keyFrameTs
      (follow codec rtpBuffer.buffer n track found) := by
  induction n generalizing track start head found with
  | zero =>
    cases hfound with
    | @lost x hle hx hreached =>
      exact follow_stays 0 h hsink hheader hhead hbegins (.lost hle hx hreached) nofun
    | overflow heq hreached =>
      exact follow_stays 0 h hsink hheader hhead hbegins (.overflow heq hreached) nofun
    | @frame x hle hx => exact absurd (hbound x hx) (by omega)
  | succ n ih =>
    cases hfound with
    | @lost x hle hx hreached =>
      exact follow_stays (n + 1) h hsink hheader hhead hbegins (.lost hle hx hreached) nofun
    | overflow heq hreached =>
      exact follow_stays (n + 1) h hsink hheader hhead hbegins (.overflow heq hreached) nofun
    | @frame x hle hx hstart hreached hhands hknown =>
      obtain rfl : head = start := by
        by_contra hne
        obtain ⟨hcount, hsame⟩ := hbehind hne x hx (by omega)
        rw [frameStart_new (handsOver_new hv hhands hcount)] at hsame
        omega
      obtain ⟨step, hfollow, hstep⟩ := follow_frame hv hstap hp hb n h hsink hheader hx hstart
        hreached hhands
      have hstop : ∀ {call : Call (Err × PlayTrackH2645)},
          Call.Stops call (v.handedOver codec entry sink (x + 1)) →
          v.ComesToRest codec entry sink r rtpBuffer before head head track.keyFrameTs call :=
        fun hs => .inl (handedOver_stops hs (hb x hx))
      rcases hnext : v.handedOver codec entry sink (x + 1) with sink' | _ | _
      · rw [hnext] at hfollow
        obtain ⟨hslots, hsame, hheader', hkf⟩ := hstep sink'
        have hahead' : ∀ y ∈ before, x + 1 < y → v.opens codec y = false :=
          fun y hy hlt => hahead y hy (by omega)
        have hmark : ∀ y ∈ before, x + 1 ≤ y → v.opens codec y = true → v.marker y = false := by
          intro y hy hle' hopen
          rw [hahead y hy (by omega)] at hopen
          cases hopen
        have hfound := findNextLostSn_found hv hslots hp hb hheader' (Nat.le_refl _)
          (fun _ => rfl) (Nat.le_refl _) (by omega) hahead' hmark
          (.inr fun hmem => frameStart_new (handsOver_new hv hhands (hb _ hmem)))
          (fun y hlo hhi => absurd hhi (Nat.not_lt.mpr hlo))
        have hall := ih hslots (hnext.trans (congrArg Call.ret hsame.symm)) hheader' (Nat.le_refl _)
          (fun hlt => frameStart_new (handsOver_new hv hhands hlt)) hahead'
          (fun hne => absurd rfl hne) hfound fun y hy => by
            have hlt := hbound y hy
            omega
        rw [hfollow]
        refine hall.imp_right ?_
        rintro ⟨result, hret, start', head', lost, hrests, hwent⟩
        have hcovers : ∀ y, head ≤ y → y < x + 1 → y ∈ before := by
          intro y hlo hhi
          by_cases hlast : y = x
          · rwa [hlast]
          · exact (hreached y hlo (by omega)).1
        exact ⟨result, hret, start', head', lost, hrests,
          wentOn_trans (Nat.lt_succ_of_le hle) hcovers hknown hkf hwent⟩
      · rw [hnext] at hfollow
        exact hstop (by rw [hfollow, hnext]; exact .blocked)
      · rw [hnext] at hfollow
        exact hstop (by rw [hfollow, hnext]; exact .crash)

end Following

end VideoStream

end MetaRtc
