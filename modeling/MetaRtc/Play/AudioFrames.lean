import MetaRtc.Play.Stream

/-! # The audio frames a run delivers

The buffer is asked whether it holds more than it is to keep back by a subtraction without
a sign, so it never keeps a frame back. -/
namespace MetaRtc

open Bytes

/-- A packet, and the memory its payload points into as it arrives. -/
structure AudioArrival where
  ring : Mem
  pkt : RtpPacket

/-- What the track makes of a packet that carries a payload. -/
def AudioArrival.frame (a : AudioArrival) : Option AudioFrame :=
  a.pkt.payload.map fun payload => ⟨a.ring.slice payload a.pkt.nb, a.pkt.header.timestamp⟩

def audioFrames (arrivals : List AudioArrival) : List AudioFrame :=
  arrivals.filterMap AudioArrival.frame

def audioOn (track : PlayTrackAudio) (arrivals : List AudioArrival) : PlayTrackAudio :=
  arrivals.foldl (fun track a => playtrackAudioOnRtp a.ring track a.pkt) track

/-- A run from the buffer as it is created. -/
def audioRun (arrivals : List AudioArrival) : PlayTrackAudio :=
  audioOn { sortBuffer := some {} } arrivals

/-- The buffer when the frame of a packet has been put into it. -/
def SortBuffer.put (buf : SortBuffer) (a : AudioArrival) : SortBuffer :=
  match a.frame with
  | none => buf
  | some f => sortBufferPutFrame buf f.pts f

def AudioIncreasing (arrivals : List AudioArrival) : Prop :=
  (audioRun arrivals).frames.Pairwise fun f g => f.pts < g.pts

def AudioCarried (arrivals : List AudioArrival) : Prop :=
  ∀ f ∈ (audioRun arrivals).frames, f ∈ audioFrames arrivals

/-- Whenever a packet makes a frame be delivered, more frames are queued than are to be
kept back. -/
def AudioHeld (arrivals : List AudioArrival) : Prop :=
  ∀ before a after buf, arrivals = before ++ a :: after →
    (audioRun before).sortBuffer = some buf →
    (audioRun (before ++ [a])).frames ≠ (audioRun before).frames →
    buf.cacheNum < (buf.put a).vsize

def AudioDistinct (arrivals : List AudioArrival) : Prop :=
  ∀ before after buf, arrivals = before ++ after → (audioRun before).sortBuffer = some buf →
    ∀ i j, i < buf.capacity → j < buf.capacity → buf.frames i = buf.frames j → i = j

def AudioOrdered (arrivals : List AudioArrival) : Prop :=
  AudioIncreasing arrivals ∧ AudioCarried arrivals ∧ AudioHeld arrivals ∧ AudioDistinct arrivals

/-- The buffer between two packets: empty, with the last frame it took still in the first
cell. -/
structure SortBuffer.Rests (buf : SortBuffer) (last : AudioFrame) : Prop where
  capacity : buf.capacity = 8
  cacheNum : buf.cacheNum = 3
  vsize : buf.vsize = 0
  frames : buf.frames = fun i => i
  lastPts : buf.lastPts = last.pts
  place : (buf.cells 0).payload = 0
  cell : (buf.cells 0).nb = last.payload.length ∧ (buf.cells 0).framePts = last.pts
  bytes : buf.bufferManager.slice 0 last.payload.length = last.payload

/-- The frame a packet makes be delivered: its own, unless that is no later than the last,
which then goes out again. -/
def audioNext (last f : AudioFrame) : AudioFrame := if last.pts < f.pts then f else last

def audioDelivered (last : AudioFrame) : List AudioFrame → List AudioFrame
  | [] => []
  | f :: fs => audioNext last f :: audioDelivered (audioNext last f) fs

/-- What lies in the first cell before anything is put there. -/
def blankFrame : AudioFrame := ⟨[], 0⟩

section Buffer

variable {buf : SortBuffer} {last f : AudioFrame}

theorem rests_created : SortBuffer.Rests {} blankFrame := by
  constructor <;> first | rfl | exact ⟨rfl, rfl⟩

/-- With a frame in the first cell. -/
def SortBuffer.holding (buf : SortBuffer) (f : AudioFrame) : SortBuffer :=
  { buf.fill 0 f.pts f with vsize := 1 }

theorem put_later (h : buf.Rests last) (hlater : last.pts < f.pts) :
    sortBufferPutFrame buf f.pts f = buf.holding f := by
  have hroom : ¬ buf.vsize ≥ buf.capacity := by
    rw [h.vsize, h.capacity]
    decide
  have hnew : ¬ f.pts ≤ buf.lastPts := by
    rw [h.lastPts]
    exact not_le.mpr hlater
  rw [sortBufferPutFrame, if_neg hroom, if_neg hnew, sortBufferInsert, if_pos h.vsize]
  rfl

theorem put_late (h : buf.Rests last) (hlate : ¬ last.pts < f.pts) :
    sortBufferPutFrame buf f.pts f = buf := by
  have hold : f.pts ≤ buf.lastPts := by
    rw [h.lastPts]
    exact not_lt.mp hlate
  rw [sortBufferPutFrame, if_pos hold, ite_self]

theorem put_size (h : buf.Rests last) (f : AudioFrame) :
    (sortBufferPutFrame buf f.pts f).vsize ≤ 1 := by
  by_cases hlater : last.pts < f.pts
  · rw [put_later h hlater]
    exact le_rfl
  · rw [put_late h hlater, h.vsize]
    exact Nat.zero_le 1

/-- With one frame or none there, the difference wraps round. -/
theorem not_short (hcache : buf.cacheNum = 3) (hsize : buf.vsize ≤ 1) : buf.short = false := by
  rw [SortBuffer.short, hcache]
  exact decide_eq_false (by omega)

theorem ref_first (hcache : buf.cacheNum = 3) (hsize : buf.vsize ≤ 1) :
    sortBufferGetCurFrameRef buf =
      some ⟨buf.bufferManager.slice (buf.at_ 0).payload (buf.at_ 0).nb, (buf.at_ 0).framePts⟩ := by
  rw [sortBufferGetCurFrameRef, not_short hcache hsize]
  rfl

/-- The first cell is the one its pointer starts with. -/
theorem rests_first (h : buf.Rests last) : buf.at_ 0 = buf.cells 0 :=
  congrArg buf.cells (congrFun h.frames 0)

theorem holding_cell (h : buf.Rests last) (f : AudioFrame) : (buf.holding f).cells 0 =
    ⟨f.pts, f.payload.length, f.pts, 0⟩ := by
  have hfirst : buf.frames 0 = 0 := congrFun h.frames 0
  change Function.update buf.cells (buf.frames 0) _ 0 = _
  rw [hfirst, Function.update_self, rests_first h, h.place]

theorem holding_first (h : buf.Rests last) (f : AudioFrame) : (buf.holding f).at_ 0 =
    ⟨f.pts, f.payload.length, f.pts, 0⟩ := by
  rw [← holding_cell h f]
  exact congrArg (buf.holding f).cells (congrFun h.frames 0)

theorem holding_bytes (h : buf.Rests last) (f : AudioFrame) :
    (buf.holding f).bufferManager.slice 0 f.payload.length = f.payload := by
  change (buf.bufferManager.write (buf.at_ 0).payload f.payload).slice 0 f.payload.length = _
  rw [rests_first h, h.place]
  exact Mem.slice_write _ _ _

theorem holding_removed (h : buf.Rests last) (f : AudioFrame) :
    sortBufferRemoveFirst (buf.holding f) =
      { buf.holding f with lastPts := f.pts, vsize := 0 } := by
  have hkept : ¬ ((buf.holding f).short = true ∨ (buf.holding f).vsize < 1) := by
    rintro (hshort | hnone)
    · rw [not_short (show (buf.holding f).cacheNum = 3 from h.cacheNum) le_rfl] at hshort
      cases hshort
    · exact absurd hnone (Nat.lt_irrefl 1)
  rw [sortBufferRemoveFirst, if_neg hkept, holding_first h]
  rfl

/-- A later frame goes through the first cell at once. -/
theorem later_frame (h : buf.Rests last) (hlater : last.pts < f.pts) :
    sortBufferGetCurFrameRef (sortBufferPutFrame buf f.pts f) = some f ∧
      (sortBufferRemoveFirst (sortBufferPutFrame buf f.pts f)).Rests f := by
  rw [put_later h hlater]
  constructor
  · rw [ref_first (show (buf.holding f).cacheNum = 3 from h.cacheNum) le_rfl, holding_first h,
      holding_bytes h]
  · rw [holding_removed h]
    have hcell := holding_cell h f
    exact
      { capacity := h.capacity
        cacheNum := h.cacheNum
        vsize := rfl
        frames := h.frames
        lastPts := rfl
        place := congrArg SortFrame.payload hcell
        cell := ⟨congrArg SortFrame.nb hcell, congrArg SortFrame.framePts hcell⟩
        bytes := holding_bytes h f }

/-- One that is not is dropped, and the last goes out once more. -/
theorem late_frame (h : buf.Rests last) (hlate : ¬ last.pts < f.pts) :
    sortBufferGetCurFrameRef (sortBufferPutFrame buf f.pts f) = some last ∧
      (sortBufferRemoveFirst (sortBufferPutFrame buf f.pts f)).Rests last := by
  rw [put_late h hlate]
  constructor
  · rw [ref_first h.cacheNum (h.vsize.trans_le (Nat.zero_le 1)), rests_first h, h.place,
      h.cell.1, h.cell.2, h.bytes]
  · rw [sortBufferRemoveFirst, if_pos (.inr (h.vsize.trans_lt Nat.one_pos))]
    exact h

theorem next_frame (h : buf.Rests last) (f : AudioFrame) :
    sortBufferGetCurFrameRef (sortBufferPutFrame buf f.pts f) = some (audioNext last f) ∧
      (sortBufferRemoveFirst (sortBufferPutFrame buf f.pts f)).Rests (audioNext last f) := by
  by_cases hlater : last.pts < f.pts
  · rw [audioNext, if_pos hlater]
    exact later_frame h hlater
  · rw [audioNext, if_neg hlater]
    exact late_frame h hlater

end Buffer

section Track

variable {buf : SortBuffer} {last f : AudioFrame} {fs frames : List AudioFrame}
variable {a : AudioArrival} {arrivals : List AudioArrival}

theorem onRtp_nothing (track : PlayTrackAudio) (h : a.frame = none) :
    playtrackAudioOnRtp a.ring track a.pkt = track := by
  have hpayload : a.pkt.payload = none := Option.map_eq_none_iff.mp h
  rw [playtrackAudioOnRtp, hpayload]

/-- The step over any buffer. Evaluated on this one, it counts up to the number of `short`. -/
theorem onRtp_with (putFrame : SortBuffer → Int → AudioFrame → SortBuffer)
    (get : SortBuffer → Option AudioFrame) (remove : SortBuffer → SortBuffer) {ring : Mem}
    {track : PlayTrackAudio} {pkt : RtpPacket} {payload : Nat} {put : SortBuffer}
    (hpayload : pkt.payload = some payload) (hbuf : track.sortBuffer = some buf)
    (hput : putFrame buf pkt.header.timestamp
      ⟨ring.slice payload pkt.nb, pkt.header.timestamp⟩ = put)
    (hget : get put = some f) :
    (match pkt.payload with
      | none => track
      | some payload =>
        let audioFrame : AudioFrame := ⟨ring.slice payload pkt.nb, pkt.header.timestamp⟩
        match track.sortBuffer with
        | none => { track with frames := track.frames ++ [audioFrame] }
        | some buf =>
          let buf := putFrame buf audioFrame.pts audioFrame
          match get buf with
          | none => { track with sortBuffer := some buf }
          | some frame =>
            { sortBuffer := some (remove buf), frames := track.frames ++ [frame] }) =
      ⟨some (remove put), track.frames ++ [f]⟩ := by
  rw [hpayload]
  dsimp only
  rw [hbuf]
  dsimp only
  rw [hput, hget]

theorem onRtp_taken {ring : Mem} {track : PlayTrackAudio} {pkt : RtpPacket} {payload : Nat}
    {put : SortBuffer} (hpayload : pkt.payload = some payload) (hbuf : track.sortBuffer = some buf)
    (hput : sortBufferPutFrame buf pkt.header.timestamp
      ⟨ring.slice payload pkt.nb, pkt.header.timestamp⟩ = put)
    (hget : sortBufferGetCurFrameRef put = some f) :
    playtrackAudioOnRtp ring track pkt =
      ⟨some (sortBufferRemoveFirst put), track.frames ++ [f]⟩ :=
  onRtp_with sortBufferPutFrame sortBufferGetCurFrameRef sortBufferRemoveFirst hpayload hbuf
    hput hget

theorem onRtp_frame (h : buf.Rests last) (hf : a.frame = some f) (frames : List AudioFrame) :
    ∃ rest, playtrackAudioOnRtp a.ring ⟨some buf, frames⟩ a.pkt =
      ⟨some rest, frames ++ [audioNext last f]⟩ ∧ rest.Rests (audioNext last f) := by
  obtain ⟨hframe, hrests⟩ := next_frame h f
  obtain ⟨payload, hpayload, hvalue⟩ := Option.map_eq_some_iff.mp hf
  have hpts : (a.pkt.header.timestamp : Int) = f.pts := congrArg AudioFrame.pts hvalue
  refine ⟨_, onRtp_taken hpayload rfl ?_ hframe, hrests⟩
  rw [hvalue, hpts]

/-- Every packet with a payload makes one frame be delivered. -/
theorem audioOn_delivers (h : buf.Rests last) (frames : List AudioFrame)
    (arrivals : List AudioArrival) :
    ∃ rest last', audioOn ⟨some buf, frames⟩ arrivals =
      ⟨some rest, frames ++ audioDelivered last (audioFrames arrivals)⟩ ∧ rest.Rests last' := by
  induction arrivals generalizing buf last frames with
  | nil =>
    refine ⟨buf, last, ?_, h⟩
    rw [audioFrames, List.filterMap_nil, audioDelivered, List.append_nil]
    rfl
  | cons a arrivals ih =>
    have hstep : audioOn ⟨some buf, frames⟩ (a :: arrivals) =
        audioOn (playtrackAudioOnRtp a.ring ⟨some buf, frames⟩ a.pkt) arrivals := rfl
    cases hf : a.frame with
    | none =>
      rw [hstep, onRtp_nothing _ hf, audioFrames, List.filterMap_cons_none hf]
      exact ih h frames
    | some f =>
      obtain ⟨next, hnext, hrests⟩ := onRtp_frame h hf frames
      obtain ⟨rest, last', hrest, hlast⟩ := ih hrests (frames ++ [audioNext last f])
      refine ⟨rest, last', ?_, hlast⟩
      have hcons : audioFrames (a :: arrivals) = f :: audioFrames arrivals :=
        List.filterMap_cons_some hf
      rw [hstep, hnext, hrest, hcons, audioDelivered, List.append_assoc]
      rfl

theorem audioRun_delivers (arrivals : List AudioArrival) :
    ∃ buf last, audioRun arrivals =
      ⟨some buf, audioDelivered blankFrame (audioFrames arrivals)⟩ ∧ buf.Rests last := by
  obtain ⟨buf, last, hrun, hrests⟩ := audioOn_delivers rests_created [] arrivals
  exact ⟨buf, last, hrun, hrests⟩

theorem audioRun_frames (arrivals : List AudioArrival) :
    (audioRun arrivals).frames = audioDelivered blankFrame (audioFrames arrivals) := by
  obtain ⟨buf, last, hrun, -⟩ := audioRun_delivers arrivals
  rw [hrun]

theorem audioRun_rests (h : (audioRun arrivals).sortBuffer = some buf) :
    ∃ last, buf.Rests last := by
  obtain ⟨rest, last, hrun, hrests⟩ := audioRun_delivers arrivals
  rw [hrun] at h
  cases h
  exact ⟨last, hrests⟩

theorem delivered_length (last : AudioFrame) (fs : List AudioFrame) :
    (audioDelivered last fs).length = fs.length := by
  induction fs generalizing last with
  | nil => rfl
  | cons f fs ih => rw [audioDelivered, List.length_cons, List.length_cons, ih]

/-- The pointers stay where they are. -/
theorem audio_distinct (arrivals : List AudioArrival) : AudioDistinct arrivals := by
  intro before after buf _ hbuf i j _ _ hij
  obtain ⟨last, hrests⟩ := audioRun_rests hbuf
  rw [hrests.frames] at hij
  exact hij

theorem audioFrames_append (xs ys : List AudioArrival) :
    audioFrames (xs ++ ys) = audioFrames xs ++ audioFrames ys := List.filterMap_append

/-- Each time a frame is delivered, none or its own is queued. -/
theorem audio_held : AudioHeld arrivals ↔ audioFrames arrivals = [] := by
  constructor
  · intro hheld
    refine List.filterMap_eq_nil_iff.mpr fun a ha => ?_
    by_contra hframe
    obtain ⟨f, hf⟩ := Option.ne_none_iff_exists'.mp hframe
    obtain ⟨before, after, hsplit⟩ := List.append_of_mem ha
    obtain ⟨buf, last, hrun, hrests⟩ := audioRun_delivers before
    have hbuf : (audioRun before).sortBuffer = some buf := by rw [hrun]
    have hone : audioFrames [a] = [f] := List.filterMap_cons_some hf
    have hmore : (audioRun (before ++ [a])).frames ≠ (audioRun before).frames := by
      intro hsame
      have hlength := congrArg List.length hsame
      rw [audioRun_frames, audioRun_frames, delivered_length, delivered_length,
        audioFrames_append, hone, List.length_append] at hlength
      exact absurd hlength (Nat.succ_ne_self _)
    have hqueued := hheld before a after buf hsplit hbuf hmore
    have hput : buf.put a = sortBufferPutFrame buf f.pts f := by rw [SortBuffer.put, hf]
    have hsize := put_size hrests f
    rw [hput, hrests.cacheNum] at hqueued
    omega
  · intro hnone before a after buf hsplit hbuf hmore
    rw [hsplit, List.append_cons, audioFrames_append, List.append_eq_nil_iff] at hnone
    have hbefore := hnone.1
    rw [audioFrames_append, List.append_eq_nil_iff] at hbefore
    refine absurd ?_ hmore
    rw [audioRun_frames, audioRun_frames, hnone.1, hbefore.1]

theorem increasing_step (g : AudioFrame) (fs : List AudioFrame) :
    ((g :: audioDelivered g fs).IsChain fun f g => f.pts < g.pts) ↔
      (g :: fs).IsChain fun f g => f.pts < g.pts := by
  induction fs generalizing g with
  | nil => rfl
  | cons f fs ih =>
    rw [audioDelivered, List.isChain_cons_cons, List.isChain_cons_cons]
    by_cases hlater : g.pts < f.pts
    · rw [audioNext, if_pos hlater, ih]
    · rw [audioNext, if_neg hlater]
      exact iff_of_false (fun h => absurd h.1 (lt_irrefl _)) (fun h => hlater h.1)

instance : IsTrans AudioFrame fun f g => f.pts < g.pts := ⟨fun _ _ _ => lt_trans⟩

theorem audioFrames_pts (arrivals : List AudioArrival) : ∀ f ∈ audioFrames arrivals, 0 ≤ f.pts := by
  intro f hf
  obtain ⟨a, -, ha⟩ := List.mem_filterMap.mp hf
  obtain ⟨payload, -, rfl⟩ := Option.map_eq_some_iff.mp ha
  exact Int.natCast_nonneg _

/-- The timestamps go out in order if they come in in order, and only then. -/
theorem audio_increasing : AudioIncreasing arrivals ↔
    (audioFrames arrivals).Pairwise fun f g => f.pts < g.pts := by
  have hpts := audioFrames_pts arrivals
  rw [AudioIncreasing, audioRun_frames, ← List.isChain_iff_pairwise, ← List.isChain_iff_pairwise]
  cases hframes : audioFrames arrivals with
  | nil => rfl
  | cons f fs =>
    rw [hframes] at hpts
    rw [audioDelivered, increasing_step]
    by_cases hlater : blankFrame.pts < f.pts
    · rw [audioNext, if_pos hlater]
    · have hzero : blankFrame.pts = f.pts :=
        le_antisymm (hpts f List.mem_cons_self) (not_lt.mp hlater)
      rw [audioNext, if_neg hlater]
      cases fs with
      | nil => exact iff_of_true (List.isChain_singleton _) (List.isChain_singleton _)
      | cons g fs => rw [List.isChain_cons_cons, List.isChain_cons_cons, hzero]

theorem delivered_mem {g : AudioFrame} (last : AudioFrame) (h : g ∈ audioDelivered last fs) :
    g = last ∨ g ∈ fs := by
  induction fs generalizing last with
  | nil => cases h
  | cons f fs ih =>
    have hnext : audioNext last f = last ∨ audioNext last f = f := by
      unfold audioNext
      split
      · exact .inr rfl
      · exact .inl rfl
    rcases List.mem_cons.mp h with rfl | hrest
    · rcases hnext with hlast | hf
      · exact .inl hlast
      · exact .inr (List.mem_cons.mpr (.inl hf))
    · rcases ih (audioNext last f) hrest with rfl | hfs
      · rcases hnext with hlast | hf
        · exact .inl hlast
        · exact .inr (List.mem_cons.mpr (.inl hf))
      · exact .inr (List.mem_cons_of_mem _ hfs)

/-- What goes out has been put, unless the first packet comes at the time zero: the cell is
then delivered as it was made. -/
theorem audio_carried : AudioCarried arrivals ↔
    (∀ f ∈ (audioFrames arrivals).head?, 0 < f.pts) ∨ blankFrame ∈ audioFrames arrivals := by
  rw [AudioCarried, audioRun_frames]
  cases audioFrames arrivals with
  | nil => exact iff_of_true (fun _ h => absurd h List.not_mem_nil) (.inl fun _ h => by cases h)
  | cons f fs =>
    constructor
    · intro hcarried
      by_cases hlater : blankFrame.pts < f.pts
      · left
        intro g hg
        cases hg
        exact hlater
      · right
        have hfirst := hcarried (audioNext blankFrame f) List.mem_cons_self
        rw [audioNext, if_neg hlater] at hfirst
        exact hfirst
    · rintro (hlater | hblank) g hg
      · have hnext : audioNext blankFrame f = f := if_pos (hlater f rfl)
        rw [audioDelivered, hnext] at hg
        rcases List.mem_cons.mp hg with rfl | hrest
        · exact List.mem_cons_self
        · rcases delivered_mem f hrest with rfl | hfs
          · exact List.mem_cons_self
          · exact List.mem_cons_of_mem _ hfs
      · rcases delivered_mem blankFrame hg with rfl | hfs
        · exact hblank
        · exact hfs

/-- A run is delivered in order, with every frame kept back and carried as it should be, only
if nothing is delivered at all. -/
theorem audio_ordered (arrivals : List AudioArrival) :
    (AudioOrdered arrivals ↔ ∀ a ∈ arrivals, a.pkt.payload = none) ∧
      AudioDistinct arrivals ∧
      (AudioIncreasing arrivals ↔ (audioFrames arrivals).Pairwise fun f g => f.pts < g.pts) ∧
      (AudioCarried arrivals ↔
        (∀ f ∈ (audioFrames arrivals).head?, 0 < f.pts) ∨ blankFrame ∈ audioFrames arrivals) := by
  have hsilent : (∀ a ∈ arrivals, a.pkt.payload = none) ↔ audioFrames arrivals = [] := by
    rw [audioFrames, List.filterMap_eq_nil_iff]
    exact forall₂_congr fun a _ => Option.map_eq_none_iff.symm
  refine ⟨?_, audio_distinct arrivals, audio_increasing, audio_carried⟩
  rw [hsilent]
  constructor
  · rintro ⟨-, -, hheld, -⟩
    exact audio_held.mp hheld
  · intro hnone
    have hincreasing : AudioIncreasing arrivals := by
      rw [audio_increasing, hnone]
      exact List.Pairwise.nil
    have hcarried : AudioCarried arrivals := by
      rw [audio_carried, hnone]
      exact .inl fun _ h => by cases h
    exact ⟨hincreasing, hcarried, audio_held.mpr hnone, audio_distinct arrivals⟩

/-- A packet at the time 960, and another late by half of that. -/
def audioArrival (timestamp : Nat) (b : UInt8) : AudioArrival :=
  ⟨ofList [b], { header := { timestamp }, payload := some 0, nb := 1 }⟩

theorem late_delivered_again :
    (audioRun [audioArrival 960 1, audioArrival 480 2]).frames = [⟨[1], 960⟩, ⟨[1], 960⟩] ∧
      ¬ AudioOrdered [audioArrival 960 1, audioArrival 480 2] := by
  constructor
  · rw [audioRun_frames]
    decide
  · rintro ⟨-, -, hheld, -⟩
    have hnone := audio_held.mp hheld
    revert hnone
    decide

end Track

end MetaRtc
