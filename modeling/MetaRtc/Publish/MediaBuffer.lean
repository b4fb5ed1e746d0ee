import MetaRtc.Lib.Bytes
import MetaRtc.Lib.Fifo
import MetaRtc.Lib.Run

/-! # The ring of encoded frames

A frame is copied into a slot and out of it. A reference is taken without a copy: its slot
counts as free from then on, and is written again when the ring is full. -/
namespace MetaRtc

open Bytes

structure MediaFrame where
  mediaType : Int
  uid : Int
  frametype : Int
  pts : Int
  dts : Int
  payload : List UInt8
  deriving DecidableEq

/-- A slot. Its bytes are kept at `payload`. -/
structure MediaSlot where
  mediaType : Int := 0
  uid : Int := 0
  frametype : Int := 0
  nb : Nat := 0
  pts : Int := 0
  dts : Int := 0
  payload : Nat

/-- The counters stay below `cacheNum`, so that 32 bits hold them. -/
structure MediaSession where
  putIndex : Nat
  getIndex : Nat
  cacheNum : Nat
  size : Nat
  frames : Nat → MediaSlot
  bufferManager : Mem

def mediaBufferInitFrames (pnum unitsize : Nat) : MediaSession :=
  ⟨0, 0, pnum, 0, fun i => { payload := i * unitsize }, fun _ => 0⟩

def frameCopyNobuffer (src : MediaFrame) (dst : MediaSlot) : MediaSlot :=
  { dst with
    mediaType := src.mediaType
    uid := src.uid
    frametype := src.frametype
    nb := src.payload.length
    pts := src.pts
    dts := src.dts }

/-- The frame a slot holds. -/
def MediaSession.frameAt (session : MediaSession) (i : Nat) : MediaFrame :=
  let slot := session.frames i
  { mediaType := slot.mediaType
    uid := slot.uid
    frametype := slot.frametype
    pts := slot.pts
    dts := slot.dts
    payload := session.bufferManager.slice slot.payload slot.nb }

/-- As much is copied as the frame says, whatever a slot has room for. -/
def mediaBufferPutFrame (session : MediaSession) (pframe : MediaFrame) : MediaSession :=
  if session.size ≥ session.cacheNum then session
  else
    let slot := session.frames session.putIndex
    let putIndex := session.putIndex + 1
    { session with
      frames := Function.update session.frames session.putIndex (frameCopyNobuffer pframe slot)
      bufferManager := session.bufferManager.write slot.payload pframe.payload
      putIndex := if putIndex ≥ session.cacheNum then 0 else putIndex
      size := session.size + 1 }

/-- What both ways of getting a frame do to the ring. -/
def MediaSession.taken (session : MediaSession) : MediaSession :=
  let getIndex := session.getIndex + 1
  { session with
    getIndex := if getIndex ≥ session.cacheNum then 0 else getIndex
    size := session.size - 1 }

def mediaBufferGetFrame (session : MediaSession) : Option MediaFrame × MediaSession :=
  if session.size = 0 then (none, session)
  else (some (session.frameAt session.getIndex), session.taken)

/-- What is said of the frame is copied, and where its bytes are is returned. -/
def mediaBufferGetFrameRef (session : MediaSession) : Option MediaSlot × MediaSession :=
  if session.size = 0 then (none, session)
  else (some (session.frames session.getIndex), session.taken)

inductive MediaCall where
  | putFrame (pframe : MediaFrame)
  | getFrame
  | getFrameRef

/-- A reference that was handed out, and the bytes that were there. -/
structure Lent where
  payload : Nat
  bytes : List UInt8

/-- The ring and the reference the last call to get a frame handed out. -/
structure MediaWorld where
  session : MediaSession
  lent : Option Lent

/-- A call, with the frame the caller has then before it. -/
def MediaWorld.call (w : MediaWorld) : MediaCall → Option MediaFrame × MediaWorld
  | .putFrame pframe => (none, { w with session := mediaBufferPutFrame w.session pframe })
  | .getFrame => ((mediaBufferGetFrame w.session).1, ⟨(mediaBufferGetFrame w.session).2, none⟩)
  | .getFrameRef =>
    match mediaBufferGetFrameRef w.session with
    | (none, session) => (none, ⟨session, none⟩)
    | (some slot, session) =>
      let bytes := session.bufferManager.slice slot.payload slot.nb
      (some ⟨slot.mediaType, slot.uid, slot.frametype, slot.pts, slot.dts, bytes⟩,
        ⟨session, some ⟨slot.payload, bytes⟩⟩)

/-- What a bounded queue does with the same calls. -/
def fifoCall (cap : Nat) (q : List MediaFrame) : MediaCall → Option MediaFrame × List MediaFrame
  | .putFrame pframe => (none, Fifo.push cap q pframe)
  | .getFrame | .getFrameRef => (q.head?, q.tail)

def MediaWorld.Kept (w : MediaWorld) : Prop :=
  ∀ l ∈ w.lent, w.session.bufferManager.slice l.payload l.bytes.length = l.bytes

/-- The ring and the queue side by side. -/
def MediaStep (cap : Nat) (s : MediaWorld × List MediaFrame) (c : MediaCall)
    (t : MediaWorld × List MediaFrame) : Prop :=
  t = ((s.1.call c).2, (fifoCall cap s.2 c).2)

def MediaAgrees (cap : Nat) (s : MediaWorld × List MediaFrame) (c : MediaCall) : Prop :=
  (s.1.call c).1 = (fifoCall cap s.2 c).1 ∧ (s.1.call c).2.Kept

/-- A frame that is not dropped fits a slot, and does not fill the ring while a reference is
out. -/
def MediaMeets (unitsize : Nat) (s : MediaWorld × List MediaFrame) : MediaCall → Prop
  | .putFrame pframe =>
    s.1.session.size < s.1.session.cacheNum →
      pframe.payload.length ≤ unitsize ∧
        (s.1.lent.isSome → s.1.session.size + 1 < s.1.session.cacheNum)
  | _ => True

/-- The slots lie one behind the other, and those in use go round from `getIndex` to
`putIndex`. -/
structure MediaSession.Laid (session : MediaSession) (unitsize : Nat) : Prop where
  place : ∀ i, (session.frames i).payload = i * unitsize
  fits : ∀ i, (session.frames i).nb ≤ unitsize
  size : session.size ≤ session.cacheNum
  getIndex : 0 < session.cacheNum → session.getIndex < session.cacheNum
  putIndex : session.putIndex = (session.getIndex + session.size) % session.cacheNum

def MediaSession.queue (session : MediaSession) : List MediaFrame :=
  Fifo.contents session.frameAt session.cacheNum session.getIndex session.size

/-- A reference points to the slot before the first in use. -/
structure MediaWorld.LentLast (w : MediaWorld) (unitsize : Nat) (l : Lent) : Prop where
  capacity : 0 < w.session.cacheNum
  place : l.payload =
    (w.session.getIndex + (w.session.cacheNum - 1)) % w.session.cacheNum * unitsize
  fits : l.bytes.length ≤ unitsize

section Ring

variable {session : MediaSession} {unitsize : Nat} {f : MediaFrame}

theorem laid_created (pnum unitsize : Nat) :
    (mediaBufferInitFrames pnum unitsize).Laid unitsize := by
  constructor
  · exact fun _ => rfl
  · exact fun _ => Nat.zero_le _
  · exact Nat.zero_le _
  · exact fun h => h
  · exact (Nat.zero_mod _).symm

/-- What lies in two slots lies apart. -/
theorem slots_apart {i j n m : Nat} (hij : i ≠ j) (hn : n ≤ unitsize) (hm : m ≤ unitsize) :
    i * unitsize + n ≤ j * unitsize ∨ j * unitsize + m ≤ i * unitsize := by
  rcases Nat.lt_or_gt_of_ne hij with hlt | hgt
  · left
    calc i * unitsize + n ≤ i * unitsize + unitsize := Nat.add_le_add_left hn _
      _ = (i + 1) * unitsize := (Nat.succ_mul i unitsize).symm
      _ ≤ j * unitsize := Nat.mul_le_mul_right _ hlt
  · right
    calc j * unitsize + m ≤ j * unitsize + unitsize := Nat.add_le_add_left hm _
      _ = (j + 1) * unitsize := (Nat.succ_mul j unitsize).symm
      _ ≤ i * unitsize := Nat.mul_le_mul_right _ hgt

theorem put_full (h : ¬ session.size < session.cacheNum) :
    mediaBufferPutFrame session f = session := if_pos (Nat.not_lt.mp h)

/-- With room left, the slot behind those in use takes the frame, and no other is touched. -/
theorem put_frameAt (h : session.Laid unitsize) (hf : f.payload.length ≤ unitsize)
    (hroom : session.size < session.cacheNum) : (mediaBufferPutFrame session f).frameAt =
      Function.update session.frameAt session.putIndex f := by
  have hput : ¬ session.size ≥ session.cacheNum := Nat.not_le.mpr hroom
  funext i
  rw [mediaBufferPutFrame, if_neg hput]
  by_cases hi : i = session.putIndex
  · subst hi
    rw [Function.update_self]
    simp only [MediaSession.frameAt, Function.update_self, frameCopyNobuffer, Mem.slice_write]
  · have hapart : (session.bufferManager.write (session.frames session.putIndex).payload
          f.payload).slice (session.frames i).payload (session.frames i).nb =
        session.bufferManager.slice (session.frames i).payload (session.frames i).nb := by
      rw [h.place, h.place]
      exact Mem.slice_write_disjoint _ _ _ (slots_apart hi (h.fits i) hf)
    rw [Function.update_of_ne hi]
    simp only [MediaSession.frameAt, Function.update_of_ne hi, hapart]

theorem put_getIndex (session : MediaSession) (f : MediaFrame) :
    (mediaBufferPutFrame session f).getIndex = session.getIndex ∧
      (mediaBufferPutFrame session f).cacheNum = session.cacheNum := by
  unfold mediaBufferPutFrame
  split <;> exact ⟨rfl, rfl⟩

theorem put_size_room (hroom : session.size < session.cacheNum) :
    (mediaBufferPutFrame session f).size = session.size + 1 := by
  rw [mediaBufferPutFrame, if_neg (Nat.not_le.mpr hroom)]

theorem put_queue (h : session.Laid unitsize)
    (hf : session.size < session.cacheNum → f.payload.length ≤ unitsize) :
    (mediaBufferPutFrame session f).queue = Fifo.push session.cacheNum session.queue f := by
  rw [Fifo.push, MediaSession.queue, MediaSession.queue, Fifo.contents_length]
  by_cases hroom : session.size < session.cacheNum
  · obtain ⟨hget, hcap⟩ := put_getIndex session f
    rw [if_pos hroom, put_frameAt h (hf hroom) hroom, hget, hcap, put_size_room hroom, h.putIndex]
    exact Fifo.contents_push _ _ hroom
  · rw [if_neg hroom, put_full hroom]

theorem put_laid (h : session.Laid unitsize)
    (hf : session.size < session.cacheNum → f.payload.length ≤ unitsize) :
    (mediaBufferPutFrame session f).Laid unitsize := by
  by_cases hroom : session.size < session.cacheNum
  · have hput : ¬ session.size ≥ session.cacheNum := Nat.not_le.mpr hroom
    have hlast : session.putIndex < session.cacheNum := by
      rw [h.putIndex]
      exact Nat.mod_lt _ (Nat.zero_lt_of_lt hroom)
    have hslot : ∀ i, (mediaBufferPutFrame session f).frames i =
        if i = session.putIndex then frameCopyNobuffer f (session.frames session.putIndex)
        else session.frames i := by
      intro i
      rw [mediaBufferPutFrame, if_neg hput]
      exact Function.update_apply _ _ _ _
    constructor
    · intro i
      rw [hslot]
      split
      · rename_i hi
        rw [hi]
        exact h.place _
      · exact h.place i
    · intro i
      rw [hslot]
      split
      · exact hf hroom
      · exact h.fits i
    · rw [put_size_room hroom, (put_getIndex session f).2]
      exact hroom
    · rw [(put_getIndex session f).1, (put_getIndex session f).2]
      exact h.getIndex
    · rw [(put_getIndex session f).1, (put_getIndex session f).2, put_size_room hroom,
        mediaBufferPutFrame, if_neg hput]
      dsimp only
      rw [Fifo.next_index hlast, h.putIndex, Nat.mod_add_mod, Nat.add_assoc]
  · rw [put_full hroom]
    exact h

theorem taken_getIndex (h : session.Laid unitsize) (hsome : session.size ≠ 0) :
    session.getIndex < session.cacheNum ∧
      session.taken.getIndex = (session.getIndex + 1) % session.cacheNum := by
  have hsize := h.size
  have hget := h.getIndex (by omega)
  exact ⟨hget, Fifo.next_index hget⟩

theorem taken_queue (h : session.Laid unitsize) (hsome : session.size ≠ 0) :
    session.queue = session.frameAt session.getIndex :: session.taken.queue := by
  obtain ⟨hget, hnext⟩ := taken_getIndex h hsome
  have hqueue : session.taken.queue = Fifo.contents session.frameAt session.cacheNum
      session.taken.getIndex (session.size - 1) := rfl
  obtain ⟨n, hn⟩ := Nat.exists_eq_succ_of_ne_zero hsome
  rw [hqueue, MediaSession.queue, hn, hnext, Fifo.contents_mod, Fifo.contents_pop,
    Nat.mod_eq_of_lt hget]
  rfl

theorem taken_laid (h : session.Laid unitsize) (hsome : session.size ≠ 0) :
    session.taken.Laid unitsize := by
  obtain ⟨hget, hnext⟩ := taken_getIndex h hsome
  constructor
  · exact h.place
  · exact h.fits
  · exact (Nat.sub_le _ _).trans h.size
  · intro hcap
    rw [hnext]
    exact Nat.mod_lt _ hcap
  · have hplace : session.getIndex + session.size = session.getIndex + 1 + (session.size - 1) := by
      omega
    rw [hnext]
    change session.putIndex = ((session.getIndex + 1) % session.cacheNum + (session.size - 1)) %
      session.cacheNum
    rw [Nat.mod_add_mod, h.putIndex, hplace]

end Ring

section Reference

variable {w : MediaWorld} {unitsize : Nat} {f : MediaFrame} {l : Lent}

/-- The slot that is taken is the one before the first in use afterwards. -/
theorem taken_last {session : MediaSession} (h : session.Laid unitsize)
    (hsome : session.size ≠ 0) :
    (session.taken.getIndex + (session.cacheNum - 1)) % session.cacheNum = session.getIndex := by
  obtain ⟨hget, hnext⟩ := taken_getIndex h hsome
  have hround : session.getIndex + 1 + (session.cacheNum - 1) =
      session.getIndex + session.cacheNum := by omega
  rw [hnext, Nat.mod_add_mod, hround, Nat.add_mod_right, Nat.mod_eq_of_lt hget]

/-- A frame that does not fill the ring goes elsewhere. -/
theorem put_keeps (h : w.session.Laid unitsize) (hl : w.LentLast unitsize l)
    (hf : w.session.size < w.session.cacheNum →
      f.payload.length ≤ unitsize ∧ w.session.size + 1 < w.session.cacheNum) :
    (mediaBufferPutFrame w.session f).bufferManager.slice l.payload l.bytes.length =
      w.session.bufferManager.slice l.payload l.bytes.length := by
  by_cases hroom : w.session.size < w.session.cacheNum
  · obtain ⟨hfits, hmore⟩ := hf hroom
    have hother : (w.session.getIndex + (w.session.cacheNum - 1)) % w.session.cacheNum ≠
        w.session.putIndex := by
      intro heq
      rw [h.putIndex] at heq
      have hsame := Fifo.slot_inj (Nat.sub_lt hl.capacity Nat.one_pos) hroom heq
      omega
    rw [mediaBufferPutFrame, if_neg (Nat.not_le.mpr hroom)]
    dsimp only
    rw [h.place, hl.place]
    exact Mem.slice_write_disjoint _ _ _ (slots_apart hother hl.fits hfits)
  · rw [put_full hroom]

/-- The frame that fills the ring is written where a reference points to. -/
theorem put_overwrites (h : w.session.Laid unitsize) (hl : w.LentLast unitsize l)
    (hlast : w.session.size + 1 = w.session.cacheNum) :
    (mediaBufferPutFrame w.session f).bufferManager.slice l.payload f.payload.length =
      f.payload := by
  have hroom : w.session.size < w.session.cacheNum := by omega
  have hsize : w.session.cacheNum - 1 = w.session.size := by omega
  have hplace : l.payload = w.session.putIndex * unitsize := by
    rw [hl.place, hsize, ← h.putIndex]
  rw [mediaBufferPutFrame, if_neg (Nat.not_le.mpr hroom)]
  dsimp only
  rw [h.place, hplace]
  exact Mem.slice_write _ _ _

end Reference

/-- The ring holds the queue, and what is at the reference is what was there. -/
structure MediaHolds (cap unitsize : Nat) (s : MediaWorld × List MediaFrame) : Prop where
  laid : s.1.session.Laid unitsize
  cacheNum : s.1.session.cacheNum = cap
  queue : s.1.session.queue = s.2
  last : ∀ l ∈ s.1.lent, s.1.LentLast unitsize l
  kept : s.1.Kept

section Run

variable {cap unitsize : Nat} {s : MediaWorld × List MediaFrame} {f : MediaFrame} {c : MediaCall}

theorem holds_created (cap unitsize : Nat) :
    MediaHolds cap unitsize (⟨mediaBufferInitFrames cap unitsize, none⟩, []) := by
  constructor
  · exact laid_created cap unitsize
  · rfl
  · rfl
  · intro l hl
    cases hl
  · intro l hl
    cases hl

theorem holds_put (h : MediaHolds cap unitsize s) (hm : MediaMeets unitsize s (.putFrame f)) :
    MediaHolds cap unitsize
      ((s.1.call (.putFrame f)).2, (fifoCall cap s.2 (.putFrame f)).2) := by
  obtain ⟨hget, hcap⟩ := put_getIndex s.1.session f
  constructor
  · exact put_laid h.laid fun hroom => (hm hroom).1
  · exact hcap.trans h.cacheNum
  · change (mediaBufferPutFrame s.1.session f).queue = Fifo.push cap s.2 f
    rw [put_queue h.laid fun hroom => (hm hroom).1, h.cacheNum, h.queue]
  · intro l hl
    obtain ⟨hcapacity, hplace, hfits⟩ := h.last l hl
    constructor
    · exact hcapacity.trans_eq hcap.symm
    · change l.payload = ((mediaBufferPutFrame s.1.session f).getIndex +
        ((mediaBufferPutFrame s.1.session f).cacheNum - 1)) %
          (mediaBufferPutFrame s.1.session f).cacheNum * unitsize
      rw [hget, hcap]
      exact hplace
    · exact hfits
  · intro l hl
    have hlent : s.1.lent.isSome := Option.isSome_of_mem hl
    have hkept := put_keeps h.laid (h.last l hl)
      fun hroom => ⟨(hm hroom).1, (hm hroom).2 hlent⟩
    exact hkept.trans (h.kept l hl)

/-- Either way of getting a frame gives the first of the queue. -/
theorem get_first (h : MediaHolds cap unitsize s) : (s.1.session.size = 0 ∧ s.2 = []) ∨
    s.1.session.size ≠ 0 ∧
      s.2 = s.1.session.frameAt s.1.session.getIndex :: s.1.session.taken.queue := by
  have hqueue := h.queue
  by_cases hsome : s.1.session.size = 0
  · left
    rw [MediaSession.queue, hsome] at hqueue
    exact ⟨hsome, hqueue.symm⟩
  · right
    rw [taken_queue h.laid hsome] at hqueue
    exact ⟨hsome, hqueue.symm⟩

theorem holds_get (h : MediaHolds cap unitsize s) :
    (s.1.call .getFrame).1 = s.2.head? ∧
      MediaHolds cap unitsize ((s.1.call .getFrame).2, s.2.tail) := by
  rcases get_first h with ⟨hnone, hq⟩ | ⟨hsome, hq⟩
  · have hcall : s.1.call .getFrame = (none, ⟨s.1.session, none⟩) := by
      rw [MediaWorld.call, mediaBufferGetFrame, if_pos hnone]
    rw [hcall, hq]
    refine ⟨rfl, h.laid, h.cacheNum, h.queue.trans hq, ?_, ?_⟩
    · intro l hl
      cases hl
    · intro l hl
      cases hl
  · have hcall : s.1.call .getFrame =
        (some (s.1.session.frameAt s.1.session.getIndex), ⟨s.1.session.taken, none⟩) := by
      rw [MediaWorld.call, mediaBufferGetFrame, if_neg hsome]
    rw [hcall, hq]
    refine ⟨rfl, taken_laid h.laid hsome, h.cacheNum, rfl, ?_, ?_⟩
    · intro l hl
      cases hl
    · intro l hl
      cases hl

theorem holds_ref (h : MediaHolds cap unitsize s) :
    (s.1.call .getFrameRef).1 = s.2.head? ∧
      MediaHolds cap unitsize ((s.1.call .getFrameRef).2, s.2.tail) := by
  rcases get_first h with ⟨hnone, hq⟩ | ⟨hsome, hq⟩
  · have hcall : s.1.call .getFrameRef = (none, ⟨s.1.session, none⟩) := by
      rw [MediaWorld.call, mediaBufferGetFrameRef, if_pos hnone]
    rw [hcall, hq]
    refine ⟨rfl, h.laid, h.cacheNum, h.queue.trans hq, ?_, ?_⟩
    · intro l hl
      cases hl
    · intro l hl
      cases hl
  · have hcall : s.1.call .getFrameRef =
        (some (s.1.session.frameAt s.1.session.getIndex),
          ⟨s.1.session.taken, some ⟨(s.1.session.frames s.1.session.getIndex).payload,
            (s.1.session.frameAt s.1.session.getIndex).payload⟩⟩) := by
      rw [MediaWorld.call, mediaBufferGetFrameRef, if_neg hsome]
      rfl
    obtain ⟨hget, -⟩ := taken_getIndex h.laid hsome
    rw [hcall, hq]
    refine ⟨rfl, taken_laid h.laid hsome, h.cacheNum, rfl, ?_, ?_⟩
    · intro l hl
      cases hl
      constructor
      · exact Nat.zero_lt_of_lt hget
      · change (s.1.session.frames s.1.session.getIndex).payload = (s.1.session.taken.getIndex +
          (s.1.session.cacheNum - 1)) % s.1.session.cacheNum * unitsize
        rw [taken_last h.laid hsome]
        exact h.laid.place _
      · exact (Mem.slice_length _ _ _).trans_le (h.laid.fits _)
    · intro l hl
      cases hl
      exact congrArg _ (Mem.slice_length _ _ _)

theorem media_step (h : MediaHolds cap unitsize s) (hm : MediaMeets unitsize s c) :
    (s.1.call c).1 = (fifoCall cap s.2 c).1 ∧
      MediaHolds cap unitsize ((s.1.call c).2, (fifoCall cap s.2 c).2) := by
  cases c with
  | putFrame f => exact ⟨rfl, holds_put h hm⟩
  | getFrame => exact holds_get h
  | getFrameRef => exact holds_ref h

/-- The ring is a bounded queue, and a reference keeps its bytes, in every run that fills
the ring with no reference out and puts no frame that is too long. -/
theorem media_fifo (cap unitsize : Nat) (calls : List MediaCall)
    (h : Run.Throughout (MediaStep cap) (MediaMeets unitsize) calls
      (⟨mediaBufferInitFrames cap unitsize, none⟩, [])) :
    Run.Throughout (MediaStep cap) (MediaAgrees cap) calls
      (⟨mediaBufferInitFrames cap unitsize, none⟩, []) := by
  refine Run.throughout_imp (MediaHolds cap unitsize) ?_ ?_ (holds_created cap unitsize) h
  · intro s c hs hm
    obtain ⟨hanswer, hnext⟩ := media_step hs hm
    exact ⟨hanswer, hnext.kept⟩
  · rintro s c t hs hm rfl
    exact (media_step hs hm).2

/-- A frame of one byte. -/
def oneByte (b : UInt8) : MediaFrame := ⟨0, 0, 0, 0, 0, [b]⟩

theorem media_fifo_two : Run.Throughout (MediaStep 2) (MediaAgrees 2)
    [.putFrame (oneByte 1), .getFrameRef, .putFrame (oneByte 2), .getFrame]
    (⟨mediaBufferInitFrames 2 4, none⟩, []) := by
  refine media_fifo 2 4 _ (Run.throughout_cons (fun _ h => h) ?_ ?_)
  · exact fun _ => by decide
  · refine Run.throughout_cons (fun _ h => h) trivial (Run.throughout_cons (fun _ h => h) ?_ ?_)
    · exact fun _ => by decide
    · exact ⟨trivial, fun _ _ => trivial⟩

def mediaAfter (w : MediaWorld) (calls : List MediaCall) : MediaWorld :=
  calls.foldl (fun w c => (w.call c).2) w

theorem reference_overwritten :
    let calls : List MediaCall := [.putFrame (oneByte 1), .putFrame (oneByte 2), .getFrameRef,
      .putFrame (oneByte 3)]
    let w := mediaAfter ⟨mediaBufferInitFrames 2 4, none⟩ calls
    (w.lent.map fun l => (l.bytes, w.session.bufferManager.slice l.payload 1)) =
        some ([1], [3]) ∧
      ¬ Run.Throughout (MediaStep 2) (MediaAgrees 2) calls
        (⟨mediaBufferInitFrames 2 4, none⟩, []) := by
  refine ⟨by decide, ?_⟩
  rintro ⟨-, h⟩
  have hkept := (((h _ rfl).2 _ rfl).2 _ rfl).1.2 _ rfl
  revert hkept
  decide

end Run

end MetaRtc
