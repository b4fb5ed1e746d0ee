import Mathlib.Data.List.Perm.Subperm
import MetaRtc.Play.ByValue

/-! # A stream of video packets, in whatever order they come

The packets are told apart by their place in the stream, from 0 on. The frame of a packet is
the run of packets with its timestamp, cut in two where a key frame begins in it. -/
namespace MetaRtc

open Bytes Exec

structure VideoStream where
  payloadType : Nat
  ssrc : Nat
  first : Nat
  count : Nat
  timestamp : Nat → Nat
  marker : Nat → Bool
  payload : Nat → List UInt8

namespace VideoStream

def seq (v : VideoStream) (x : Nat) : Nat := (v.first + x) % 65536

def unit (v : VideoStream) (x : Nat) : RtpUnit where
  header :=
    { payloadType := v.payloadType
      ssrc := v.ssrc
      marker := v.marker x
      sequence := v.seq x
      timestamp := v.timestamp x }
  payload := v.payload x

/-- Whether the packet is taken for the beginning of a key frame when it comes. -/
def key (codec : PlayCodec) (v : VideoStream) (x : Nat) : Bool := codec.keyPart (v.payload x)

/-- The first packet of a packet's frame. A key frame begins with the first packet of its
timestamp that shows it. -/
def frameStart (codec : PlayCodec) (v : VideoStream) : Nat → Nat
  | 0 => 0
  | x + 1 =>
    if v.timestamp (x + 1) = v.timestamp x ∧
        (v.key codec (x + 1) = true → v.key codec (v.frameStart codec x) = true) then
      v.frameStart codec x
    else x + 1

/-- The packet is the first of a key frame. -/
def opens (codec : PlayCodec) (v : VideoStream) (x : Nat) : Bool :=
  decide (v.frameStart codec x = x) && v.key codec x

/-- The frame is known to end at the packet. The marker of a packet that clears the cache is
not looked at. -/
def closes (codec : PlayCodec) (v : VideoStream) (x : Nat) : Bool := v.marker x && !v.opens codec x

/-- Where the cache begins while a packet is the first one missing: with the first frame that
is not handed on. -/
def oldest (codec : PlayCodec) (v : VideoStream) : Nat → Nat
  | 0 => 0
  | x + 1 => if v.closes codec x || v.opens codec (x + 1) then x + 1 else v.frameStart codec x

/-- With this packet, and the one behind it if its frame has no marker, the frame is handed
on. The first packet of a key frame clears the cache instead. -/
def handsOver (codec : PlayCodec) (v : VideoStream) (x : Nat) : Bool :=
  v.closes codec x ||
    (decide (x + 1 < v.count) && decide (v.timestamp (x + 1) ≠ v.timestamp x) &&
      !v.key codec (x + 1))

/-- The packets of a packet's frame up to it, as they are cached. -/
def frame (codec : PlayCodec) (v : VideoStream) (entry : Nat → Entry) (x : Nat) : List Entry :=
  (List.range (x + 1 - v.frameStart codec x)).map fun k => entry (v.frameStart codec x + k)

/-- What the stream comes to: the frames that end before a packet, one after the other. -/
def handedOver (codec : PlayCodec) (v : VideoStream) (entry : Nat → Entry) (sink : FrameSink) :
    Nat → Call FrameSink
  | 0 => .ret sink
  | x + 1 =>
    if v.handsOver codec x then do
      let sink ← v.handedOver codec entry sink x
      sink.frame codec (v.timestamp x) (v.frame codec entry x)
    else v.handedOver codec entry sink x

/-- The marker is on the last packet of a timestamp if it is on any, the fragments of a frame's
units are all there, and a key frame has not the timestamp of the one before it. -/
structure Framed (codec : PlayCodec) (v : VideoStream) (entry : Nat → Entry) : Prop where
  payloadType : v.payloadType < 128
  ssrc : v.ssrc < 2 ^ 32
  timestamp : ∀ x < v.count, v.timestamp x < 2 ^ 32
  fits : ∀ x < v.count, 12 + (v.payload x).length ≤ kRtpPacketSize
  marker : ∀ x, x + 1 < v.count → v.marker x = true → v.timestamp (x + 1) ≠ v.timestamp x
  whole : ∀ x < v.count, (x + 1 < v.count → v.timestamp (x + 1) ≠ v.timestamp x) →
    (v.frame codec entry x).countP (fun e => decide (e.naluType = codec.fuA) && e.fua2.start) =
      (v.frame codec entry x).countP fun e => decide (e.naluType = codec.fuA) && e.fua2.last
  fresh : ∀ c < v.count, ∀ b < c, v.opens codec b = true → v.opens codec c = true →
    (∀ x < c, b < x → v.opens codec x = false) → v.timestamp b ≠ v.timestamp c

/-- A packet comes when the cache has room for it from the first frame that is not handed on;
one of a key frame comes behind all packets of the frames before it; and the first packet of a
key frame comes before the last one, before those of the frame that do not show that it is a
key frame, and before the packets of later frames. -/
structure Timely (codec : PlayCodec) (v : VideoStream) (before : List Nat) (y : Nat) : Prop where
  room : ∀ z < v.count, z ∉ before → y < v.oldest codec z + 512
  behind : v.opens codec (v.frameStart codec y) = true → ∀ x < v.frameStart codec y, x ∈ before
  ahead : ∀ b < y, v.opens codec b = true → b ∉ before →
    v.key codec y = true ∧ y + 1 < v.count ∧ v.frameStart codec (y + 1) = b

/-- Each packet comes in time, after those before it. -/
def InTime (codec : PlayCodec) (v : VideoStream) : List Nat → List Nat → Prop
  | _, [] => True
  | before, y :: rest => v.Timely codec before y ∧ v.InTime codec (before ++ [y]) rest

section Places

variable {codec : PlayCodec} {v : VideoStream} {entry : Nat → Entry} {x y : Nat}

theorem frameStart_le (codec : PlayCodec) (v : VideoStream) (x : Nat) :
    v.frameStart codec x ≤ x := by
  induction x with
  | zero => exact Nat.le_refl 0
  | succ x ih =>
    rw [frameStart]
    split
    · exact Nat.le_succ_of_le ih
    · exact Nat.le_refl _

theorem frameStart_new (h : v.timestamp (x + 1) ≠ v.timestamp x) :
    v.frameStart codec (x + 1) = x + 1 := if_neg fun hand => h hand.1

/-- A packet that is not the first of its frame is in the frame of the packet before it. -/
theorem frameStart_succ (h : v.frameStart codec (x + 1) ≤ x) :
    v.frameStart codec (x + 1) = v.frameStart codec x ∧ v.timestamp (x + 1) = v.timestamp x := by
  rw [frameStart] at h ⊢
  split
  · rename_i hsame
    exact ⟨rfl, hsame.1⟩
  · rename_i hnew
    rw [if_neg hnew] at h
    omega

/-- All packets from the first of a frame on are of that frame. -/
theorem frameStart_between (codec : PlayCodec) (hlo : v.frameStart codec x ≤ y) (hhi : y ≤ x) :
    v.frameStart codec y = v.frameStart codec x ∧ v.timestamp y = v.timestamp x := by
  induction x with
  | zero =>
    obtain rfl : y = 0 := by omega
    exact ⟨rfl, rfl⟩
  | succ x ih =>
    by_cases hlast : y = x + 1
    · subst hlast
      exact ⟨rfl, rfl⟩
    · have hle : v.frameStart codec (x + 1) ≤ x := by omega
      obtain ⟨hstart, hts⟩ := frameStart_succ hle
      obtain ⟨hsame, htime⟩ := ih (by omega) (by omega)
      exact ⟨hsame.trans hstart.symm, htime.trans hts.symm⟩

theorem frameStart_idem (codec : PlayCodec) (v : VideoStream) (x : Nat) :
    v.frameStart codec (v.frameStart codec x) = v.frameStart codec x :=
  (frameStart_between codec (Nat.le_refl _) (frameStart_le codec v x)).1

theorem frameStart_mono (h : x ≤ y) : v.frameStart codec x ≤ v.frameStart codec y := by
  by_cases hin : v.frameStart codec y ≤ x
  · exact (frameStart_between codec hin h).1.le
  · have hle := frameStart_le codec v x
    omega

theorem opens_start (h : v.opens codec x = true) :
    v.frameStart codec x = x ∧ v.key codec x = true := by
  simpa [opens] using h

/-- With the same timestamp a packet that opens no key frame is in the frame before it. -/
theorem frameStart_same (h : v.timestamp (x + 1) = v.timestamp x)
    (hno : v.opens codec (x + 1) = false) : v.frameStart codec (x + 1) = v.frameStart codec x := by
  by_contra hne
  have hnew : v.frameStart codec (x + 1) = x + 1 := by
    by_contra hother
    have hle := frameStart_le codec v (x + 1)
    exact hne (frameStart_succ (by omega)).1
  have hkey : v.key codec (x + 1) = false := by
    simpa [opens, hnew] using hno
  exact hne (if_pos ⟨h, by simp [hkey]⟩)

/-- What shows a key frame is in a frame that begins as one. -/
theorem opens_of_key (h : v.key codec x = true) : v.opens codec (v.frameStart codec x) = true := by
  have hkey : v.key codec (v.frameStart codec x) = true := by
    cases x with
    | zero => exact h
    | succ x =>
      rw [frameStart]
      split
      · rename_i hsame
        exact hsame.2 h
      · exact h
  simp [opens, frameStart_idem, hkey]

theorem closes_marker (h : v.closes codec x = true) : v.marker x = true := by
  simp only [closes, Bool.and_eq_true] at h
  exact h.1

/-- A packet that is missing has its place in the cache. -/
theorem oldest_le (codec : PlayCodec) (v : VideoStream) (x : Nat) : v.oldest codec x ≤ x := by
  cases x with
  | zero => exact Nat.le_refl 0
  | succ x =>
    rw [oldest]
    split
    · exact Nat.le_refl _
    · exact Nat.le_succ_of_le (frameStart_le codec v x)

theorem closes_new (hv : v.Framed codec entry) (hx : x + 1 < v.count)
    (h : v.closes codec x = true) : v.frameStart codec (x + 1) = x + 1 :=
  frameStart_new (hv.marker x hx (closes_marker h))

/-- The cache moves on only. -/
theorem oldest_mono (hv : v.Framed codec entry) (h : x ≤ y) (hy : y < v.count) :
    v.oldest codec x ≤ v.oldest codec y := by
  obtain rfl | hlt := Nat.eq_or_lt_of_le h
  · exact Nat.le_refl _
  obtain ⟨y, rfl⟩ : ∃ k, y = k + 1 := ⟨y - 1, by omega⟩
  have hle := oldest_le codec v x
  rw [oldest.eq_2 codec v y]
  split
  · omega
  · cases x with
    | zero => exact Nat.zero_le _
    | succ x =>
      rw [oldest]
      split
      · rename_i hnew
        have hstart : v.frameStart codec (x + 1) = x + 1 := by
          rcases Bool.or_eq_true_iff.mp hnew with hclose | hopen
          · exact closes_new hv (by omega) hclose
          · exact (opens_start hopen).1
        have hmono : v.frameStart codec (x + 1) ≤ v.frameStart codec y :=
          frameStart_mono (by omega)
        omega
      · exact frameStart_mono (by omega)

/-- Nothing is handed on at a packet behind which its frame goes on, or a key frame begins. -/
theorem handsOver_not (hc : v.closes codec x = false)
    (h : x + 1 < v.count → v.timestamp (x + 1) = v.timestamp x ∨ v.key codec (x + 1) = true) :
    v.handsOver codec x = false := by
  by_cases hx : x + 1 < v.count
  · rcases h hx with hsame | hkey
    · simp [handsOver, hc, hsame]
    · simp [handsOver, hc, hkey]
  · simp [handsOver, hc, hx]

theorem handedOver_skip {sink : FrameSink} (h : x ≤ y)
    (hnone : ∀ k, x ≤ k → k < y → v.handsOver codec k = false) :
    v.handedOver codec entry sink y = v.handedOver codec entry sink x := by
  induction y with
  | zero =>
    obtain rfl : x = 0 := by omega
    rfl
  | succ y ih =>
    by_cases hlast : x = y + 1
    · rw [hlast]
    · have hno : v.handsOver codec y = false := hnone y (by omega) (Nat.lt_succ_self y)
      rw [handedOver, hno]
      exact ih (by omega) fun k hk hk' => hnone k hk (by omega)

/-- What stops on the way stops in the end. -/
theorem handedOver_stops {sink : FrameSink} {α : Type} {call : Call α}
    (hs : Call.Stops call (v.handedOver codec entry sink x)) (h : x ≤ y) :
    Call.Stops call (v.handedOver codec entry sink y) := by
  induction y with
  | zero =>
    obtain rfl : x = 0 := by omega
    exact hs
  | succ y ih =>
    by_cases hlast : x = y + 1
    · rwa [← hlast]
    · have hprev := ih (by omega)
      rw [handedOver]
      split
      · exact Call.stops_bind_right hprev _
      · exact hprev

theorem frame_length (entry : Nat → Entry) (v : VideoStream) (x : Nat) :
    (v.frame codec entry x).length = x + 1 - v.frameStart codec x := by
  simp only [frame, List.length_map, List.length_range]

theorem frame_getElem {k : Nat} (hk : k < (v.frame codec entry x).length) :
    (v.frame codec entry x)[k] = entry (v.frameStart codec x + k) := by
  simp only [frame, List.getElem_map, List.getElem_range]

theorem frame_cons (entry : Nat → Entry) (v : VideoStream) (x : Nat) :
    ∃ es, v.frame codec entry x = entry (v.frameStart codec x) :: es ∧
      es.length = x - v.frameStart codec x := by
  have hle := frameStart_le codec v x
  refine ⟨(List.range (x - v.frameStart codec x)).map
    fun k => entry (v.frameStart codec x + (k + 1)), ?_, ?_⟩
  · have hlen : x + 1 - v.frameStart codec x = x - v.frameStart codec x + 1 := by omega
    rw [frame, hlen, List.range_succ_eq_map]
    simp only [List.map_cons, List.map_map, Nat.add_zero]
    rfl
  · simp only [List.length_map, List.length_range]

end Places

/-- What the cache and the ring hold of the packets that have come, `before`, from the frame
that begins at `start` on. -/
structure Slots (codec : PlayCodec) (v : VideoStream) (entry : Nat → Entry) (r : Nat)
    (rtpBuffer : RtpBuffer) (cache : Nat → PacketCache) (before : List Nat) (start : Nat) :
    Prop where
  bufLen : rtpBuffer.bufLen = 1500
  index : rtpBuffer.index = (r + before.length) % 1500
  held : ∀ x ∈ before, start ≤ x →
    Held codec rtpBuffer.buffer (v.timestamp x) (cache (cacheIndex (v.first + x))) (entry x) ∧
      PointsInto ((r + before.idxOf x + 1) % 1500) (cache (cacheIndex (v.first + x)))
  free : ∀ x, start ≤ x → x < start + 512 → x ∉ before →
    (cache (cacheIndex (v.first + x))).inUse = false
  inside : ∀ x ∈ before, x < start + 512

section Storing

variable {codec : PlayCodec} {v : VideoStream} {entry : Nat → Entry} {r x y start : Nat}
  {rtpBuffer : RtpBuffer} {cache : Nat → PacketCache} {before : List Nat} {pkt : PacketCache}

@[simp] theorem cacheIndex_seq (v : VideoStream) (x : Nat) :
    cacheIndex (v.seq x) = cacheIndex (v.first + x) := cacheIndex_mod _

theorem seq_add (v : VideoStream) (x k : Nat) : (v.seq x + k) % 65536 = v.seq (x + k) := by
  unfold seq
  omega

/-- Two packets of the window have two slots. -/
theorem slot_ne (hne : x ≠ y) (hx : start ≤ x) (hx' : x < start + 512) (hy : start ≤ y)
    (hy' : y < start + 512) : cacheIndex (v.first + x) ≠ cacheIndex (v.first + y) := by
  have h := cacheIndex_ne (x := v.first + start) (i := x - start) (j := y - start) (by omega)
    (by omega) (by omega)
  rwa [show v.first + start + (x - start) = v.first + x by omega,
    show v.first + start + (y - start) = v.first + y by omega] at h

/-- Since a packet came that is still in the window, fewer than 1024 others came. -/
theorem recent (hnodup : before.Nodup) (hspread : before.Pairwise fun x z => x < z + 512)
    (hinside : ∀ z ∈ before, z < x + 512) (hx : x ∈ before) :
    before.length ≤ before.idxOf x + 1024 := by
  obtain ⟨older, newer, rfl, hnot⟩ := List.eq_append_cons_of_mem hx
  have hidx : (older ++ x :: newer).idxOf x = older.length := by
    rw [List.idxOf_append, if_neg hnot, List.idxOf_cons_self, Nat.zero_add]
  have hnewer := (List.pairwise_append.mp hspread).2.1
  rw [List.pairwise_cons] at hnewer
  have hsub : newer ⊆ List.range' (x - 511) 1023 := by
    intro z hz
    have hlo := hnewer.1 z hz
    have hhi := hinside z (by simp [hz])
    rw [List.mem_range'_1]
    omega
  have hlast : newer.Nodup := (List.nodup_cons.mp (List.nodup_append.mp hnodup).2.1).2
  have hlen := (List.subperm_of_subset hlast hsub).length_le
  rw [List.length_range'] at hlen
  rw [hidx, List.length_append, List.length_cons]
  omega

/-- The packet that comes is stored, and those in the window are kept. -/
theorem slots_store (h : v.Slots codec entry r rtpBuffer cache before start)
    (hnodup : before.Nodup) (hspread : before.Pairwise fun x z => x < z + 512)
    (hy : y ∉ before) (hlo : start ≤ y) (hhi : y < start + 512)
    (hfit : (v.unit y).bytes.length ≤ kRtpPacketSize)
    (hheld : Held codec (received rtpBuffer (v.unit y).bytes).buffer (v.timestamp y) pkt (entry y))
    (hpoints : PointsInto ((rtpBuffer.index + 1) % 1500) pkt) :
    v.Slots codec entry r (received rtpBuffer (v.unit y).bytes)
      (Function.update cache (cacheIndex (v.first + y)) pkt) (before ++ [y]) start where
  bufLen := h.bufLen
  index := by
    show (rtpBuffer.index + 1) % 1500 = _
    rw [h.index, List.length_append, List.length_singleton]
    omega
  held := by
    intro x hx hstart
    rcases List.mem_append.mp hx with hold | hnew
    · have hin := h.inside x hold
      obtain ⟨hheld', hpoints'⟩ := h.held x hold hstart
      have hrecent := recent (x := x) hnodup hspread
        (fun z hz => Nat.lt_of_lt_of_le (h.inside z hz) (by omega)) hold
      have hlt := List.idxOf_lt_length_of_mem hold
      have hne : x ≠ y := fun heq => hy (heq ▸ hold)
      rw [Function.update_of_ne (slot_ne hne hstart hin hlo hhi), List.idxOf_append, if_pos hold]
      refine ⟨held_write hheld' hpoints' ?_ hfit, hpoints'⟩
      rw [h.index]
      omega
    · obtain rfl : x = y := List.mem_singleton.mp hnew
      rw [Function.update_self, List.idxOf_append, if_neg hy, List.idxOf_cons_self]
      refine ⟨hheld, ?_⟩
      rw [h.index] at hpoints
      rwa [Nat.zero_add, ← Nat.mod_add_mod]
  free := by
    intro x hx hx' hnot
    rw [List.mem_append, List.mem_singleton, not_or] at hnot
    rw [Function.update_of_ne (slot_ne hnot.2 hx hx' hlo hhi)]
    exact h.free x hx hx' hnot.1
  inside := by
    intro x hx
    rcases List.mem_append.mp hx with hold | hnew
    · exact h.inside x hold
    · rwa [List.mem_singleton.mp hnew]

/-- Nothing of what came before is kept in a cache that was cleared. -/
theorem slots_cleared (codec : PlayCodec) (entry : Nat → Entry) (hlen : rtpBuffer.bufLen = 1500)
    (hidx : rtpBuffer.index = (r + before.length) % 1500)
    (hfree : ∀ k, (cache (cacheIndex k)).inUse = false) (hbefore : ∀ z ∈ before, z < start) :
    v.Slots codec entry r rtpBuffer cache before start where
  bufLen := hlen
  index := hidx
  held := fun z hz hstart => absurd (hbefore z hz) (Nat.not_lt.mpr hstart)
  free := fun _ _ _ _ => hfree _
  inside := fun z hz => Nat.lt_add_right 512 (hbefore z hz)

/-- The slots of a frame are released, and the cache begins behind it. -/
theorem slots_released (h : v.Slots codec entry r rtpBuffer cache before start)
    {cache' : Nat → PacketCache} {n : Nat} (hr : Released cache cache' (v.seq start) n)
    (hn : n ≤ 512) : v.Slots codec entry r rtpBuffer cache' before (start + n) where
  bufLen := h.bufLen
  index := h.index
  held := by
    intro x hx hstart
    have hin := h.inside x hx
    rw [hr.others]
    · exact h.held x hx (by omega)
    · intro k hk
      rw [show cacheIndex (v.seq start + k) = cacheIndex (v.first + (start + k)) by
        rw [seq, cacheIndex_mod_add, Nat.add_assoc]]
      exact slot_ne (by omega) (by omega) (by omega) (by omega) hin
  free := by
    intro x hx hx' hnot
    by_cases hin : x < start + 512
    · rw [hr.others]
      · exact h.free x (by omega) hin hnot
      · intro k hk
        rw [show cacheIndex (v.seq start + k) = cacheIndex (v.first + (start + k)) by
          rw [seq, cacheIndex_mod_add, Nat.add_assoc]]
        exact slot_ne (by omega) (by omega) (by omega) (by omega) hin
    · have hfree := hr.free (x - (start + 512)) (by omega)
      rwa [show cacheIndex (v.seq start + (x - (start + 512))) = cacheIndex (v.first + x) by
        rw [seq, cacheIndex_mod_add, cacheIndex_eq, cacheIndex_eq]
        omega] at hfree
  inside := fun x hx => Nat.lt_of_lt_of_le (h.inside x hx) (by omega)

end Storing

/-- From `head` on all packets up to this one have come, they are of the frame that begins at
`start`, and its end is not among them. -/
def Reached (codec : PlayCodec) (v : VideoStream) (before : List Nat) (start head x : Nat) : Prop :=
  ∀ y, head ≤ y → y < x → y ∈ before ∧ v.frameStart codec y = start ∧ v.closes codec y = false

/-- What a search that begins in the frame comes to: a packet that is missing, the end of the
frame, or a frame without an end that fills the cache. -/
inductive Found (codec : PlayCodec) (v : VideoStream) (before : List Nat) (start head : Nat) :
    NextLost → Prop
  | lost {x : Nat} : head ≤ x → x ∉ before → v.Reached codec before start head x →
      Found codec v before start head (.lost (v.seq x))
  | frame {x : Nat} : head ≤ x → x ∈ before → v.frameStart codec x = start →
      v.Reached codec before start head x → v.handsOver codec x = true →
      v.closes codec x = true ∨ x + 1 ∈ before →
      Found codec v before start head (.frame (v.seq x))
  | overflow : head = start → v.Reached codec before start head (start + 512) →
      Found codec v before start head .overflow

section Searching

variable {codec : PlayCodec} {v : VideoStream} {entry : Nat → Entry} {r c x y start head : Nat}
  {rtpBuffer : RtpBuffer} {cache : Nat → PacketCache} {before : List Nat}

theorem reached_succ (h : v.Reached codec before start head x) (hx : x ∈ before)
    (hstart : v.frameStart codec x = start) (hc : v.closes codec x = false) :
    v.Reached codec before start head (x + 1) := by
  intro y hlo hhi
  by_cases hlast : y = x
  · subst hlast
    exact ⟨hx, hstart, hc⟩
  · exact h y hlo (by omega)

/-- A cache that is full of one frame has no end of it. -/
theorem findNextLostLoop_full {lastTs current : Nat}
    (h : ∀ x, (cache (cacheIndex x)).inUse = true ∧ (cache (cacheIndex x)).ts = lastTs ∧
      (cache (cacheIndex x)).last = false) (n i : Nat) :
    findNextLostLoop cache lastTs current n i = .overflow := by
  induction n generalizing i with
  | zero => rfl
  | succ n ih =>
    obtain ⟨huse, hts, hlast⟩ := h ((current + i) % 65536)
    simp only [findNextLostLoop, huse, hts, hlast, ih, Bool.true_eq_false, Bool.false_eq_true,
      ne_eq, not_true_eq_false, if_false]

theorem reached_timestamp (h : v.Reached codec before start head x) (hlo : head ≤ y) (hhi : y < x) :
    v.timestamp y = v.timestamp start := by
  have hstart := (h y hlo hhi).2.1
  have hle := frameStart_le codec v y
  rw [hstart] at hle
  exact (frameStart_between codec (hstart.le) hle).2.symm

/-- The last packet is the only one with a marker. -/
theorem reached_marker (hv : v.Framed codec entry) (hb : ∀ x ∈ before, x < v.count)
    (h : v.Reached codec before start head x) (hlo : head ≤ y) (hhi : y + 1 < x) :
    v.marker y = false := by
  obtain ⟨hnext, -, -⟩ := h (y + 1) (by omega) hhi
  have hsame := (reached_timestamp h (y := y + 1) (by omega) hhi).trans
    (reached_timestamp h hlo (by omega)).symm
  by_contra hm
  exact hv.marker y (hb _ hnext) (by simpa using hm) hsame

theorem slots_full (hv : v.Framed codec entry)
    (h : v.Slots codec entry r rtpBuffer cache before start)
    (hp : ∀ x < v.count, Cacheable codec (v.marker x) (v.payload x) (entry x))
    (hb : ∀ x ∈ before, x < v.count)
    (hahead : ∀ x ∈ before, start < x → v.opens codec x = false)
    (hreached : v.Reached codec before start start (start + 512)) (x : Nat) :
    (cache (cacheIndex x)).inUse = true ∧ (cache (cacheIndex x)).ts = v.timestamp start ∧
      (cache (cacheIndex x)).last = false := by
  obtain ⟨k, hk, hx⟩ := cacheIndex_from (v.first + start) x
  rw [hx, Nat.add_assoc]
  obtain ⟨hy, -, hclose⟩ := hreached (start + k) (by omega) (by omega)
  have hheld := (h.held _ hy (by omega)).1
  refine ⟨hheld.inUse, hheld.ts.trans (reached_timestamp hreached (by omega) (by omega)), ?_⟩
  rw [hheld.last, (hp _ (hb _ hy)).last]
  by_cases hlast : start + k + 1 < start + 512
  · exact reached_marker hv hb hreached (by omega) hlast
  · have hopen := hahead _ hy (by omega)
    simpa [closes, hopen] using hclose

/-- The search goes over the packets of the frame. -/
theorem findNextLostLoop_found (hv : v.Framed codec entry)
    (h : v.Slots codec entry r rtpBuffer cache before start)
    (hp : ∀ x < v.count, Cacheable codec (v.marker x) (v.payload x) (entry x))
    (hb : ∀ x ∈ before, x < v.count) (hhead : start ≤ head)
    (hheaded : start ∈ before → head = start) (hc : head ≤ c)
    (hahead : ∀ x ∈ before, start < x → v.opens codec x = false)
    (hmark : ∀ x ∈ before, c ≤ x → v.opens codec x = true → v.marker x = false)
    (hfirst : head < c ∨ (head ∈ before → v.frameStart codec head = start)) {lastTs : Nat}
    (hts : head ∈ before → lastTs = v.timestamp head) (n i : Nat) (hn : n + i = 512)
    (hin : c + i ≤ start + 512) (hreached : v.Reached codec before start head (c + i)) :
    v.Found codec before start head (findNextLostLoop cache lastTs (v.seq c) n i) := by
  induction n generalizing i with
  | zero =>
    obtain rfl : head = start := by omega
    exact .overflow rfl (by rwa [show head + 512 = c + i by omega])
  | succ n ih =>
    have hseq : (v.seq c + i) % 65536 = v.seq (c + i) := seq_add v c i
    rw [findNextLostLoop]
    simp only [hseq, cacheIndex_seq]
    by_cases hend : c + i = start + 512
    · have hnot : c + i ∉ before := fun hx => absurd (h.inside _ hx) (by omega)
      have hslot : cacheIndex (v.first + (c + i)) = cacheIndex (v.first + start) := by
        rw [hend, cacheIndex_eq, cacheIndex_eq]
        omega
      by_cases hs : start ∈ before
      · obtain rfl := hheaded hs
        have hfull := slots_full hv h hp hb hahead (by rwa [← hend])
        have hall : findNextLostLoop cache lastTs (v.seq c) (n + 1) i = .overflow :=
          findNextLostLoop_full (fun x => by rw [hts hs]; exact hfull x) (n + 1) i
        simp only [findNextLostLoop, hseq, cacheIndex_seq] at hall
        rw [hall]
        exact .overflow rfl (by rwa [← hend])
      · have hfree := h.free start (Nat.le_refl _) (by omega) hs
        rw [hslot, if_pos hfree]
        exact .lost (by omega) hnot hreached
    · by_cases hx : c + i ∈ before
      · have hheld := (h.held _ hx (by omega)).1
        rw [if_neg (by rw [hheld.inUse]; decide), hheld.ts, hheld.last, (hp _ (hb _ hx)).last]
        by_cases htime : lastTs = v.timestamp (c + i)
        · rw [if_neg (not_not.mpr htime)]
          have hstart : v.frameStart codec (c + i) = start := by
            by_cases hone : c + i = head
            · rw [hone] at hx ⊢
              exact (hfirst.resolve_left (by omega)) hx
            · obtain ⟨k, hk⟩ : ∃ k, c + i = k + 1 := ⟨c + i - 1, by omega⟩
              obtain ⟨-, hprev, -⟩ := hreached k (by omega) (by omega)
              have hheadIn := (hreached head (by omega) (by omega)).1
              have hsame : v.timestamp (k + 1) = v.timestamp k := by
                rw [← hk, ← htime, hts hheadIn,
                  reached_timestamp hreached (Nat.le_refl _) (by omega),
                  reached_timestamp hreached (y := k) (by omega) (by omega)]
              have hno : v.opens codec (k + 1) = false := by
                rw [← hk]
                exact hahead _ hx (by omega)
              rw [hk, frameStart_same hsame hno, hprev]
          by_cases hm : v.marker (c + i) = true
          · rw [if_pos hm]
            have hopen : v.opens codec (c + i) = false := by
              by_contra hopen
              rw [Bool.not_eq_false] at hopen
              rw [hmark _ hx (by omega) hopen] at hm
              cases hm
            have hclose : v.closes codec (c + i) = true := by
              simp [closes, hm, hopen]
            exact .frame (by omega) hx hstart hreached (by simp [handsOver, hclose]) (.inl hclose)
          · rw [if_neg hm]
            rw [Bool.not_eq_true] at hm
            exact ih (i + 1) (by omega) (by omega)
              (reached_succ hreached hx hstart (by simp [closes, hm]))
        · rw [if_pos htime]
          obtain ⟨k, hk⟩ : ∃ k, c + i = k + 1 := by
            refine ⟨c + i - 1, ?_⟩
            by_contra hzero
            obtain rfl : head = c + i := by omega
            exact htime (hts hx)
          have hlt : head ≤ k := by
            by_contra hle
            obtain rfl : head = c + i := by omega
            exact htime (hts hx)
          obtain ⟨hkin, hprev, hclose⟩ := hreached k hlt (by omega)
          have hheadIn := (hreached head (by omega) (by omega)).1
          have hnew : v.timestamp (k + 1) ≠ v.timestamp k := by
            rw [← hk]
            intro hsame
            apply htime
            rw [hsame, hts hheadIn, reached_timestamp hreached (Nat.le_refl _) (by omega),
              reached_timestamp hreached hlt (by omega)]
          have hopen := hahead _ hx (by omega)
          have hkey : v.key codec (k + 1) = false := by
            rw [hk] at hopen
            simpa [opens, frameStart_new hnew] using hopen
          have hcount := hb _ hx
          rw [hk, show (v.seq (k + 1) + 65535) % 65536 = v.seq k by unfold seq; omega]
          rw [hk] at hx hcount
          refine .frame hlt hkin hprev (fun y hlo hhi => hreached y hlo (by omega)) ?_ (.inr hx)
          simp [handsOver, hcount, hnew, hkey]
      · have hfree := h.free (c + i) (by omega) (by omega) hx
        rw [if_pos hfree]
        exact .lost (by omega) hx hreached

end Searching

end VideoStream

end MetaRtc
