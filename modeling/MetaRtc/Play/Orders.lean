import MetaRtc.Play.Gathering

/-! # Order independence

A stream comes to the same frames in every order in which its packets come in time. -/
namespace MetaRtc

open Bytes Exec

namespace VideoStream

section Running

variable {codec : PlayCodec} {v : VideoStream} {entry : Nat → Entry} {r base start head lost : Nat}
  {before : List Nat} {play : PlayStream} {sink : FrameSink}

/-- Where all packets before a key frame have come, or before the end, nothing of them is left
that is still to be handed on. -/
theorem gathers_end (h : v.Gathers codec entry sink r before play base start head lost) {c : Nat}
    (hall : ∀ x < c, x ∈ before) (hc : ∀ x ∈ before, x < c)
    (hbase : v.Headless codec before base start head → base < c)
    (hend : c = v.count ∨ v.opens codec c = true) :
    v.handedOver codec entry sink c = .ret play.track.sink := by
  have hmissing : c ∉ before := fun hmem => Nat.lt_irrefl c (hc c hmem)
  obtain ⟨hhead, -⟩ := h.headed.resolve_right fun hless => hless.missing (hall base (hbase hless))
  subst hhead
  have hstart : head ≤ c := by
    by_contra hlt
    exact hmissing (h.behind c (by omega))
  have hlost : lost = c := by
    have hge : c ≤ lost := by
      by_contra hlt
      exact h.rests.missing (hall lost (by omega))
    by_contra hne
    exact hmissing (h.rests.reached c hstart (by omega)).1
  rw [handedOver_skip hstart, h.rests.sink]
  intro k hlo hhi
  obtain ⟨-, hkstart, hclose⟩ := h.rests.reached k hlo (by omega)
  apply handsOver_not hclose
  intro hcount
  by_cases hlast : k + 1 = c
  · right
    rcases hend with heq | hopen
    · omega
    · rw [hlast]
      exact (opens_start hopen).2
  · left
    obtain ⟨-, hnext, -⟩ := h.rests.reached (k + 1) (by omega) (by omega)
    exact (frameStart_succ (hnext.trans_le hlo)).2

/-- The run lemma: the rest of the stream, in the order it comes. -/
theorem receiveAll_gathers (hv : v.Framed codec entry) (hstap : StapByValue codec)
    (hp : ∀ x < v.count, Cacheable codec (v.marker x) (v.payload x) (entry x))
    {rest : List Nat} (h : v.Gathers codec entry sink r before play base start head lost)
    (hperm : (before ++ rest).Perm (List.range v.count))
    (hspread : before.Pairwise fun x z => x < z + 512) (htimely : v.InTime codec before rest) :
    Call.Settles (receiveAll codec (rest.map fun x => (v.unit x).bytes) play)
      (v.handedOver codec entry sink v.count) fun play' =>
        v.handedOver codec entry sink v.count = .ret play'.track.sink := by
  have hmem : ∀ x, x ∈ before ++ rest ↔ x < v.count := fun x =>
    hperm.mem_iff.trans List.mem_range
  induction rest generalizing before play base start head lost with
  | nil =>
    rw [List.append_nil] at hmem
    have hbase : v.Headless codec before base start head → base < v.count := by
      intro hless
      have hle := h.rests.startLe
      have hin := (hmem head).mp hless.headIn
      have heq := hless.startEq
      omega
    exact .inr ⟨play, rfl, gathers_end h (fun x hx => (hmem x).mpr hx) (fun x hx => (hmem x).mp hx)
      hbase (.inl rfl)⟩
  | cons y rest ih =>
    obtain ⟨hone, hrest⟩ := htimely
    have hnodup := hperm.nodup_iff.mpr List.nodup_range
    have hbefore := (List.nodup_append.mp hnodup).1
    have hy : y ∉ before := fun hin =>
      (List.nodup_append.mp hnodup).2.2 y hin y List.mem_cons_self rfl
    have hcount : y < v.count := (hmem y).mp (by simp)
    have hb : ∀ x ∈ before ++ [y], x < v.count := by
      intro x hx
      apply (hmem x).mp
      rcases List.mem_append.mp hx with hold | hnew
      · exact List.mem_append_left _ hold
      · simp [List.mem_singleton.mp hnew]
    have hlo : start ≤ y := by
      by_contra hlt
      exact hy (h.behind y (by omega))
    have hspread' : (before ++ [y]).Pairwise fun x z => x < z + 512 := by
      rw [List.pairwise_append]
      refine ⟨hspread, List.pairwise_singleton _ _, ?_⟩
      intro x hx z hz
      have hin := h.rests.slots.inside x hx
      rw [List.mem_singleton.mp hz]
      omega
    have hperm' : (before ++ [y] ++ rest).Perm (List.range v.count) := by
      rwa [List.append_assoc, List.singleton_append]
    have hstep : Call.Settles (rtcplayOnVideoRtp codec play (v.unit y).bytes)
        (v.handedOver codec entry sink v.count) fun result => ∃ base' start' head' lost',
          v.Gathers codec entry sink r (before ++ [y]) result.2 base' start' head' lost' := by
      by_cases hnew : ∃ c, v.opens codec c = true ∧ base < c ∧ c ≤ y
      · obtain ⟨c, hopen, hbase, hle⟩ := hnew
        have hahead := h.ahead c hopen hbase
        have hmissing : c ∉ before := fun hin => Nat.lt_irrefl c (hahead c hin)
        have hinside : c < y →
            v.key codec y = true ∧ y + 1 < v.count ∧ v.frameStart codec (y + 1) = c :=
          fun hlt => hone.ahead c hlt hopen hmissing
        have hstart : v.frameStart codec y = c := by
          by_cases heq : c = y
          · exact heq ▸ (opens_start hopen).1
          · have hsame := (hinside (by omega)).2.2
            exact (frameStart_between codec (x := y + 1) (by omega) (Nat.le_succ y)).1.trans hsame
        have hall : ∀ x < c, x ∈ before := by
          have hbehind := hone.behind
          rw [hstart] at hbehind
          exact hbehind hopen
        have hroom := hone.room c (by omega) hmissing
        have holdest := oldest_le codec v c
        have hkf : play.track.keyFrameTs ≠ v.timestamp c := by
          rcases h.keyFrameTs with hnone | ⟨hopens, hsame⟩
          · rw [hnone]
            omega
          · have hfresh := hv.fresh c (by omega) base hbase hopens hopen (by
              intro x hx hlt
              by_contra hother
              rw [Bool.not_eq_false] at hother
              exact Nat.lt_irrefl x (h.ahead x hother hlt x (hall x hx)))
            rw [hsame]
            exact fun heq => hfresh (Nat.cast_injective heq)
        obtain ⟨play', hret, hnext⟩ := arrival_opens hv hp h.rests.slots.bufLen
          h.rests.slots.index (gathers_end h hall hahead (fun _ => hbase) (.inr hopen)) hkf hopen
          hstart hcount hall hahead (by omega) hinside hbefore hspread
        exact .inr ⟨_, hret, c, c, y, y + 1, hnext⟩
      · have hnormal : ∀ c, v.opens codec c = true → base < c → y < c := by
          intro c hopen hlt
          by_contra hge
          exact hnew ⟨c, hopen, hlt, by omega⟩
        have hnext := arrival_gathers hv hstap hp h hb hbefore hspread hy hone hnormal
        refine hnext.imp_right ?_
        rintro ⟨result, hret, start', head', lost', hgathers⟩
        exact ⟨result, hret, base, start', head', lost', hgathers⟩
    refine Call.settles_bind hstep ?_
    rintro ⟨err, play'⟩ ⟨base', start', head', lost', hgathers⟩
    exact ih hgathers hperm' hspread' hrest fun x => by
      rw [List.append_assoc, List.singleton_append]
      exact hmem x

/-- The track is ready for a stream: with nothing in its cache it waits for the first packet, or
the stream begins with a key frame that is not the one under way. -/
def Ready (codec : PlayCodec) (v : VideoStream) (play : PlayStream) : Prop :=
  Waiting play (v.seq 0) ∨
    play.Sound ∧ v.opens codec 0 = true ∧ play.track.keyFrameTs ≠ v.timestamp 0

theorem gathers_waiting (h : Waiting play (v.seq 0)) (hno : v.opens codec 0 = false) :
    v.Gathers codec entry play.track.sink play.rtpBuffer.index [] play 0 0 0 0 where
  rests :=
    { slots := by
        obtain ⟨hs, hkf, hfree⟩ := h.idle
        exact slots_cleared codec entry hs.bufLen (Nat.mod_eq_of_lt hs.index).symm hfree (by simp)
      sink := rfl
      header := h.header
      reached := fun _ _ hlt => absurd hlt (Nat.not_lt_zero _)
      begins := fun _ => rfl
      missing := List.not_mem_nil
      headLe := Nat.le_refl _
      startLe := Nat.le_refl _
      lost := .inl h.lost }
  root := .inr rfl
  baseLe := Nat.le_refl _
  behind := fun _ hlt => absurd hlt (Nat.not_lt_zero _)
  ahead := by simp
  headed := .inl ⟨rfl, fun hopen => by rw [hno] at hopen; cases hopen⟩
  oldest := fun _ _ => rfl
  keyFrameTs := .inl h.idle.key
  pending := fun _ hopen => by rw [hno] at hopen; cases hopen

/-- What a stream comes to does not depend on the order, if each packet comes in time. -/
theorem receiveAll_handedOver (hv : v.Framed codec entry) (hstap : StapByValue codec)
    (hp : ∀ x < v.count, Cacheable codec (v.marker x) (v.payload x) (entry x))
    {order : List Nat} (hready : v.Ready codec play) (hperm : order.Perm (List.range v.count))
    (htimely : v.InTime codec [] order) :
    Call.Settles (receiveAll codec (order.map fun x => (v.unit x).bytes) play)
      (v.handedOver codec entry play.track.sink v.count) fun play' =>
        v.handedOver codec entry play.track.sink v.count = .ret play'.track.sink := by
  by_cases hfirst : v.opens codec 0 = true
  · obtain ⟨hs, hkf⟩ : play.Sound ∧ play.track.keyFrameTs ≠ v.timestamp 0 := by
      rcases hready with hwait | ⟨hs, -, hkf⟩
      · exact ⟨hwait.idle.sound, by rw [hwait.idle.key]; omega⟩
      · exact ⟨hs, hkf⟩
    cases order with
    | nil =>
      have hlen := hperm.length_eq
      rw [List.length_range] at hlen
      rw [← hlen]
      exact .inr ⟨play, rfl, rfl⟩
    | cons y rest =>
      obtain ⟨hone, hrest⟩ := htimely
      have hcount : y < v.count := List.mem_range.mp (hperm.mem_iff.mp List.mem_cons_self)
      have hinside : 0 < y →
          v.key codec y = true ∧ y + 1 < v.count ∧ v.frameStart codec (y + 1) = 0 :=
        fun hlt => hone.ahead 0 hlt hfirst (by simp)
      have hstart : v.frameStart codec y = 0 := by
        by_cases heq : y = 0
        · rw [heq]
          rfl
        · have hsame := (hinside (by omega)).2.2
          rw [(frameStart_between codec (x := y + 1) (y := y) (by omega) (by omega)).1, hsame]
      have hroom := hone.room 0 (by omega) (by simp)
      have hidx := (Nat.mod_eq_of_lt hs.index).symm
      obtain ⟨play', hret, hnext⟩ := @arrival_opens codec v entry play.rtpBuffer.index 0 y [] play
        play.track.sink hv hp hs.bufLen hidx rfl hkf hfirst hstart hcount (by simp) (by simp) hroom
        hinside List.nodup_nil List.Pairwise.nil
      rw [List.map_cons, receiveAll, hret, Call.ret_bind]
      exact receiveAll_gathers hv hstap hp hnext hperm (List.pairwise_singleton _ _) hrest
  · rw [Bool.not_eq_true] at hfirst
    have hwait : Waiting play (v.seq 0) := by
      refine hready.resolve_right fun hkey => ?_
      rw [hfirst] at hkey
      cases hkey.2.1
    exact receiveAll_gathers hv hstap hp (gathers_waiting hwait hfirst) hperm List.Pairwise.nil
      htimely

/-- In sequence order every packet comes in time that does so in some order. -/
theorem inTime_room {rest : List Nat} (hcount : ∀ y ∈ rest, y < v.count)
    (hnodup : (before ++ rest).Nodup) (h : v.InTime codec before rest) :
    ∀ y ∈ rest, y < v.oldest codec y + 512 := by
  induction rest generalizing before with
  | nil => simp
  | cons y rest ih =>
    obtain ⟨hone, hrest⟩ := h
    intro x hx
    rcases List.mem_cons.mp hx with rfl | hx
    · refine hone.room x (hcount x List.mem_cons_self) fun hin => ?_
      exact (List.nodup_append.mp hnodup).2.2 x hin x List.mem_cons_self rfl
    · exact ih (fun z hz => hcount z (List.mem_cons_of_mem _ hz))
        (by rwa [List.append_assoc, List.singleton_append]) hrest x hx

theorem inTime_sorted (hv : v.Framed codec entry)
    (hroom : ∀ y < v.count, y < v.oldest codec y + 512) (n k : Nat) (hn : k + n = v.count) :
    v.InTime codec (List.range k) (List.range' k n) := by
  induction n generalizing k with
  | zero => trivial
  | succ n ih =>
    rw [List.range'_succ]
    refine ⟨⟨?_, ?_, ?_⟩, ?_⟩
    · intro z hz hnot
      rw [List.mem_range] at hnot
      have hfits := hroom k (by omega)
      have hmono := oldest_mono hv (show k ≤ z by omega) hz
      omega
    · intro _ x hx
      have hle := frameStart_le codec v k
      exact List.mem_range.mpr (by omega)
    · intro b hb _ hmissing
      exact absurd (List.mem_range.mpr hb) hmissing
    · have hnext := ih (k + 1) (by omega)
      rwa [List.range_succ] at hnext

end Running

/-- The packets of an H264 stream as they are cached. -/
def h264Entries (v : VideoStream) (x : Nat) : Entry := h264Entry (v.marker x) (v.payload x)

/-- The packets in some order. -/
def arrive (v : VideoStream) (order : List Nat) : List (List UInt8) :=
  order.map fun x => (v.unit x).bytes

end VideoStream

/-- The frames a play stream has handed on once these packets have come. -/
def deliveries (codec : PlayCodec) (plaintexts : List (List UInt8)) (play : PlayStream) :
    Call (List VideoFrame) := do
  let play ← receiveAll codec plaintexts play
  return play.track.frames

section Orders

variable {v : VideoStream} {order : List Nat} {play : PlayStream}

theorem deliveries_handedOver (hv : v.Framed playH264 v.h264Entries)
    (hp : ∀ x < v.count, H264Payload (v.payload x)) (hready : v.Ready playH264 play)
    (hperm : order.Perm (List.range v.count))
    (htimely : v.InTime playH264 [] order) :
    deliveries playH264 (v.arrive order) play = (do
      let sink ← v.handedOver playH264 v.h264Entries play.track.sink v.count
      return sink.frames) := by
  have hrun := VideoStream.receiveAll_handedOver hv stapByValue_h264
    (fun x hx => cacheable_h264 _ (hp x hx)) hready hperm htimely
  rcases hrun with hstop | ⟨play', hret, hsink⟩
  · exact Call.stops_eq hstop _ _
  · rw [hsink, Call.ret_bind]
    exact Call.bind_eq_ret.mpr ⟨play', hret, rfl⟩

/-- Order independence: the frames handed on are those of sequence order. -/
theorem order_independent (hv : v.Framed playH264 v.h264Entries)
    (hp : ∀ x < v.count, H264Payload (v.payload x)) (hready : v.Ready playH264 play)
    (hperm : order.Perm (List.range v.count))
    (htimely : v.InTime playH264 [] order) :
    deliveries playH264 (v.arrive order) play =
      deliveries playH264 (v.arrive (List.range v.count)) play := by
  have hnodup : ([] ++ order).Nodup := hperm.nodup_iff.mpr List.nodup_range
  have hroom := VideoStream.inTime_room
    (fun y hy => List.mem_range.mp (hperm.mem_iff.mp hy)) hnodup htimely
  have hsorted := VideoStream.inTime_sorted hv
    (fun y hy => hroom y (hperm.mem_iff.mpr (List.mem_range.mpr hy))) v.count 0 (Nat.zero_add _)
  rw [← List.range_eq_range'] at hsorted
  rw [deliveries_handedOver hv hp hready hperm htimely,
    deliveries_handedOver hv hp hready (List.Perm.refl _) hsorted]

/-- A key frame whose first fragment comes before its parameter sets, and another frame whose
fragments come the other way round. -/
theorem order_independent_five :
    let v : VideoStream :=
      { payloadType := 96
        ssrc := 7
        first := 65534
        count := 5
        timestamp := fun x => if x < 3 then 90 else 180
        marker := fun x => x = 2 || x = 4
        payload := fun x =>
          [[0x78, 0, 2, 0x67, 1, 0, 2, 0x68, 2], [0x7C, 0x85, 0x88], [0x7C, 0x45, 0x89],
            [0x5C, 0x81, 0x9A], [0x5C, 0x41, 0x9B]].getD x [] }
    deliveries playH264 (v.arrive [1, 0, 2, 4, 3]) {} =
      deliveries playH264 (v.arrive [0, 1, 2, 3, 4]) {} := by
  intro v
  have hone : ∀ c < v.count, 0 < c → v.opens playH264 c = false := by decide
  have hmarker : ∀ x < v.count, x + 1 < v.count → v.marker x = true →
      v.timestamp (x + 1) ≠ v.timestamp x := by decide
  have hv : v.Framed playH264 v.h264Entries :=
    { payloadType := by decide
      ssrc := by decide
      timestamp := by decide
      fits := by decide
      marker := fun x hx => hmarker x (Nat.lt_of_succ_lt hx) hx
      whole := by decide
      fresh := by
        intro c hc b hb _ hopen
        rw [hone c hc (by omega)] at hopen
        cases hopen }
  have hp : ∀ x < v.count, H264Payload (v.payload x) := by
    have hall : ∀ x < v.count, v.payload x ≠ [] ∧
        ((v.payload x).getD 0 0 &&& kNalTypeMask = kStapA → 3 < (v.payload x).length) ∧
        ((v.payload x).getD 0 0 &&& kNalTypeMask = kFuA → 2 < (v.payload x).length) := by decide
    exact fun x hx => ⟨(hall x hx).1, (hall x hx).2.1, (hall x hx).2.2⟩
  have htimely : v.InTime playH264 [] [1, 0, 2, 4, 3] :=
    ⟨⟨by decide, by decide, by decide⟩, ⟨by decide, by decide, by decide⟩,
      ⟨by decide, by decide, by decide⟩, ⟨by decide, by decide, by decide⟩,
      ⟨by decide, by decide, by decide⟩, trivial⟩
  have hready : v.Ready playH264 {} := .inr ⟨⟨rfl, by decide, rfl⟩, by decide, by decide⟩
  exact order_independent hv hp hready (by decide) htimely

/-- The last packet of a frame and the first of the key frame behind it change places: the
frame is lost, its packets are cleared with the cache. -/
theorem late_packet_cleared :
    let v : VideoStream :=
      { payloadType := 96
        ssrc := 7
        first := 0
        count := 6
        timestamp := fun x => if x < 2 then 90 else if x < 4 then 180 else 270
        marker := fun x => x = 1 || x = 3 || x = 5
        payload := fun x =>
          [[0x78, 0, 2, 0x67, 1, 0, 2, 0x68, 2], [0x65, 0x88], [0x5C, 0x81, 0x9A],
            [0x5C, 0x41, 0x9B], [0x78, 0, 2, 0x67, 1, 0, 2, 0x68, 2], [0x65, 0x89]].getD x [] }
    deliveries playH264 (v.arrive [0, 1, 2, 4, 3, 5]) {} ≠
      deliveries playH264 (v.arrive [0, 1, 2, 3, 4, 5]) {} := by
  decide +kernel

end Orders

end MetaRtc
