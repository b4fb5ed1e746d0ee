import MetaRtc.Play.Following

/-! # Between two arrivals

What has come determines where the track is, whatever order it came in. -/
namespace MetaRtc

open Bytes Exec

namespace VideoStream

/-- The first packet of a key frame is missing, and some others of the frame have come; none of
them is its last. The header is at the earliest. -/
structure Headless (codec : PlayCodec) (v : VideoStream) (before : List Nat)
    (base start head : Nat) : Prop where
  startEq : start = base
  opens : v.opens codec base = true
  missing : base ∉ before
  headIn : head ∈ before
  earliest : ∀ x ∈ before, base ≤ x → head ≤ x
  inside : ∀ x ∈ before, base ≤ x → x + 1 < v.count ∧ v.frameStart codec (x + 1) = base

/-- What holds between two arrivals. The newest key frame any packet of which has come begins
at `base`; there may have been none yet. -/
structure Gathers (codec : PlayCodec) (v : VideoStream) (entry : Nat → Entry) (sink : FrameSink)
    (r : Nat) (before : List Nat) (play : PlayStream) (base start head lost : Nat) : Prop where
  rests : v.Rests codec entry sink r play.rtpBuffer before start head lost play.track
  root : v.opens codec base = true ∨ base = 0
  baseLe : base ≤ start
  behind : ∀ x < start, x ∈ before
  ahead : ∀ c, v.opens codec c = true → base < c → ∀ x ∈ before, x < c
  headed : head = start ∧ (v.opens codec base = true → base ∈ before) ∨
    v.Headless codec before base start head
  oldest : lost < v.count → v.opens codec lost = false → v.oldest codec lost = start
  keyFrameTs : play.track.keyFrameTs = -1 ∨
    v.opens codec base = true ∧ play.track.keyFrameTs = v.timestamp base
  pending : start = base → v.opens codec base = true → play.track.keyFrameTs = v.timestamp base

section Arriving

variable {codec : PlayCodec} {v : VideoStream} {entry : Nat → Entry}
  {r base start head lost y : Nat} {before : List Nat} {play : PlayStream} {sink : FrameSink}

theorem rtpSeqDistance_behind {s k : Nat} (hpos : 0 < k) (hk : k < 32768) :
    rtpSeqDistance ((s + k) % 65536) (s % 65536) < 0 := by
  simp only [rtpSeqDistance, Int.bmod]
  split <;> omega

/-- A packet that was missing comes to a place behind all that was handed on, inside the cache. -/
theorem gathers_window (h : v.Gathers codec entry sink r before play base start head lost)
    (hy : y ∉ before) (hcount : y < v.count)
    (htimely : v.Timely codec before y)
    (hnormal : ∀ c, v.opens codec c = true → base < c → y < c) :
    start ≤ y ∧ y < start + 512 := by
  have hlo : start ≤ y := by
    by_contra hlt
    exact hy (h.behind y (by omega))
  refine ⟨hlo, ?_⟩
  have hhead : y < head → y < start + 512 := by
    intro hlt
    rcases h.headed with ⟨heq, -⟩ | hless
    · omega
    · have hin := h.rests.slots.inside head hless.headIn
      omega
  have hfar : y < lost → y < start + 512 := by
    intro hlt
    apply hhead
    by_contra hge
    exact hy (h.rests.reached y (by omega) hlt).1
  by_cases hend : lost < v.count
  · by_cases hopen : v.opens codec lost = true
    · apply hfar
      apply hnormal lost hopen
      have hle := h.rests.headLe
      have hle' := h.rests.startLe
      have hbase := h.baseLe
      rcases h.headed with ⟨-, hin⟩ | hless
      · have hne : lost ≠ base := by
          intro heq
          rw [heq] at hopen
          exact h.rests.missing (heq ▸ hin hopen)
        omega
      · have hne : head ≠ base := fun heq => hless.missing (heq ▸ hless.headIn)
        omega
    · rw [← h.oldest hend (by simpa using hopen)]
      exact htimely.room lost hend h.rests.missing
  · exact hfar (by omega)

/-- A packet that shows a key frame belongs to the one under way. -/
theorem gathers_key
    (h : v.Gathers codec entry sink r before play base start head lost) (hlo : start ≤ y)
    (hcount : y < v.count) (hnormal : ∀ c, v.opens codec c = true → base < c → y < c)
    (hkey : v.key codec y = true) :
    v.frameStart codec y = base ∧ start = base ∧ play.track.keyFrameTs = v.timestamp y := by
  have hopen := opens_of_key hkey
  have hle := frameStart_le codec v y
  have hbase := h.baseLe
  have hupper : v.frameStart codec y ≤ base := by
    by_contra hlt
    have hlater := hnormal _ hopen (by omega)
    omega
  have hlower : v.frameStart codec base ≤ v.frameStart codec y := frameStart_mono (by omega)
  have hroot : v.frameStart codec base = base := by
    rcases h.root with hopen | hzero
    · exact (opens_start hopen).1
    · rw [hzero]
      rfl
  rw [hroot] at hlower
  have heq : v.frameStart codec y = base := by omega
  have hstart : start = base := by
    have hbegins := h.rests.begins (by omega)
    rw [(frameStart_between codec (x := y) (y := start) (by omega) hlo).1, heq] at hbegins
    exact hbegins.symm
  refine ⟨heq, hstart, ?_⟩
  have htime := (frameStart_between codec (x := y) (y := base) (by omega) (by omega)).2
  rw [h.pending hstart (heq ▸ hopen), htime]

theorem oldest_reached {x : Nat} (hx : v.opens codec (x + 1) = false)
    (hclose : v.closes codec x = false) : v.oldest codec (x + 1) = v.frameStart codec x := by
  rw [oldest, hclose, hx]
  rfl

/-- After an arrival what holds between two arrivals holds again. -/
theorem gathers_next {play' : PlayStream} {head₁ start' head' lost' : Nat}
    (h : v.Gathers codec entry sink r before play base start head lost)
    (hnormal : ∀ c, v.opens codec c = true → base < c → y < c)
    (hheaded : head₁ = start ∧ (v.opens codec base = true → base ∈ before ++ [y]) ∨
      v.Headless codec (before ++ [y]) base start head₁)
    (hrests : v.Rests codec entry sink r play'.rtpBuffer (before ++ [y]) start' head' lost'
      play'.track)
    (hwent : v.WentOn codec (before ++ [y]) start head₁ play.track.keyFrameTs start' head'
      play'.track) :
    v.Gathers codec entry sink r (before ++ [y]) play' base start' head' lost' where
  rests := hrests
  root := h.root
  baseLe := Nat.le_trans h.baseLe hwent.le
  behind := by
    intro x hx
    by_cases hold : x < start
    · exact List.mem_append_left _ (h.behind x hold)
    · exact hwent.covers x (by omega) hx
  ahead := by
    intro c hopen hc x hx
    rcases List.mem_append.mp hx with hold | hnew
    · exact h.ahead c hopen hc x hold
    · rw [List.mem_singleton.mp hnew]
      exact hnormal c hopen hc
  headed := by
    obtain heq | hlt := Nat.eq_or_lt_of_le hwent.le
    · rw [(hwent.stays heq.symm).1, ← heq]
      exact hheaded
    · have hbase := h.baseLe
      refine .inl ⟨hwent.moves hlt, fun _ => ?_⟩
      by_cases hold : base < start
      · exact List.mem_append_left _ (h.behind base hold)
      · exact hwent.covers base (by omega) (by omega)
  oldest := by
    intro hend hopen
    have hle := hrests.headLe
    by_cases hfar : head' < lost'
    · obtain ⟨x, rfl⟩ : ∃ x, lost' = x + 1 := ⟨lost' - 1, by omega⟩
      obtain ⟨-, hstart, hclose⟩ := hrests.reached x (by omega) (Nat.lt_succ_self x)
      rw [oldest_reached hopen hclose, hstart]
    · obtain rfl : lost' = head' := by omega
      have hmissing := hrests.missing
      obtain heq | hlt := Nat.eq_or_lt_of_le hwent.le
      · rw [(hwent.stays heq.symm).1] at hmissing hopen hend ⊢
        rw [← heq]
        rcases hheaded with ⟨rfl, hbase⟩ | hless
        · rw [List.mem_append, not_or, List.mem_singleton] at hmissing
          have hsame : lost = head₁ := by
            rcases h.headed with ⟨hhead, -⟩ | hless
            · have hlostLe := h.rests.headLe
              by_contra hne
              exact hmissing.1 (h.rests.reached head₁ (by omega) (by omega)).1
            · rw [hless.startEq] at hmissing
              rcases List.mem_append.mp (hbase hless.opens) with hold | hnew
              · exact absurd hold hmissing.1
              · exact absurd (List.mem_singleton.mp hnew) hmissing.2
          rw [← hsame] at hopen hend ⊢
          rw [h.oldest hend hopen, hsame]
        · exact absurd hless.headIn hmissing
      · have hmoved := hwent.moves hlt
        obtain ⟨x, hx⟩ : ∃ x, start' = x + 1 := ⟨start' - 1, by omega⟩
        rcases hwent.settled hlt with hclose | hin
        · rw [hmoved, hx] at hopen ⊢
          rw [hx, Nat.add_sub_cancel] at hclose
          rw [oldest, hclose]
          rfl
        · exact absurd hin (hmoved ▸ hmissing)
  keyFrameTs := by
    rcases hwent.keyFrameTs with hnone | hsame
    · exact .inl hnone
    · rw [hsame]
      exact h.keyFrameTs
  pending := by
    intro heq hopen
    have hle := hwent.le
    have hbase := h.baseLe
    rw [(hwent.stays (by omega)).2]
    exact h.pending (by omega) hopen

theorem reached_append {x : Nat} (h : v.Reached codec before start head x) :
    v.Reached codec (before ++ [y]) start head x := by
  intro k hlo hhi
  obtain ⟨hin, hrest⟩ := h k hlo hhi
  exact ⟨List.mem_append_left _ hin, hrest⟩

theorem rtpSeqDistance_seq {x k : Nat} (hk : k < 32768) :
    rtpSeqDistance (v.seq x) (v.seq (x + k)) = k := by
  rw [← seq_add]
  exact rtpSeqDistance_ahead hk

theorem rtpSeqDistance_seq_behind {x k : Nat} (hpos : 0 < k) (hk : k < 32768) :
    rtpSeqDistance (v.seq (x + k)) (v.seq x) < 0 := by
  have hneg := rtpSeqDistance_behind (s := v.first + x) hpos hk
  rwa [Nat.add_assoc] at hneg

/-- Before the first packet of a key frame comes another one of it that is earlier than those
that have come, or that first packet: the header goes back to it. -/
theorem arrival_back (hv : v.Framed codec entry) (hstap : StapByValue codec)
    (hp : ∀ x < v.count, Cacheable codec (v.marker x) (v.payload x) (entry x))
    (hb : ∀ x ∈ before ++ [y], x < v.count) {rtpBuffer : RtpBuffer} {track : PlayTrackH2645}
    (hslots : v.Slots codec entry r rtpBuffer track.cacheVideoPkts (before ++ [y]) base)
    (hsink : v.handedOver codec entry sink base = .ret track.sink)
    (hheader : track.headerSn = v.seq y)
    (hahead : ∀ x ∈ before ++ [y], base < x → v.opens codec x = false)
    (hless : v.Headless codec before base base head) (hlo : base ≤ y) (hlt : y < head)
    (hstart : v.frameStart codec y = base)
    (hinside : base < y → y + 1 < v.count ∧ v.frameStart codec (y + 1) = base) :
    (y = base ∧ (v.opens codec base = true → base ∈ before ++ [y]) ∨
        v.Headless codec (before ++ [y]) base base y) ∧
      v.ComesToRest codec entry sink r rtpBuffer (before ++ [y]) base y track.keyFrameTs
        (onNextLost codec rtpBuffer.buffer track (findNextLostSn track (v.seq y))) := by
  have hin := hslots.inside y (by simp)
  have hinside' : y ≠ base → ∀ x ∈ before ++ [y], base ≤ x →
      x + 1 < v.count ∧ v.frameStart codec (x + 1) = base := by
    intro hne x hx hle
    rcases List.mem_append.mp hx with hold | hnew
    · exact hless.inside x hold hle
    · rw [List.mem_singleton.mp hnew]
      exact hinside (by omega)
  have hearliest : ∀ x ∈ before ++ [y], base ≤ x → y ≤ x := by
    intro x hx hle
    rcases List.mem_append.mp hx with hold | hnew
    · have hfirst := hless.earliest x hold hle
      omega
    · rw [List.mem_singleton.mp hnew]
  have hbase : base ∈ before ++ [y] → y = base := by
    intro hmem
    have hle := hearliest base hmem (Nat.le_refl _)
    omega
  constructor
  · by_cases heq : y = base
    · exact .inl ⟨heq, fun _ => by simp [heq]⟩
    · exact .inr ⟨rfl, hless.opens, fun hmem => heq (hbase hmem), by simp, hearliest, hinside' heq⟩
  · have hmark : ∀ x ∈ before ++ [y], y ≤ x → v.opens codec x = true → v.marker x = false := by
      intro x hx hle hopen
      have hx' : x = base := by
        by_contra hne
        rw [hahead x hx (by omega)] at hopen
        cases hopen
      subst hx'
      obtain ⟨hcount, hsame⟩ := hless.inside head hless.headIn (by omega)
      have htime := (frameStart_between codec (v := v) (x := head + 1) (y := x + 1) (by omega)
        (by omega)).2.trans (frameStart_between codec (v := v) (x := head + 1) (y := x) (by omega)
        (by omega)).2.symm
      by_contra hm
      exact hv.marker x (by omega) (by simpa using hm) htime
    have hfound := findNextLostSn_found hv hslots hp hb hheader hlo hbase (Nat.le_refl _)
      (by omega) hahead hmark (.inr fun _ => hstart)
      (fun k hk hk' => absurd hk' (Nat.not_lt.mpr hk))
    rw [onNextLost_follow]
    exact follow_rests hv hstap hp hb _ hslots hsink hheader hlo
      (fun _ => (opens_start hless.opens).1) hahead hinside' hfound fun x hx =>
        Nat.lt_succ_of_lt (hslots.inside x hx)

/-- Of a packet behind the header: the search goes on if it is the one waited for. -/
theorem arrival_on (hv : v.Framed codec entry) (hstap : StapByValue codec)
    (hp : ∀ x < v.count, Cacheable codec (v.marker x) (v.payload x) (entry x))
    (h : v.Gathers codec entry sink r before play base start head lost)
    (hb : ∀ x ∈ before ++ [y], x < v.count) {rtpBuffer : RtpBuffer} {track : PlayTrackH2645}
    (hslots : v.Slots codec entry r rtpBuffer track.cacheVideoPkts (before ++ [y]) start)
    (hsink : v.handedOver codec entry sink start = .ret track.sink)
    (hheader : track.headerSn = v.seq head) (hlost : track.lostSn = play.track.lostSn)
    (hahead : ∀ x ∈ before ++ [y], base < x → v.opens codec x = false) (hge : head ≤ y)
    (hy : y ∉ before)
    (hinside : v.Headless codec before base start head →
      y + 1 < v.count ∧ v.frameStart codec (y + 1) = base) :
    (head = start ∧ (v.opens codec base = true → base ∈ before ++ [y]) ∨
        v.Headless codec (before ++ [y]) base start head) ∧
      v.ComesToRest codec entry sink r rtpBuffer (before ++ [y]) start head track.keyFrameTs
        (if track.lostSn = v.seq y then
          onNextLost codec rtpBuffer.buffer track (findNextLostSn track (v.seq y))
        else .ret (yangOk, track)) := by
  have hin := hslots.inside y (by simp)
  have hle := h.rests.startLe
  have hle' := h.rests.headLe
  have hbase := h.baseLe
  have hbound : lost ≤ y := by
    by_contra hlt
    exact hy (h.rests.reached y hge (by omega)).1
  have hheaded : head = start ∧ (v.opens codec base = true → base ∈ before) ∨
      base < head ∧ v.Headless codec (before ++ [y]) base start head := by
    refine h.headed.imp_right fun hless => ?_
    have hlt : base < head := by
      have hne : head ≠ base := fun heq => hless.missing (heq ▸ hless.headIn)
      omega
    refine ⟨hlt, hless.startEq, hless.opens, ?_, List.mem_append_left _ hless.headIn, ?_, ?_⟩
    · rw [List.mem_append, List.mem_singleton, not_or]
      exact ⟨hless.missing, by omega⟩
    · intro x hx hfrom
      rcases List.mem_append.mp hx with hold | hnew
      · exact hless.earliest x hold hfrom
      · rwa [List.mem_singleton.mp hnew]
    · intro x hx hfrom
      rcases List.mem_append.mp hx with hold | hnew
      · exact hless.inside x hold hfrom
      · rw [List.mem_singleton.mp hnew]
        exact hinside hless
  constructor
  · exact hheaded.imp (fun hl => ⟨hl.1, fun hopen => List.mem_append_left _ (hl.2 hopen)⟩)
      And.right
  · have hseq : track.lostSn = v.seq lost := by
      rw [hlost]
      exact h.rests.lost.resolve_right (by omega)
    by_cases heq : lost = y
    · subst heq
      have hmark : ∀ x ∈ before ++ [lost], lost ≤ x → v.opens codec x = true →
          v.marker x = false := by
        intro x hx hfrom hopen
        have hne : base ≠ x := by
          rintro rfl
          rcases hheaded with ⟨-, hmem⟩ | ⟨hlt, -⟩
          · exact hy ((show base = lost by omega) ▸ hmem hopen)
          · omega
        rw [hahead x hx (by omega)] at hopen
        cases hopen
      have hfirst : head < lost ∨ (head ∈ before ++ [lost] → v.frameStart codec head = start) := by
        obtain heq | hlt := Nat.eq_or_lt_of_le hge
        · right
          intro _
          rcases h.headed with ⟨hhead, -⟩ | hless
          · have hcount := hb lost (by simp)
            rw [hhead]
            exact h.rests.begins (by omega)
          · exact absurd (heq ▸ hless.headIn) hy
        · exact .inl hlt
      have hback : start ∈ before ++ [lost] → head = start := by
        intro hmem
        rcases hheaded with ⟨hhead, -⟩ | ⟨-, hless⟩
        · exact hhead
        · exact absurd (hless.startEq ▸ hmem) hless.missing
      have hahead' : ∀ x ∈ before ++ [lost], start < x → v.opens codec x = false :=
        fun x hx hlt => hahead x hx (by omega)
      have hfound := findNextLostSn_found hv hslots hp hb hheader hle hback hge (by omega) hahead'
        hmark hfirst (reached_append h.rests.reached)
      rw [if_pos hseq, onNextLost_follow]
      refine follow_rests hv hstap hp hb _ hslots hsink hheader hle h.rests.begins hahead' ?_ hfound
        fun x hx => Nat.lt_succ_of_lt (hslots.inside x hx)
      intro hne x hx hfrom
      rcases hheaded with ⟨hhead, -⟩ | ⟨-, hless⟩
      · exact absurd hhead hne
      · have hstart := hless.startEq
        rw [hstart]
        exact hless.inside x hx (by omega)
    · have hne : track.lostSn ≠ v.seq y := by
        rw [hseq]
        unfold seq
        omega
      rw [if_neg hne]
      refine .inr ⟨(yangOk, track), rfl, start, head, lost, ?_, wentOn_stays rfl⟩
      refine ⟨hslots, hsink, hheader, reached_append h.rests.reached, h.rests.begins, ?_, hle', hle,
        .inl hseq⟩
      rw [List.mem_append, List.mem_singleton, not_or]
      exact ⟨h.rests.missing, heq⟩

theorem unit_plain (hv : v.Framed codec entry) (hy : y < v.count) : (v.unit y).header.Plain where
  paddingLength := rfl
  ignorePadding := rfl
  cc := rfl
  csrc := rfl
  extensions := rfl
  payloadType := hv.payloadType
  sequence := Nat.mod_lt _ (by decide)
  timestamp := hv.timestamp y hy
  ssrc := hv.ssrc

theorem unit_fits (hv : v.Framed codec entry) (hy : y < v.count) :
    (v.unit y).bytes.length ≤ kRtpPacketSize := by
  have hfit := hv.fits y hy
  simpa [unit, RtpUnit.bytes] using hfit

/-- A packet that is stored points into the slot of the ring it was copied to. -/
theorem unit_stored (hv : v.Framed codec entry) (hy : y < v.count)
    (hp : Cacheable codec (v.marker y) (v.payload y) (entry y)) (rtpBuffer : RtpBuffer)
    (track : PlayTrackH2645) :
    ∃ pkt, storePacket codec (received rtpBuffer (v.unit y).bytes).buffer track
        { header := (v.unit y).header
          naluType :=
            codec.naluType ((received rtpBuffer (v.unit y).bytes).buffer (payloadAt rtpBuffer))
          payload := some (payloadAt rtpBuffer)
          nb := (v.unit y).payload.length } =
        .ret { track with
          cacheVideoPkts :=
            Function.update track.cacheVideoPkts (cacheIndex (v.first + y)) pkt } ∧
      Held codec (received rtpBuffer (v.unit y).bytes).buffer (v.timestamp y) pkt (entry y) ∧
      PointsInto ((rtpBuffer.index + 1) % 1500) pkt := by
  obtain ⟨pkt, hstore, hheld, q, hq, hlo, hhi⟩ := @storePacket_caches codec (entry y)
    (received rtpBuffer (v.unit y).bytes).buffer track (v.unit y).header (payloadAt rtpBuffer)
    (v.payload y) hp.caches (received_payload rtpBuffer (v.unit y))
  have hlength : (v.unit y).bytes.length = 12 + (v.unit y).payload.length := by
    simp [RtpUnit.bytes]
  have hfit := unit_fits hv hy
  have hindex : cacheIndex (v.unit y).header.sequence = cacheIndex (v.first + y) :=
    cacheIndex_mod _
  rw [hindex] at hstore
  refine ⟨pkt, hstore, hheld, q, hq, ?_, ?_⟩
  · simp only [payloadAt] at hlo
    omega
  · have hpayload : (v.payload y).length = (v.unit y).payload.length := rfl
    simp only [payloadAt, kRtpPacketSize] at hlo hhi hfit ⊢
    omega

/-- The step lemma: what comes of a packet that begins no other key frame. -/
theorem arrival_gathers (hv : v.Framed codec entry) (hstap : StapByValue codec)
    (hp : ∀ x < v.count, Cacheable codec (v.marker x) (v.payload x) (entry x))
    (h : v.Gathers codec entry sink r before play base start head lost)
    (hb : ∀ x ∈ before ++ [y], x < v.count) (hnodup : before.Nodup)
    (hspread : before.Pairwise fun x z => x < z + 512) (hy : y ∉ before)
    (htimely : v.Timely codec before y)
    (hnormal : ∀ c, v.opens codec c = true → base < c → y < c) :
    Call.Settles (rtcplayOnVideoRtp codec play (v.unit y).bytes)
      (v.handedOver codec entry sink v.count) fun result =>
        ∃ start' head' lost',
          v.Gathers codec entry sink r (before ++ [y]) result.2 base start' head' lost' := by
  have hcount := hb y (by simp)
  obtain ⟨hlo, hhi⟩ := gathers_window h hy hcount htimely hnormal
  have hslots := h.rests.slots
  have hring : play.rtpBuffer.index < 1500 := by
    rw [hslots.index]
    exact Nat.mod_lt _ (by decide)
  have hwrap := wrapRtpPacket_unit hslots.bufLen hring (unit_plain hv hcount)
  have hpart : isKeyframe codec (received play.rtpBuffer (v.unit y).bytes).buffer
      { header := (v.unit y).header
        naluType := codec.naluType
          ((received play.rtpBuffer (v.unit y).bytes).buffer (payloadAt play.rtpBuffer))
        payload := some (payloadAt play.rtpBuffer)
        nb := (v.unit y).payload.length } = .ret (v.key codec y) :=
    (hp y hcount).keyPart _ _ (v.unit y).header (received_payload play.rtpBuffer (v.unit y))
  obtain ⟨req, plis, hon⟩ := playtrackOnRtp_store play.videoTracks hpart
    (fun hkey => (gathers_key h hlo hcount hnormal hkey).2.2)
  obtain ⟨pkt, hstore, hheld, hpoints⟩ := unit_stored hv hcount (hp y hcount) play.rtpBuffer
    { play.track with hasRequestKeyframe := req, plis }
  have hslots' := slots_store hslots hnodup hspread hy hlo hhi (unit_fits hv hcount) hheld hpoints
  have hahead : ∀ x ∈ before ++ [y], base < x → v.opens codec x = false := by
    intro x hx hlt
    by_contra hopen
    rw [Bool.not_eq_false] at hopen
    rcases List.mem_append.mp hx with hold | hnew
    · exact absurd (h.ahead x hopen hlt x hold) (Nat.lt_irrefl x)
    · rw [List.mem_singleton] at hnew
      exact absurd (hnormal x hopen hlt) (by omega)
  let track₁ : PlayTrackH2645 :=
    { play.track with
      hasRequestKeyframe := req
      plis
      cacheVideoPkts :=
        Function.update play.track.cacheVideoPkts (cacheIndex (v.first + y)) pkt }
  let branch : Call (Err × PlayTrackH2645) :=
    if v.key codec y = true ∧ rtpSeqDistance track₁.headerSn (v.seq y) < 0 then
      let track := { track₁ with headerSn := v.seq y }
      onNextLost codec (received play.rtpBuffer (v.unit y).bytes).buffer track
        (findNextLostSn track (v.seq y))
    else if track₁.lostSn = v.seq y then
      onNextLost codec (received play.rtpBuffer (v.unit y).bytes).buffer track₁
        (findNextLostSn track₁ (v.seq y))
    else .ret (yangOk, track₁)
  have hcall : rtcplayOnVideoRtp codec play (v.unit y).bytes = (do
      let rested ← branch
      return (yangOk,
        { play with
          rtpBuffer := received play.rtpBuffer (v.unit y).bytes
          track := rested.2 })) := by
    simp only [rtcplayOnVideoRtp, hwrap, ne_eq, not_true_eq_false, if_false, hon, hstore,
      Call.ret_bind]
    rfl
  have hinside : base < y → v.Headless codec before base start head →
      v.key codec y = true ∧ y + 1 < v.count ∧ v.frameStart codec (y + 1) = base :=
    fun hlt hless => htimely.ahead base hlt hless.opens hless.missing
  have hrest : ∃ head₁,
      (head₁ = start ∧ (v.opens codec base = true → base ∈ before ++ [y]) ∨
        v.Headless codec (before ++ [y]) base start head₁) ∧
      v.ComesToRest codec entry sink r (received play.rtpBuffer (v.unit y).bytes) (before ++ [y])
        start head₁ play.track.keyFrameTs branch := by
    have hheader : track₁.headerSn = v.seq head := h.rests.header
    have hbase := h.baseLe
    by_cases hback : y < head
    · have hless : v.Headless codec before base start head := by
        refine h.headed.resolve_left fun hl => ?_
        omega
      have hkey : v.key codec y = true := by
        by_cases heq : y = base
        · rw [heq]
          exact (opens_start hless.opens).2
        · exact (hinside (by omega) hless).1
      obtain ⟨hstart, heq, -⟩ := gathers_key h hlo hcount hnormal hkey
      subst heq
      have hin := hslots.inside head hless.headIn
      have hdist : rtpSeqDistance track₁.headerSn (v.seq y) < 0 := by
        have hneg := rtpSeqDistance_seq_behind (v := v) (x := y) (k := head - y) (by omega)
          (by omega)
        rwa [show y + (head - y) = head by omega, ← hheader] at hneg
      have hbranch : branch = _ := if_pos ⟨hkey, hdist⟩
      rw [hbranch]
      refine ⟨y, ?_⟩
      exact arrival_back hv hstap hp hb hslots' h.rests.sink rfl hahead hless hlo hback hstart
        fun hlt => (hinside hlt hless).2
    · have hle := h.rests.startLe
      have hdist : ¬ rtpSeqDistance track₁.headerSn (v.seq y) < 0 := by
        have hpos := rtpSeqDistance_seq (v := v) (x := head) (k := y - head) (by omega)
        rw [show head + (y - head) = y by omega, ← hheader] at hpos
        omega
      have hbranch : branch = _ := if_neg fun hand => hdist hand.2
      rw [hbranch]
      refine ⟨head, arrival_on hv hstap hp h hb hslots' h.rests.sink hheader rfl hahead (by omega)
        hy fun hless => ?_⟩
      have hne : head ≠ base := fun heq => hless.missing (heq ▸ hless.headIn)
      exact (hinside (by omega) hless).2
  obtain ⟨head₁, hheaded, hrest⟩ := hrest
  rw [hcall]
  refine Call.settles_bind hrest ?_
  rintro ⟨err, track⟩ ⟨start', head', lost', hrests, hwent⟩
  exact .inr ⟨_, rfl, start', head', lost', gathers_next h hnormal hheaded hrests hwent⟩

/-- The step lemma: the earliest packet to come of a key frame clears the cache. All packets of
the frames before it are there, and what was not handed on of them is gone. -/
theorem arrival_opens (hv : v.Framed codec entry)
    (hp : ∀ x < v.count, Cacheable codec (v.marker x) (v.payload x) (entry x))
    (hlen : play.rtpBuffer.bufLen = 1500)
    (hidx : play.rtpBuffer.index = (r + before.length) % 1500)
    (hsink : v.handedOver codec entry sink base = .ret play.track.sink)
    (hkf : play.track.keyFrameTs ≠ v.timestamp base) (hopens : v.opens codec base = true)
    (hstart : v.frameStart codec y = base) (hcount : y < v.count) (hbehind : ∀ x < base, x ∈ before)
    (hbefore : ∀ x ∈ before, x < base) (hroom : y < base + 512)
    (hinside : base < y →
      v.key codec y = true ∧ y + 1 < v.count ∧ v.frameStart codec (y + 1) = base)
    (hnodup : before.Nodup) (hspread : before.Pairwise fun x z => x < z + 512) :
    ∃ play', rtcplayOnVideoRtp codec play (v.unit y).bytes = .ret (yangOk, play') ∧
      v.Gathers codec entry sink r (before ++ [y]) play' base base y (y + 1) := by
  have hle := frameStart_le codec v y
  obtain ⟨hbegins, hbaseKey⟩ := opens_start hopens
  have hy : y ∉ before := fun hmem => absurd (hbefore y hmem) (by omega)
  have htime := (frameStart_between codec (v := v) (x := y) (y := base) (by omega) (by omega)).2
  have hkey : v.key codec y = true := by
    by_cases heq : y = base
    · rwa [heq]
    · exact (hinside (by omega)).1
  have hclose : v.closes codec y = false := by
    by_cases heq : y = base
    · simp [closes, heq, hopens]
    · obtain ⟨-, hnext, hsame⟩ := hinside (by omega)
      by_contra hclose
      rw [Bool.not_eq_false] at hclose
      rw [closes_new hv hnext hclose] at hsame
      omega
  have hring : play.rtpBuffer.index < 1500 := by
    rw [hidx]
    exact Nat.mod_lt _ (by decide)
  have hwrap := wrapRtpPacket_unit hlen hring (unit_plain hv hcount)
  have hpart : isKeyframe codec (received play.rtpBuffer (v.unit y).bytes).buffer
      { header := (v.unit y).header
        naluType := codec.naluType
          ((received play.rtpBuffer (v.unit y).bytes).buffer (payloadAt play.rtpBuffer))
        payload := some (payloadAt play.rtpBuffer)
        nb := (v.unit y).payload.length } = .ret true := by
    rw [← hkey]
    exact (hp y hcount).keyPart _ _ (v.unit y).header (received_payload play.rtpBuffer (v.unit y))
  obtain ⟨req, plis, hon⟩ := playtrackOnRtp_first play.videoTracks hpart
    (show play.track.keyFrameTs ≠ (v.timestamp y : Int) by rwa [← htime])
  let cleared := clearCachedVideo { play.track with
    hasRequestKeyframe := req
    plis
    keyFrameTs := v.timestamp y
    headerSn := v.seq y
    lostSn := (v.seq y + 1) % 65536 }
  obtain ⟨pkt, hstore, hheld, hpoints⟩ := unit_stored hv hcount (hp y hcount) play.rtpBuffer cleared
  have hfree : ∀ k, (cleared.cacheVideoPkts (cacheIndex k)).inUse = false := by
    intro k
    simp only [cleared, clearCachedVideo]
    split
    · rfl
    · rename_i huse
      exact (Bool.not_eq_true _).mp huse
  have hslots := slots_store (slots_cleared (v := v) codec entry hlen hidx hfree hbefore) hnodup
    hspread hy (by omega) hroom (unit_fits hv hcount) hheld hpoints
  refine ⟨{ play with
    rtpBuffer := received play.rtpBuffer (v.unit y).bytes
    track := { cleared with
      cacheVideoPkts :=
        Function.update cleared.cacheVideoPkts (cacheIndex (v.first + y)) pkt } }, ?_, ?_⟩
  · simp only [rtcplayOnVideoRtp, hwrap, ne_eq, not_true_eq_false, if_false, hon]
    exact congrArg (· >>= _) (congrArg (· >>= _) hstore)
  · have hmissing : y + 1 ∉ before ++ [y] := by
      rw [List.mem_append, List.mem_singleton, not_or]
      exact ⟨fun hmem => absurd (hbefore _ hmem) (by omega), by omega⟩
    have hfrom : ∀ x ∈ before ++ [y], base ≤ x → x = y := by
      intro x hx hfrom
      rcases List.mem_append.mp hx with hold | hnew
      · exact absurd (hbefore x hold) (by omega)
      · exact List.mem_singleton.mp hnew
    have hreached : v.Reached codec (before ++ [y]) base y (y + 1) := by
      intro x hlo hhi
      obtain rfl : x = y := by omega
      exact ⟨by simp, hstart, hclose⟩
    constructor
    · exact ⟨hslots, hsink, rfl, hreached, fun _ => hbegins, hmissing, Nat.le_succ y, by omega,
        .inl (seq_add v y 1)⟩
    · exact .inl hopens
    · exact Nat.le_refl _
    · exact fun x hx => List.mem_append_left _ (hbehind x hx)
    · intro c hc hlt x hx
      rcases List.mem_append.mp hx with hold | hnew
      · exact Nat.lt_trans (hbefore x hold) hlt
      · rw [List.mem_singleton.mp hnew]
        by_contra hge
        have hsame := (frameStart_between codec (v := v) (x := y) (y := c) (by omega) (by omega)).1
        rw [(opens_start hc).1] at hsame
        omega
    · by_cases heq : y = base
      · exact .inl ⟨heq, fun _ => by simp [heq]⟩
      · refine .inr ⟨rfl, hopens, ?_, by simp, ?_, ?_⟩
        · intro hmem
          exact heq (hfrom base hmem (Nat.le_refl _)).symm
        · intro x hx hlo
          rw [hfrom x hx hlo]
        · intro x hx hlo
          rw [hfrom x hx hlo]
          exact (hinside (by omega)).2
    · intro _ hopen
      rw [oldest_reached hopen hclose, hstart]
    · exact .inr ⟨hopens, congrArg Nat.cast htime.symm⟩
    · exact fun _ _ => congrArg Nat.cast htime.symm

end Arriving

end VideoStream

end MetaRtc
