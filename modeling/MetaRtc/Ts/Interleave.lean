import MetaRtc.Ts.Streams

/-! # Streams that are mixed

The packets of several PIDs come in any order, as long as those of each PID are whole PES, one
after the other. -/
namespace MetaRtc

open Bytes Exec Function Run

/-- The bytes that a packet has for its PES. -/
def tsPayload (data : Mem) : List UInt8 :=
  data.slice (decodeTsHeader data).npos (188 - (decodeTsHeader data).npos)

/-- A PES of sound or pictures with the packets that carry it. `optional` is what its header has
after the times. -/
structure TsPes where
  pid : Nat
  streamId : UInt8
  pesPacketLength : Nat
  control : UInt8
  flags : UInt8
  pts : Nat
  dts : Nat
  optional : List UInt8
  first : Mem
  rest : List Mem

namespace TsPes

variable (pes : TsPes)

def ptsDtsFlags : Nat := pes.flags.toNat / 64

def times : List UInt8 :=
  if pes.ptsDtsFlags = 3 then writePts 3 pes.pts ++ writePts 1 pes.dts
  else if pes.ptsDtsFlags = 2 then writePts 2 pes.pts
  else []

def fields : List UInt8 := pes.times ++ pes.optional

def header : List UInt8 :=
  [0, 0, 1, pes.streamId] ++ beBytes 2 pes.pesPacketLength ++
    [pes.control, pes.flags, UInt8.ofNat pes.fields.length] ++ pes.fields

/-- The data in the first packet. -/
def part : List UInt8 := (tsPayload pes.first).drop pes.header.length

def data : List UInt8 := pes.part ++ pes.rest.flatMap tsPayload

/-- What it should be handed on as. -/
def delivery : TsDelivery := ⟨pes.data, pes.pid, pes.dts, pes.pts⟩

structure WellFormed : Prop where
  streamId : 0xC0 ≤ pes.streamId.toNat ∧ pes.streamId.toNat < 0xF0
  length : pes.pesPacketLength < 2 ^ 16 ∧
    (pes.pesPacketLength = 0 ∨ pes.pesPacketLength = 3 + pes.fields.length + pes.data.length)
  control : pes.control.toNat / 64 = 2
  fields : pes.fields.length < 256
  ptsDtsFlags : pes.ptsDtsFlags ≠ 1
  withoutTimes : pes.ptsDtsFlags = 0 → pes.pts = 0 ∧ pes.dts = 0
  oneTime : pes.ptsDtsFlags = 2 → pes.dts = pes.pts
  pts : pes.pts < 2 ^ 33
  dts : pes.dts < 2 ^ 33
  first : TsCarries pes.first true pes.pid (pes.header ++ pes.part)
  rest : ∀ data ∈ pes.rest, TsCarries data false pes.pid (tsPayload data)

end TsPes

/-- The length of the extension that the demuxer knows of: a pack header is not in it. -/
def knownExtension (extension : Mem) : Nat :=
  let known := 1 + (if bit (extension 0) 7 then 16 else 0) + (if bit (extension 0) 5 then 2 else 0) +
    (if bit (extension 0) 4 then 2 else 0)
  known + if bit (extension 0) 0 then 1 + (extension known).toNat % 128 else 0

/-- The length of the fields after the times that the demuxer knows of: stuffing is not among
them. -/
def knownFields (flags : UInt8) (optional : Mem) : Nat :=
  let known := (if bit flags 5 then 6 else 0) + (if bit flags 4 then 3 else 0) +
    (if bit flags 3 then 1 else 0) + (if bit flags 2 then 1 else 0) + (if bit flags 1 then 2 else 0)
  known + if bit flags 0 then knownExtension fun i => optional (known + i) else 0

/-- A PES of which the demuxer can make out the header and the end. -/
structure TsPes.Understood (pes : TsPes) : Prop where
  optional : pes.optional.length = knownFields pes.flags fun i =>
    pes.first ((decodeTsHeader pes.first).npos + (9 + pes.times.length) + i)
  pts : pes.pts < 2 ^ 31
  dts : pes.dts < 2 ^ 31
  ambiguous : pes.dts = 0 → pes.pts = 0
  whole : pes.rest.flatMap tsPayload = [] ∨ pes.part = [] ∨
    188 < pes.pesPacketLength + (decodeTsHeader pes.first).npos
  data : pes.data ≠ []
  size : pes.data.length < 2 ^ 31

inductive TsSend where
  | begins (pes : TsPes)
  | goesOn (data : Mem) (pid : Nat)

def TsSend.data : TsSend → Mem
  | .begins pes => pes.first
  | .goesOn data _ => data

/-- The sender's side: the PES begun for each PID, and what is left of the last of them. -/
structure TsMux where
  begun : Nat → List TsPes := fun _ => []
  left : Nat → List Mem := fun _ => []

/-- A multiplexer sends the next packet of any PID. -/
inductive TsMux.Sends : TsMux → TsSend → TsMux → Prop where
  | begins {mux : TsMux} {pes : TsPes} : pes.WellFormed → mux.left pes.pid = [] →
      Sends mux (.begins pes) {
        begun := update mux.begun pes.pid (mux.begun pes.pid ++ [pes])
        left := update mux.left pes.pid pes.rest }
  | goesOn {mux : TsMux} {pid : Nat} {data : Mem} {more : List Mem} : mux.left pid = data :: more →
      Sends mux (.goesOn data pid) { mux with left := update mux.left pid more }

/-- A PES begins when all those of other PIDs are complete, and it is understood. -/
def TsMux.Separate (mux : TsMux) : TsSend → Prop
  | .begins pes => (∀ pid, mux.left pid = []) ∧ pes.Understood
  | .goesOn _ _ => True

/-- All PES have been handed on whole, by PID and in order, but for one that may still be
collected. -/
def HandsOnPes (delivered : List TsDelivery) (begun : Nat → List TsPes) : Prop :=
  ∃ collected : List TsDelivery, collected.length ≤ 1 ∧
    ∀ pid, (delivered ++ collected).filter (·.mediaType = pid) = (begun pid).map TsPes.delivery

section Header

variable {pes : TsPes}

theorem advance_if (c : Bool) (pos n : Nat) :
    (if c then pos + n else pos) = pos + if c then n else 0 := by
  cases c <;> rfl

theorem pesExtensionEnd_known (p : Mem) (pos : Nat) :
    pesExtensionEnd p pos = pos + knownExtension fun i => p (pos + i) := by
  unfold pesExtensionEnd knownExtension
  dsimp only
  simp only [advance_if, Nat.add_zero]
  cases bit (p pos) 0
  · simp only [Nat.add_assoc, if_false, Nat.add_zero, Bool.false_eq_true]
  · simp only [Nat.add_assoc, if_true]

theorem pesParse_fields {p : Mem} (hstream : (p 3).toNat ∉ pesWithoutHeader) :
    (pesParse p).pos = 9 + (if (p 7).toNat / 64 = 2 then 5 else if (p 7).toNat / 64 = 3 then 10
      else 0) + knownFields (p 7) fun i => p (9 + (if (p 7).toNat / 64 = 2 then 5
        else if (p 7).toNat / 64 = 3 then 10 else 0) + i) := by
  unfold pesParse knownFields
  dsimp only
  rw [if_neg hstream]
  have htimes : (if (p 7).toNat / 64 = 2 then 9 + 5 else if (p 7).toNat / 64 = 3 then 9 + 10
      else 9) = 9 + (if (p 7).toNat / 64 = 2 then 5 else if (p 7).toNat / 64 = 3 then 10 else 0) := by
    split
    · rfl
    · split <;> rfl
  rw [htimes]
  simp only [pesExtensionEnd_known, advance_if]
  simp only [Nat.add_assoc]

theorem TsPes.header_length (pes : TsPes) : pes.header.length = 9 + pes.fields.length := by
  simp [TsPes.header]
  omega

theorem TsPes.times_length (pes : TsPes) : pes.times.length =
    if pes.ptsDtsFlags = 2 then 5 else if pes.ptsDtsFlags = 3 then 10 else 0 := by
  unfold TsPes.times
  by_cases hthree : pes.ptsDtsFlags = 3
  · rw [if_pos hthree, if_neg (by omega), if_pos hthree]
    rfl
  · rw [if_neg hthree, if_neg hthree]
    split
    · rfl
    · rfl

/-- What the bytes of a header are, as they lie in memory. -/
theorem TsPes.header_bytes {p : Mem} (h : p.slice 0 pes.header.length = pes.header) :
    p 3 = pes.streamId ∧ p.be 4 2 = pes.pesPacketLength % 2 ^ 16 ∧ p 7 = pes.flags ∧
      p.slice 9 pes.times.length = pes.times := by
  have hlen := pes.header_length
  have hbyte : ∀ i, i < 9 → p i = pes.header.getD i 0 := by
    intro i hi
    rw [← h, p.slice_getD 0 (by omega), Nat.zero_add]
  refine ⟨hbyte 3 (by omega), ?_, hbyte 7 (by omega), ?_⟩
  · refine Mem.be_of_slice (n := 2) ?_
    show [p 4, p 5] = _
    rw [hbyte 4 (by omega), hbyte 5 (by omega)]
    rfl
  · have hfields := (Mem.slice_parts h).2
    rw [Nat.zero_add] at hfields
    exact (Mem.slice_parts hfields).1

theorem slice_shift (m : Mem) (k p n : Nat) :
    Mem.slice (fun i => m (k + i)) p n = m.slice (k + p) n := by
  induction n generalizing p with
  | zero => rfl
  | succ n ih =>
    rw [Mem.slice, Mem.slice, ih, Nat.add_assoc]

theorem pesParse_pts {p : Mem} (hstream : (p 3).toNat ∉ pesWithoutHeader) : (pesParse p).pts =
    if (p 7).toNat / 64 = 2 ∨ (p 7).toNat / 64 = 3 then pesTime p 9 else 0 := by
  unfold pesParse
  dsimp only
  rw [if_neg hstream]

theorem pesParse_dts {p : Mem} (hstream : (p 3).toNat ∉ pesWithoutHeader) :
    (pesParse p).dts = if (p 7).toNat / 64 = 3 then pesTime p 14 else 0 := by
  unfold pesParse
  dsimp only
  rw [if_neg hstream]

theorem TsPes.times_both (h : pes.ptsDtsFlags = 3) :
    pes.times = writePts 3 pes.pts ++ writePts 1 pes.dts := if_pos h

theorem TsPes.WellFormed.one_time (hw : pes.WellFormed) (h : pes.ptsDtsFlags ≠ 3) :
    pes.dts = pes.pts := by
  have hflags : pes.ptsDtsFlags = 0 ∨ pes.ptsDtsFlags = 2 := by
    have hone := hw.ptsDtsFlags
    have hlt : pes.ptsDtsFlags < 4 := Nat.div_lt_of_lt_mul pes.flags.toNat_lt
    omega
  cases hflags with
  | inl hnone =>
    obtain ⟨hpts, hdts⟩ := hw.withoutTimes hnone
    rw [hpts, hdts]
  | inr hone => exact hw.oneTime hone

theorem TsPes.WellFormed.read_pts {p : Mem} (hw : pes.WellFormed) (hu : pes.Understood)
    (htimes : p.slice 9 pes.times.length = pes.times) :
    (if pes.ptsDtsFlags = 2 ∨ pes.ptsDtsFlags = 3 then pesTime p 9 else 0) = pes.pts := by
  by_cases hthree : pes.ptsDtsFlags = 3
  · rw [pes.times_both hthree] at htimes
    rw [if_pos (.inr hthree)]
    exact pesTime_exact (Mem.slice_parts htimes).1 hu.pts
  by_cases htwo : pes.ptsDtsFlags = 2
  · have hone : pes.times = writePts 2 pes.pts := by
      rw [TsPes.times, if_neg hthree, if_pos htwo]
    rw [hone] at htimes
    rw [if_pos (.inl htwo)]
    exact pesTime_exact htimes hu.pts
  · rw [if_neg (by omega)]
    have hlt : pes.ptsDtsFlags < 4 := Nat.div_lt_of_lt_mul pes.flags.toNat_lt
    have hone := hw.ptsDtsFlags
    exact (hw.withoutTimes (by omega)).1.symm

theorem TsPes.read_dts {p : Mem} (hu : pes.Understood)
    (htimes : p.slice 9 pes.times.length = pes.times) :
    (if pes.ptsDtsFlags = 3 then pesTime p 14 else 0) =
      if pes.ptsDtsFlags = 3 then pes.dts else 0 := by
  by_cases hthree : pes.ptsDtsFlags = 3
  · rw [pes.times_both hthree] at htimes
    rw [if_pos hthree, if_pos hthree]
    exact pesTime_exact (Mem.slice_parts htimes).2 hu.dts
  · rw [if_neg hthree, if_neg hthree]

/-- The header is read as it was meant. -/
theorem TsPes.parse (hw : pes.WellFormed) (hu : pes.Understood) :
    ∃ start, pesParse (fun i => pes.first ((decodeTsHeader pes.first).npos + i)) = start ∧
      start.pos = pes.header.length ∧ start.pesPacketLength = pes.pesPacketLength ∧
      ∀ bytes, start.delivery pes.pid bytes = ⟨bytes, pes.pid, pes.dts, pes.pts⟩ := by
  obtain ⟨p, hp⟩ : ∃ p : Mem, p = fun i => pes.first ((decodeTsHeader pes.first).npos + i) :=
    ⟨_, rfl⟩
  have hheader : p.slice 0 pes.header.length = pes.header := by
    rw [hp, slice_shift]
    exact (Mem.slice_parts hw.first.body).1
  obtain ⟨hstreamId, hlength, hflags, htimes⟩ := TsPes.header_bytes hheader
  have hknown : pes.optional.length = knownFields pes.flags fun i =>
      p (9 + pes.times.length + i) := by
    rw [hu.optional, hp]
    simp only [Nat.add_assoc]
  rw [← hp]
  have hstream : (p 3).toNat ∉ pesWithoutHeader := by
    have hrange := hw.streamId
    rw [hstreamId]
    simp only [pesWithoutHeader, List.mem_cons, List.not_mem_nil, or_false]
    omega
  refine ⟨_, rfl, ?_, ?_, ?_⟩
  · have hfields : pes.fields.length = pes.times.length + pes.optional.length := List.length_append
    rw [pesParse_fields hstream, hflags, show pes.flags.toNat / 64 = pes.ptsDtsFlags from rfl,
      ← pes.times_length, ← hknown, pes.header_length, hfields, Nat.add_assoc]
  · unfold pesParse
    dsimp only
    rw [if_neg hstream, hlength, Nat.mod_eq_of_lt hw.length.1]
  · intro bytes
    have hpts : (pesParse p).pts = pes.pts := by
      rw [pesParse_pts hstream, hflags]
      exact hw.read_pts hu htimes
    have hdts : (pesParse p).dts = if pes.ptsDtsFlags = 3 then pes.dts else 0 := by
      rw [pesParse_dts hstream, hflags]
      exact TsPes.read_dts hu htimes
    rw [PesStart.delivery, hpts, hdts]
    by_cases hthree : pes.ptsDtsFlags = 3
    · rw [if_pos hthree]
      split
      · rename_i hzero
        rw [hu.ambiguous hzero, hzero]
      · rfl
    · rw [if_neg hthree, if_pos rfl, hw.one_time hthree]

end Header

section Run

variable {mux mux' : TsMux} {d : TsDemux} {send : TsSend}

/-- What is being collected when the packets that are left of it have come. -/
def TsMux.completed (mux : TsMux) (pes : TsDelivery) : TsDelivery :=
  { pes with data := pes.data ++ (mux.left pes.mediaType).flatMap tsPayload }

/-- Both sides agree: at most the PES being collected is not complete, and it is the last. -/
structure TsMux.Agrees (mux : TsMux) (d : TsDemux) (pes : TsDelivery) : Prop where
  collects : d.Collects pes
  others : ∀ pid, pid ≠ pes.mediaType → mux.left pid = []
  left : ∀ data ∈ mux.left pes.mediaType, TsCarries data false pes.mediaType (tsPayload data)
  size : (mux.completed pes).data.length < 2 ^ 31
  begun : ∀ pid, (d.delivered ++ (mux.completed pes).handedOn).filter (·.mediaType = pid) =
    (mux.begun pid).map TsPes.delivery
  streams : mux.left pes.mediaType ≠ [] → d.Streams pes.mediaType

theorem TsMux.Agrees.handsOn {pes : TsDelivery} (h : mux.Agrees d pes) :
    HandsOnPes d.delivered mux.begun := by
  refine ⟨(mux.completed pes).handedOn, ?_, h.begun⟩
  unfold TsDelivery.handedOn
  split
  · exact Nat.zero_le 1
  · exact Nat.le_refl 1

/-- A PES is handed on once, either with its first packet or when all have come. -/
theorem TsPes.handed_once {pes : TsPes} (hu : pes.Understood) (taken : Prop) [Decidable taken]
    (htaken : taken → pes.rest.flatMap tsPayload = [] ∨ pes.part = []) :
    (if taken then TsDelivery.handedOn ⟨pes.part, pes.pid, pes.dts, pes.pts⟩ else []) ++
      TsDelivery.handedOn ⟨(if taken then [] else pes.part) ++ pes.rest.flatMap tsPayload,
        pes.pid, pes.dts, pes.pts⟩ = [pes.delivery] := by
  have hall : TsDelivery.handedOn ⟨pes.part ++ pes.rest.flatMap tsPayload, pes.pid, pes.dts,
      pes.pts⟩ = [pes.delivery] := if_neg hu.data
  by_cases h : taken
  · rw [if_pos h, if_pos h, List.nil_append]
    cases htaken h with
    | inl hrest =>
      rw [hrest, List.append_nil] at hall
      rw [hall, hrest]
      rfl
    | inr hpart =>
      rw [hpart, List.nil_append] at hall
      rw [hall, hpart]
      rfl
  · rw [if_neg h, if_neg h, List.nil_append, hall]

/-- The first packet of a PES. -/
theorem TsMux.Agrees.begins {before : TsDelivery} {pes : TsPes} (h : mux.Agrees d before)
    (hw : pes.WellFormed) (hu : pes.Understood) (hleft : ∀ pid, mux.left pid = [])
    (hs : d.Streams pes.pid) :
    ∃ d' now, decodeUnit d pes.first = .ret (true, d') ∧ d'.tables = d.tables ∧
      TsMux.Agrees {
        begun := update mux.begun pes.pid (mux.begun pes.pid ++ [pes])
        left := update mux.left pes.pid pes.rest } d' now := by
  obtain ⟨start, hparse, hpos, hlength, hwhen⟩ := TsPes.parse hw hu
  have hcompleted : mux.completed before = before := by
    rw [TsMux.completed, hleft, List.flatMap_nil, List.append_nil]
  obtain ⟨d', hdecode, htables, hdelivered, hcollects⟩ :=
    decodeUnit_first hw.first hs h.collects (hcompleted ▸ h.size) hparse hpos
  rw [hwhen] at hdelivered hcollects
  have hnow : ∀ begun : Nat → List TsPes, ∀ bytes,
      TsMux.completed { begun, left := update mux.left pes.pid pes.rest }
        ⟨bytes, pes.pid, pes.dts, pes.pts⟩ =
      ⟨bytes ++ pes.rest.flatMap tsPayload, pes.pid, pes.dts, pes.pts⟩ := by
    intro begun bytes
    show TsDelivery.mk (bytes ++ (update mux.left pes.pid pes.rest pes.pid).flatMap tsPayload)
      pes.pid pes.dts pes.pts = _
    rw [update_self]
  have hwhole : start.TakenWhole (decodeTsHeader pes.first).npos →
      pes.rest.flatMap tsPayload = [] ∨ pes.part = [] := by
    intro htaken
    rw [PesStart.TakenWhole, hlength] at htaken
    have hunderstood := hu.whole
    rw [← or_assoc] at hunderstood
    exact hunderstood.resolve_right (by omega)
  refine ⟨d', _, hdecode, htables, hcollects, ?_, ?_, ?_, ?_, ?_⟩
  · intro pid hpid
    show update mux.left pes.pid pes.rest pid = []
    rw [update_of_ne hpid, hleft]
  · show ∀ data ∈ update mux.left pes.pid pes.rest pes.pid, _
    rw [update_self]
    exact hw.rest
  · rw [hnow]
    have hsize := hu.size
    rw [TsPes.data, List.length_append] at hsize
    rw [List.length_append]
    split
    · exact Nat.lt_of_le_of_lt (Nat.add_le_add_right (Nat.zero_le _) _) hsize
    · exact hsize
  · intro pid
    have hfilter := h.begun pid
    rw [hcompleted] at hfilter
    rw [hnow, hdelivered, List.append_assoc, TsPes.handed_once hu _ hwhole, List.filter_append,
      hfilter]
    show _ = (update mux.begun pes.pid (mux.begun pes.pid ++ [pes]) pid).map TsPes.delivery
    by_cases hpid : pid = pes.pid
    · subst hpid
      rw [update_self, List.map_append]
      exact congrArg (_ ++ ·) (List.filter_cons_of_pos (decide_eq_true rfl))
    · rw [update_of_ne hpid, List.filter_cons_of_neg (by simp [TsPes.delivery, Ne.symm hpid]),
        List.filter_nil, List.append_nil]
  · intro _
    exact hs.congr htables

/-- A packet that goes on with a PES is one of the PES being collected. -/
theorem TsMux.Agrees.goesOn {pes : TsDelivery} {pid : Nat} {data : Mem} {more : List Mem}
    (h : mux.Agrees d pes) (hleft : mux.left pid = data :: more) :
    ∃ d' now, decodeUnit d data = .ret (true, d') ∧ d'.tables = d.tables ∧
      TsMux.Agrees { mux with left := update mux.left pid more } d' now := by
  have hpid : pid = pes.mediaType := by
    by_contra hne
    rw [h.others pid hne] at hleft
    cases hleft
  subst hpid
  have hs : d.Streams pes.mediaType := h.streams (hleft ▸ List.cons_ne_nil _ _)
  have hcarries : TsCarries data false pes.mediaType (tsPayload data) :=
    h.left data (hleft ▸ List.mem_cons_self)
  obtain ⟨d', hdecode, hdelivered, htables, hcollects⟩ := decodeUnit_more hcarries hs h.collects rfl
  have hcompleted : TsMux.completed { mux with left := update mux.left pes.mediaType more }
      { pes with data := pes.data ++ tsPayload data } = mux.completed pes := by
    show TsDelivery.mk (pes.data ++ tsPayload data ++
      (update mux.left pes.mediaType more pes.mediaType).flatMap tsPayload) _ _ _ = _
    rw [update_self, List.append_assoc, ← List.flatMap_cons, ← hleft]
    rfl
  refine ⟨d', _, hdecode, htables, hcollects, ?_, ?_, ?_, ?_, ?_⟩
  · intro pid hpid
    show update mux.left pes.mediaType more pid = []
    rw [update_of_ne hpid]
    exact h.others pid hpid
  · show ∀ data ∈ update mux.left pes.mediaType more pes.mediaType, _
    rw [update_self]
    intro data hdata
    exact h.left data (hleft ▸ List.mem_cons_of_mem _ hdata)
  · rw [hcompleted]
    exact h.size
  · rw [hcompleted, hdelivered]
    exact h.begun
  · intro _
    exact hs.congr htables

theorem tsDecode_cons {data : Mem} {rest : List Mem} {d' : TsDemux} (hsync : data 0 = 0x47)
    (h : decodeUnit d data = .ret (true, d')) : tsDecode d (data :: rest) = tsDecode d' rest := by
  rw [tsDecode, if_neg (not_not_intro hsync), h]
  rfl

/-- One packet, whether it begins a PES or not. -/
theorem TsMux.Agrees.sends {pes : TsDelivery} (h : mux.Agrees d pes) (hsend : mux.Sends send mux')
    (hsep : mux.Separate send) (hs : ∀ pes, send = .begins pes → d.Streams pes.pid) :
    ∃ d' now, send.data 0 = 0x47 ∧ decodeUnit d send.data = .ret (true, d') ∧
      d'.tables = d.tables ∧ mux'.Agrees d' now := by
  cases hsend with
  | begins hw hleft =>
    obtain ⟨hothers, hu⟩ := hsep
    obtain ⟨d', now, hdecode, htables, hagrees⟩ := h.begins hw hu hothers (hs _ rfl)
    exact ⟨d', now, hw.first.sync, hdecode, htables, hagrees⟩
  | @goesOn pid data more hleft =>
    obtain ⟨d', now, hdecode, htables, hagrees⟩ := h.goesOn hleft
    refine ⟨d', now, ?_, hdecode, htables, hagrees⟩
    by_cases hpid : pid = pes.mediaType
    · subst hpid
      exact (h.left data (hleft ▸ List.mem_cons_self)).sync
    · rw [h.others pid hpid] at hleft
      cases hleft

theorem TsMux.Agrees.run {sends : List TsSend} {pes : TsDelivery} (h : mux.Agrees d pes)
    (hrun : Leads TsMux.Sends sends mux mux') (hsep : Throughout TsMux.Sends TsMux.Separate sends mux)
    (hs : ∀ pes, .begins pes ∈ sends → d.Streams pes.pid) :
    ∃ d' now, tsDecode d (sends.map TsSend.data) = .ret d' ∧ mux'.Agrees d' now := by
  induction hrun generalizing d pes with
  | nil => exact ⟨d, pes, rfl, h⟩
  | @cons send sends _ _ _ hsend _ ih =>
    obtain ⟨d₁, now₁, hsync, hdecode, htables, hagrees⟩ := h.sends hsend hsep.1
      fun pes hpes => hs pes (hpes ▸ List.mem_cons_self)
    obtain ⟨d', now, hrest, hagrees'⟩ := ih hagrees (hsep.2 _ hsend)
      fun pes hpes => (hs pes (List.mem_cons_of_mem _ hpes)).congr htables
    refine ⟨d', now, ?_, hagrees'⟩
    rw [List.map_cons, tsDecode_cons hsync hdecode, hrest]

/-- Where PES are not mixed, every PES is handed on whole. Whatever has been sent, all but the
last have been. -/
theorem handsOn_separate {pidVec : List PidInfo} {streamPidVec : List Nat} {sends : List TsSend}
    {mux : TsMux} (hrun : Leads TsMux.Sends sends {} mux)
    (hsep : Throughout TsMux.Sends TsMux.Separate sends {})
    (hs : ∀ pes, .begins pes ∈ sends → TsDemux.Streams { pidVec, streamPidVec } pes.pid) :
    ∃ d, tsDecode { pidVec, streamPidVec } (sends.map TsSend.data) = .ret d ∧
      HandsOnPes d.delivered mux.begun := by
  have hinit : TsMux.Agrees {} { pidVec, streamPidVec } ⟨[], 0, 0, 0⟩ :=
    { collects := collects_nothing (fun _ => rfl) 0
      others := fun _ _ => rfl
      left := fun _ hdata => nomatch hdata
      size := Nat.two_pow_pos 31
      begun := fun _ => rfl
      streams := fun hne => absurd rfl hne }
  obtain ⟨d, now, hdecode, hagrees⟩ := hinit.run hrun hsep hs
  exact ⟨d, hdecode, hagrees.handsOn⟩

/-- A packet without an adaptation field: what it begins with, and a byte that fills it. -/
def plainPacket (bytes : List UInt8) (fill : UInt8) : Mem := fun i => bytes.getD i fill

/-- Two packets of video. -/
def videoPes : TsPes where
  pid := 225
  streamId := 0xe0
  pesPacketLength := 362
  control := 0x80
  flags := 0x80
  pts := 90000
  dts := 90000
  optional := []
  first := plainPacket ([0x47, 0x40, 225, 0x10, 0, 0, 1, 0xe0, 1, 106, 0x80, 0x80, 5] ++
    writePts 2 90000) 7
  rest := [plainPacket [0x47, 0, 225, 0x11] 8]

/-- One packet of sound. -/
def audioPes : TsPes where
  pid := 192
  streamId := 0xc0
  pesPacketLength := 178
  control := 0x80
  flags := 0x80
  pts := 91000
  dts := 91000
  optional := []
  first := plainPacket ([0x47, 0x40, 192, 0x10, 0, 0, 1, 0xc0, 0, 178, 0x80, 0x80, 5] ++
    writePts 2 91000) 9
  rest := []

set_option maxRecDepth 8000 in
theorem videoPes_wellFormed : videoPes.WellFormed where
  streamId := by decide
  length := by decide
  control := by decide
  fields := by decide
  ptsDtsFlags := by decide
  withoutTimes := by decide
  oneTime _ := rfl
  pts := by decide
  dts := by decide
  first := ⟨rfl, rfl, rfl, .inl rfl, rfl, rfl⟩
  rest data hdata := by
    rw [show videoPes.rest = [plainPacket [0x47, 0, 225, 0x11] 8] from rfl,
      List.mem_singleton] at hdata
    subst hdata
    exact ⟨rfl, rfl, rfl, .inl rfl, rfl, rfl⟩

set_option maxRecDepth 8000 in
theorem audioPes_wellFormed : audioPes.WellFormed where
  streamId := by decide
  length := by decide
  control := by decide
  fields := by decide
  ptsDtsFlags := by decide
  withoutTimes := by decide
  oneTime _ := rfl
  pts := by decide
  dts := by decide
  first := ⟨rfl, rfl, rfl, .inl rfl, rfl, rfl⟩
  rest data hdata := nomatch hdata

/-- A packet leaves the sender in one state only. -/
theorem throughout_sends {P : TsMux → TsSend → Prop} {sends : List TsSend}
    (hsend : mux.Sends send mux') (h : P mux send) (hrest : Throughout TsMux.Sends P sends mux') :
    Throughout TsMux.Sends P (send :: sends) mux := by
  refine throughout_cons (fun other hother => ?_) h hrest
  cases hsend with
  | begins => cases hother; rfl
  | goesOn hleft =>
    cases hother with
    | goesOn hleft' =>
      obtain ⟨-, rfl⟩ := List.cons.inj (hleft.symm.trans hleft')
      rfl

theorem streams_two {pid : Nat} (h : pid = 225 ∨ pid = 192) :
    TsDemux.Streams { pidVec := [⟨1, some 0x100⟩], streamPidVec := [225, 192] } pid := by
  rcases h with rfl | rfl
  · exact ⟨by decide, rfl, rfl⟩
  · exact ⟨by decide, rfl, rfl⟩

set_option maxRecDepth 8000 in
theorem videoPes_understood : videoPes.Understood where
  optional := rfl
  pts := by decide
  dts := by decide
  ambiguous h := nomatch h
  whole := .inr (.inr (by decide))
  data h := nomatch congrArg List.length h
  size := by decide

set_option maxRecDepth 8000 in
theorem audioPes_understood : audioPes.Understood where
  optional := rfl
  pts := by decide
  dts := by decide
  ambiguous h := nomatch h
  whole := .inl rfl
  data h := nomatch congrArg List.length h
  size := by decide

def videoRest : Mem := plainPacket [0x47, 0, 225, 0x11] 8

/-- The sound comes after the pictures, and both are handed on. -/
theorem handsOn_in_turn : ∃ mux, Leads TsMux.Sends
      [.begins videoPes, .goesOn videoRest 225, .begins audioPes] {} mux ∧
    ∃ d, tsDecode { pidVec := [⟨1, some 0x100⟩], streamPidVec := [225, 192] }
      ([.begins videoPes, .goesOn videoRest 225, .begins audioPes].map TsSend.data) = .ret d ∧
        HandsOnPes d.delivered mux.begun := by
  have hvideo : TsMux.Sends {} (.begins videoPes)
      ⟨update (fun _ => []) 225 [videoPes], update (fun _ => []) 225 [videoRest]⟩ :=
    .begins videoPes_wellFormed rfl
  have hrest : TsMux.Sends
      ⟨update (fun _ => []) 225 [videoPes], update (fun _ => []) 225 [videoRest]⟩
      (.goesOn videoRest 225)
      ⟨update (fun _ => []) 225 [videoPes], update (update (fun _ => []) 225 [videoRest]) 225 []⟩ :=
    .goesOn rfl
  have hleft : ∀ pid, update (update (fun _ : Nat => []) 225 [videoRest]) 225 [] pid = [] := by
    intro pid
    rw [update_idem]
    exact congrFun (update_eq_self 225 (fun _ => [])) pid
  have haudio : TsMux.Sends
      ⟨update (fun _ => []) 225 [videoPes], update (update (fun _ => []) 225 [videoRest]) 225 []⟩
      (.begins audioPes) _ :=
    .begins audioPes_wellFormed (hleft 192)
  have hrun := Leads.cons hvideo (.cons hrest (.cons haudio (.nil _)))
  refine ⟨_, hrun, handsOn_separate hrun ?_ ?_⟩
  · refine throughout_sends hvideo ⟨fun _ => rfl, videoPes_understood⟩ ?_
    refine throughout_sends hrest trivial ?_
    exact throughout_sends haudio ⟨hleft, audioPes_understood⟩ trivial
  · intro pes hpes
    simp only [List.mem_cons, TsSend.begins.injEq, List.not_mem_nil, or_false, reduceCtorEq,
      false_or] at hpes
    rcases hpes with rfl | rfl
    · exact streams_two (.inl rfl)
    · exact streams_two (.inr rfl)

set_option maxRecDepth 8000 in
/-- The first packet of the pictures is handed on for all of them when the sound comes before the
second. -/
theorem mixed_cut : ¬ ∀ sends mux, Leads TsMux.Sends sends {} mux →
    (∀ pes, .begins pes ∈ sends →
      TsDemux.Streams { pidVec := [⟨1, some 0x100⟩], streamPidVec := [225, 192] } pes.pid) →
    ∃ d, tsDecode { pidVec := [⟨1, some 0x100⟩], streamPidVec := [225, 192] }
      (sends.map TsSend.data) = .ret d ∧ HandsOnPes d.delivered mux.begun := by
  intro h
  have hs : ∀ pes, TsSend.begins pes ∈
      [.begins videoPes, .begins audioPes, .goesOn videoRest 225] →
      TsDemux.Streams { pidVec := [⟨1, some 0x100⟩], streamPidVec := [225, 192] } pes.pid := by
    intro pes hpes
    simp only [List.mem_cons, TsSend.begins.injEq, List.not_mem_nil, or_false, reduceCtorEq]
      at hpes
    rcases hpes with rfl | rfl
    · exact streams_two (.inl rfl)
    · exact streams_two (.inr rfl)
  obtain ⟨d, hdecode, collected, -, hfilter⟩ := h _ _
    (.cons (.begins videoPes_wellFormed rfl) (.cons (.begins audioPes_wellFormed rfl)
      (.cons (.goesOn (show _ = videoRest :: [] from rfl)) (.nil _)))) hs
  have hcut : ∃ pes rest, d.delivered = pes :: rest ∧ pes.mediaType = 225 ∧
      pes.data.length = 170 := by
    have hrun : tsDecode { pidVec := [⟨1, some 0x100⟩], streamPidVec := [225, 192] }
      ([.begins videoPes, .begins audioPes, .goesOn videoRest 225].map TsSend.data) = .ret _ := rfl
    rw [hrun] at hdecode
    cases hdecode
    exact ⟨_, _, rfl, rfl, by decide +kernel⟩
  obtain ⟨pes, rest, hrest, hpid, hlength⟩ := hcut
  have hvideo := hfilter 225
  rw [hrest, List.cons_append, List.filter_cons, if_pos (decide_eq_true hpid)] at hvideo
  have hwhole : pes.data.length = videoPes.data.length :=
    congrArg (fun pes => pes.data.length) (List.cons.inj hvideo).1
  rw [hlength] at hwhole
  exact absurd hwhole (by decide)

end Run

end MetaRtc
