import MetaRtc.Play.Cached

/-! # What frame assembly writes

The assembly of a frame is a loop over slots. What it writes is read off what the slots
hold: units behind their lengths, whichever way they were packed. -/
namespace MetaRtc

open Bytes Exec

/-- The packets of a fragmented unit behind the first one, and their bytes. -/
inductive FuTail (codec : PlayCodec) : List Entry → List UInt8 → Prop
  | last (e : Entry) : e.naluType = codec.fuA → e.bytes ≠ [] → e.fua2.start = false →
      e.fua2.last = true → FuTail codec [e] e.bytes
  | cons (e : Entry) {rest : List Entry} {bs : List UInt8} : e.naluType = codec.fuA →
      e.bytes ≠ [] → e.fua2.start = false → e.fua2.last = false → FuTail codec rest bs →
      FuTail codec (e :: rest) (e.bytes ++ bs)

def behindLength (nalu : List UInt8) : List UInt8 := beBytes 4 nalu.length ++ nalu

/-- The packets of a frame and the units they are put together to. -/
inductive Builds (codec : PlayCodec) : List Entry → List UInt8 → Prop
  | nil : Builds codec [] []
  | raw (e : Entry) {rest : List Entry} {bs : List UInt8} : e.naluType ≠ codec.fuA →
      e.naluType ≠ codec.stapA → e.bytes ≠ [] → Builds codec rest bs →
      Builds codec (e :: rest) (behindLength e.bytes ++ bs)
  | stap (e : Entry) (nalus : List YangSample) {rest : List Entry} {bs : List UInt8} :
      e.naluType ≠ codec.fuA → e.naluType = codec.stapA →
      (∀ m : Mem, m.slice 0 e.bytes.length = e.bytes →
        (codec.decodeStap (initBuffer m e.bytes.length) {}).2.1.nalus = nalus) →
      (∀ nalu ∈ nalus, 0 < nalu.nb) → Builds codec rest bs →
      Builds codec (e :: rest) ((nalus.flatMap fun nalu => behindLength nalu.bytes) ++ bs)
  | unit (e : Entry) {tail rest : List Entry} {bs cs : List UInt8} : e.naluType = codec.fuA →
      e.bytes ≠ [] → e.fua2.start = true → e.fua2.last = false → FuTail codec tail bs →
      Builds codec rest cs → Builds codec (e :: (tail ++ rest))
        (behindLength (codec.fuNaluHeader e.fua2 ++ e.bytes ++ bs) ++ cs)

/-- All that was written between two states went behind what was there. -/
structure Wrote (a b : Output) (bs : List UInt8) : Prop where
  p : b.p = a.p + bs.length
  room : b.buffer.room = a.buffer.room
  bytes : b.buffer.data.slice 0 b.p = a.buffer.data.slice 0 a.p ++ bs

/-- Inside a fragmented unit that begins where `a` stands: behind the room for its length
there are the bytes so far. -/
structure Building (a b : Output) (bs : List UInt8) : Prop where
  p : b.p = a.p + 4 + bs.length
  naluLen : b.naluLen = bs.length
  room : b.buffer.room = a.buffer.room
  front : b.buffer.data.slice 0 a.p = a.buffer.data.slice 0 a.p
  bytes : b.buffer.data.slice (a.p + 4) bs.length = bs

/-- The slots of `n` packets were released, and no others touched. -/
structure Released (cache cache' : Nat → PacketCache) (start n : Nat) : Prop where
  free : ∀ k < n, (cache' (cacheIndex (start + k))).inUse = false
  others : ∀ j, (∀ k < n, cacheIndex (start + k) ≠ j) → cache' j = cache j

/-- The slots from `start` on hold these packets. -/
def HeldAll (codec : PlayCodec) (ring : Mem) (ts : Nat) (cache : Nat → PacketCache) (start : Nat)
    (es : List Entry) : Prop :=
  ∀ k (h : k < es.length), Held codec ring ts (cache (cacheIndex (start + k))) es[k]

section Writing

variable {a b c : Output} {bs cs : List UInt8}

theorem wrote_refl (a : Output) : Wrote a a [] := ⟨rfl, rfl, by simp⟩

theorem wrote_trans (h : Wrote a b bs) (k : Wrote b c cs) : Wrote a c (bs ++ cs) where
  p := by rw [k.p, h.p, List.length_append, Nat.add_assoc]
  room := k.room.trans h.room
  bytes := by rw [k.bytes, h.bytes, List.append_assoc]

theorem put_inside (h : a.p + bs.length ≤ a.buffer.room) :
    a.put bs = .ret
      { a with
        buffer := { a.buffer with data := a.buffer.data.write a.p bs }
        p := a.p + bs.length } := by
  simp only [Output.put, Area.write_inside h, Call.ret_bind, Call.pure_eq]

theorem put_wrote (h : a.p + bs.length ≤ a.buffer.room) :
    ∃ b, a.put bs = .ret b ∧ Wrote a b bs := by
  have hfront : (a.buffer.data.write a.p bs).slice 0 a.p = a.buffer.data.slice 0 a.p :=
    Mem.slice_write_disjoint _ _ _ (.inl (by omega))
  refine ⟨_, put_inside h, rfl, rfl, ?_⟩
  simp only [Mem.slice_append, hfront, Nat.zero_add, Mem.slice_write]

theorem putNalu_wrote (h : a.p + (behindLength bs).length ≤ a.buffer.room) :
    ∃ b, a.putNalu bs = .ret b ∧ Wrote a b (behindLength bs) :=
  put_wrote h

theorem putStap_wrote {nalus : List YangSample} (hpos : ∀ nalu ∈ nalus, 0 < nalu.nb)
    (h : a.p + (nalus.flatMap fun nalu => behindLength nalu.bytes).length ≤ a.buffer.room) :
    ∃ b, a.putStap nalus = .ret b ∧
      Wrote a b (nalus.flatMap fun nalu => behindLength nalu.bytes) := by
  induction nalus generalizing a with
  | nil => exact ⟨a, rfl, wrote_refl a⟩
  | cons nalu rest ih =>
    simp only [List.flatMap_cons, List.length_append] at h
    have hnb : nalu.nb > 0 := hpos nalu List.mem_cons_self
    have hone : a.p + (behindLength nalu.bytes).length ≤ a.buffer.room := by omega
    obtain ⟨b, hput, hw⟩ := putNalu_wrote hone
    have hb : b.p + (rest.flatMap fun nalu => behindLength nalu.bytes).length ≤ b.buffer.room := by
      rw [hw.p, hw.room]
      omega
    obtain ⟨c, hrest, hw'⟩ := ih (fun x hx => hpos x (List.mem_cons_of_mem _ hx)) hb
    refine ⟨c, ?_, ?_⟩
    · simp only [Output.putStap, hnb, if_true, hput, Call.ret_bind, hrest]
    · rw [List.flatMap_cons]
      exact wrote_trans hw hw'

theorem putFua2_first (codec : PlayCodec) {fua2 : Fua2DataCache} (hs : fua2.start = true)
    (h : a.p + 4 + (codec.fuNaluHeader fua2 ++ bs).length ≤ a.buffer.room) :
    ∃ b, a.putFua2 codec fua2 bs = .ret b ∧ Building a b (codec.fuNaluHeader fua2 ++ bs) := by
  have hput : a.putFua2 codec fua2 bs =
      ({ a with naluLen := (codec.fuNaluHeader fua2 ++ bs).length, p := a.p + 4 } : Output).put
        (codec.fuNaluHeader fua2 ++ bs) := by
    simp only [Output.putFua2, hs, if_true]
  refine ⟨_, hput.trans (put_inside h), rfl, rfl, rfl, ?_, ?_⟩
  · exact Mem.slice_write_disjoint _ _ _ (.inl (by dsimp only; omega))
  · exact Mem.slice_write _ _ _

/-- A further fragment goes behind the others, without the length being written yet. -/
theorem building_put (hb : Building a b bs) (h : b.p + cs.length ≤ b.buffer.room) :
    ∃ c, ({ b with naluLen := b.naluLen + cs.length } : Output).put cs = .ret c ∧
      Building a c (bs ++ cs) := by
  have hp := hb.p
  refine ⟨_, put_inside h, ?_, ?_, hb.room, ?_, ?_⟩
  · simp only [hp, List.length_append, Nat.add_assoc]
  · simp only [hb.naluLen, List.length_append]
  · rw [← hb.front]
    exact Mem.slice_write_disjoint _ _ _ (.inl (by dsimp only; omega))
  · have hold : (b.buffer.data.write b.p cs).slice (a.p + 4) bs.length = bs := by
      rw [Mem.slice_write_disjoint _ _ _ (.inl (by omega)), hb.bytes]
    rw [List.length_append, Mem.slice_append, ← hp]
    exact congrArg₂ (· ++ ·) hold (Mem.slice_write _ _ _)

theorem putFua2_mid (codec : PlayCodec) {fua2 : Fua2DataCache} (hs : fua2.start = false)
    (hl : fua2.last = false) (hb : Building a b bs) (h : b.p + cs.length ≤ b.buffer.room) :
    ∃ c, b.putFua2 codec fua2 cs = .ret c ∧ Building a c (bs ++ cs) := by
  obtain ⟨c, hput, hc⟩ := building_put hb h
  refine ⟨c, ?_, hc⟩
  simp only [Output.putFua2, hs, hl, Bool.false_eq_true, if_false, hput, Call.ret_bind,
    Call.pure_eq]

/-- The last fragment of a unit writes its length in front of it. -/
theorem putFua2_last (codec : PlayCodec) {fua2 : Fua2DataCache} (hs : fua2.start = false)
    (hl : fua2.last = true) (hb : Building a b bs) (h : b.p + cs.length ≤ b.buffer.room) :
    ∃ c, b.putFua2 codec fua2 cs = .ret c ∧ Wrote a c (behindLength (bs ++ cs)) := by
  obtain ⟨d, hput, hd⟩ := building_put hb h
  have hp := hd.p
  have hpos : d.p - (4 + d.naluLen) = a.p := by
    rw [hp, hd.naluLen]
    omega
  have hroom : d.p ≤ d.buffer.room := by
    have hbp := hb.p
    rw [hp, hd.room, ← hb.room, List.length_append]
    omega
  have hlen : a.p + (beBytes 4 d.naluLen).length ≤ d.buffer.room := by
    rw [beBytes_length]
    omega
  refine ⟨{ d with buffer := { d.buffer with data := d.buffer.data.write a.p (beBytes 4 d.naluLen) } },
    ?_, ?_, hd.room, ?_⟩
  · simp only [Output.putFua2, hs, hl, Bool.false_eq_true, if_false, if_true, hput, Call.ret_bind,
      hpos, Area.write_inside hlen, Call.pure_eq]
  · simp only [behindLength, List.length_append, beBytes_length] at hp ⊢
    omega
  · have hfront : (d.buffer.data.write a.p (beBytes 4 d.naluLen)).slice 0 a.p =
        a.buffer.data.slice 0 a.p := by
      rw [Mem.slice_write_disjoint _ _ _ (.inl (by omega)), hd.front]
    have hnalu : (d.buffer.data.write a.p (beBytes 4 d.naluLen)).slice (a.p + 4) (bs ++ cs).length =
        bs ++ cs := by
      rw [Mem.slice_write_disjoint _ _ _ (.inr (by rw [beBytes_length])), hd.bytes]
    have hhead : (d.buffer.data.write a.p (beBytes 4 d.naluLen)).slice a.p 4 =
        beBytes 4 d.naluLen := by
      have hw := d.buffer.data.slice_write a.p (beBytes 4 d.naluLen)
      rwa [beBytes_length] at hw
    show (d.buffer.data.write a.p (beBytes 4 d.naluLen)).slice 0 d.p = _
    rw [hp, Mem.slice_append, Mem.slice_append, Nat.zero_add, Nat.zero_add, hfront, hhead, hnalu,
      hd.naluLen, List.append_assoc, behindLength]

end Writing

section Slots

variable {codec : PlayCodec} {ring : Mem} {ts start m n : Nat} {e : Entry} {es fs : List Entry}
  {cache cache₁ cache₂ : Nat → PacketCache} {out : Output}

theorem released_refl (cache : Nat → PacketCache) (start : Nat) : Released cache cache start 0 :=
  ⟨fun _ h => absurd h (Nat.not_lt_zero _), fun _ _ => rfl⟩

theorem released_trans (h : Released cache cache₁ start m)
    (k : Released cache₁ cache₂ (start + m) n) (hlen : m + n ≤ 512) :
    Released cache cache₂ start (m + n) where
  free := by
    intro i hi
    by_cases hm : i < m
    · rw [k.others]
      · exact h.free i hm
      · intro j hj
        rw [Nat.add_assoc]
        exact cacheIndex_ne (by omega) (by omega) (by omega)
    · have hfree := k.free (i - m) (by omega)
      rwa [show start + m + (i - m) = start + i by omega] at hfree
  others := by
    intro j hj
    rw [k.others, h.others]
    · exact fun i hi => hj i (by omega)
    · intro i hi
      rw [Nat.add_assoc]
      exact hj (m + i) (by omega)

/-- One slot is released, with whatever is left in it. -/
theorem released_update {pkt : PacketCache} (cache : Nat → PacketCache) (start : Nat)
    (h : pkt.inUse = false) :
    Released cache (Function.update cache (cacheIndex start) pkt) start 1 where
  free := by
    intro k hk
    obtain rfl : k = 0 := by omega
    rw [Nat.add_zero, Function.update_self]
    exact h
  others := by
    intro j hj
    exact Function.update_of_ne (Ne.symm (hj 0 Nat.one_pos)) _ _

theorem heldAll_tail (es : List Entry) (h : HeldAll codec ring ts cache start (es ++ fs))
    (hr : Released cache cache₁ start es.length) (hlen : (es ++ fs).length ≤ 512) :
    HeldAll codec ring ts cache₁ (start + es.length) fs := by
  intro k hk
  rw [List.length_append] at hlen
  have hheld := h (es.length + k) (by rw [List.length_append]; omega)
  rw [List.getElem_append_right (by omega)] at hheld
  simp only [Nat.add_sub_cancel_left] at hheld
  rw [hr.others, Nat.add_assoc]
  · exact hheld
  · intro i hi
    rw [Nat.add_assoc]
    exact cacheIndex_ne (by omega) (by omega) (by omega)

theorem heldAll_head (h : HeldAll codec ring ts cache start (e :: es)) :
    Held codec ring ts (cache (cacheIndex start)) e :=
  h 0 (Nat.zero_lt_succ _)

/-- A fragment is handed over by value, and its slot released. -/
theorem packetOne_fua2 {i : Nat} (h : Held codec ring ts (cache (cacheIndex (start + i))) e)
    (hfu : e.naluType = codec.fuA) (hne : e.bytes ≠ []) {out' : Output}
    (hput : out.putFua2 codec e.fua2 e.bytes = .ret out') :
    ∃ cache', packetOne codec ring start i cache out = .ret (cache', out') ∧
      Released cache cache' (start + i) 1 := by
  have hlen : 0 < e.bytes.length := List.length_pos_of_ne_nil hne
  obtain ⟨p, hp, hbytes⟩ := h.bytes
  refine ⟨Function.update cache (cacheIndex (start + i))
    { cache (cacheIndex (start + i)) with inUse := false, fua2 := {} }, ?_,
    released_update _ _ rfl⟩
  simp only [packetOne, h.naluType, hfu, h.nb, gt_iff_lt, hlen, and_self, if_true, hp,
    Call.deref_some, Call.ret_bind, h.fua2 hfu, hbytes, hput, Function.update_idem, Call.pure_eq]

theorem packetOne_stap {i : Nat} (h : Held codec ring ts (cache (cacheIndex (start + i))) e)
    (hfu : e.naluType ≠ codec.fuA) (hst : e.naluType = codec.stapA) {nalus : List YangSample}
    (hdec : ∀ m : Mem, m.slice 0 e.bytes.length = e.bytes →
      (codec.decodeStap (initBuffer m e.bytes.length) {}).2.1.nalus = nalus) {out' : Output}
    (hput : out.putStap nalus = .ret out') :
    ∃ cache', packetOne codec ring start i cache out = .ret (cache', out') ∧
      Released cache cache' (start + i) 1 := by
  obtain ⟨p, hp, hbytes⟩ := h.bytes
  have hdrop : (ring.drop p).slice 0 e.bytes.length = e.bytes := by
    rw [Mem.slice_drop, Nat.add_zero, hbytes]
  have hst' : codec.stapA ≠ codec.fuA := hst ▸ hfu
  refine ⟨Function.update cache (cacheIndex (start + i))
    { cache (cacheIndex (start + i)) with inUse := false }, ?_, released_update _ _ rfl⟩
  simp only [packetOne, h.naluType, hst, hst', h.nb, false_and, if_false, if_true, hp,
    Call.deref_some, Call.ret_bind, hdec _ hdrop, hput, Call.pure_eq]

theorem packetOne_raw {i : Nat} (h : Held codec ring ts (cache (cacheIndex (start + i))) e)
    (hfu : e.naluType ≠ codec.fuA) (hst : e.naluType ≠ codec.stapA) (hne : e.bytes ≠ [])
    {out' : Output} (hput : out.putNalu e.bytes = .ret out') :
    ∃ cache', packetOne codec ring start i cache out = .ret (cache', out') ∧
      Released cache cache' (start + i) 1 := by
  have hlen : 0 < e.bytes.length := List.length_pos_of_ne_nil hne
  obtain ⟨p, hp, hbytes⟩ := h.bytes
  refine ⟨Function.update cache (cacheIndex (start + i))
    { cache (cacheIndex (start + i)) with inUse := false, payload := none }, ?_,
    released_update _ _ rfl⟩
  simp only [packetOne, h.naluType, hst, hfu, h.nb, false_and, if_false, if_true, hp, gt_iff_lt,
    hlen, hbytes, hput, Call.ret_bind, Function.update_idem, Call.pure_eq]

/-- The loop over the packets of a frame, where it is cut in two. -/
theorem assembleLoop_cons {i k : Nat} {out' : Output}
    (h : packetOne codec ring start i cache out = .ret (cache₁, out')) :
    assembleLoop codec ring start (k + 1) i cache out =
      assembleLoop codec ring start k (i + 1) cache₁ out' := by
  simp only [assembleLoop, h, Call.ret_bind]

/-- The rest of a fragmented unit. The loop goes on behind it with whatever is left. -/
theorem assembleLoop_tail {first : Output} {bs cs : List UInt8} (ht : FuTail codec es cs)
    {i : Nat} (hheld : HeldAll codec ring ts cache (start + i) es) (hlen : es.length ≤ 512)
    (hb : Building first out bs)
    (hroom : first.p + (behindLength (bs ++ cs)).length ≤ first.buffer.room) :
    ∃ cache' out', (∀ k, assembleLoop codec ring start (es.length + k) i cache out =
        assembleLoop codec ring start k (i + es.length) cache' out') ∧
      Wrote first out' (behindLength (bs ++ cs)) ∧
      Released cache cache' (start + i) es.length := by
  have hlength : (behindLength (bs ++ cs)).length = 4 + bs.length + cs.length := by
    simp only [behindLength, List.length_append, beBytes_length, Nat.add_assoc]
  induction ht generalizing i cache out bs with
  | last e hfu hne hs hl =>
    have hput : out.p + e.bytes.length ≤ out.buffer.room := by
      rw [hb.p, hb.room]
      omega
    obtain ⟨out', hput, hw⟩ := putFua2_last codec hs hl hb hput
    obtain ⟨cache', hone, hr⟩ := packetOne_fua2 (heldAll_head hheld) hfu hne hput
    refine ⟨cache', out', fun k => ?_, hw, hr⟩
    rw [List.length_singleton, Nat.add_comm 1 k]
    exact assembleLoop_cons hone
  | cons e hfu hne hs hl hrest ih =>
    rename_i rest bs'
    rw [← List.append_assoc] at hroom ⊢
    simp only [List.length_append] at hlength
    have hput : out.p + e.bytes.length ≤ out.buffer.room := by
      rw [hb.p, hb.room]
      simp only [behindLength, List.length_append, beBytes_length] at hroom
      omega
    obtain ⟨out₁, hput, hb₁⟩ := putFua2_mid codec hs hl hb hput
    obtain ⟨cache₁, hone, hr⟩ := packetOne_fua2 (heldAll_head hheld) hfu hne hput
    have hrestHeld : HeldAll codec ring ts cache₁ (start + (i + 1)) rest :=
      heldAll_tail [e] hheld hr hlen
    rw [List.length_cons] at hlen
    obtain ⟨cache', out', hloop, hw, hr'⟩ := ih hrestHeld (by omega) hb₁ hroom (by
      simp only [behindLength, List.length_append, beBytes_length, Nat.add_assoc])
    refine ⟨cache', out', fun k => ?_, hw, ?_⟩
    · rw [List.length_cons, Nat.add_right_comm, assembleLoop_cons hone, hloop, Nat.add_right_comm,
        Nat.add_assoc]
    · rw [List.length_cons, Nat.add_comm rest.length 1]
      exact released_trans hr hr' (by omega)

/-- What the packets of a frame build is what the loop writes, if there is room for it. -/
theorem assembleLoop_builds (out : Output) {bs : List UInt8} (hb : Builds codec es bs) {i : Nat}
    (hheld : HeldAll codec ring ts cache (start + i) es) (hlen : es.length ≤ 512)
    (hroom : out.p + bs.length ≤ out.buffer.room) :
    ∃ cache' out', assembleLoop codec ring start es.length i cache out = .ret (cache', out') ∧
      Wrote out out' bs ∧ Released cache cache' (start + i) es.length := by
  induction hb generalizing i cache out with
  | nil => exact ⟨cache, out, rfl, wrote_refl out, released_refl _ _⟩
  | raw e hfu hst hne hrest ih =>
    rename_i rest bs'
    rw [List.length_append] at hroom
    have hfits : out.p + (behindLength e.bytes).length ≤ out.buffer.room := by omega
    obtain ⟨out₁, hput, hw⟩ := putNalu_wrote hfits
    obtain ⟨cache₁, hone, hr⟩ := packetOne_raw (heldAll_head hheld) hfu hst hne hput
    have hrestHeld := heldAll_tail [e] hheld hr hlen
    rw [List.length_cons] at hlen
    obtain ⟨cache', out', hloop, hw', hr'⟩ := ih _ (i := i + 1) hrestHeld (by omega)
      (by rw [hw.p, hw.room]; omega)
    refine ⟨cache', out', ?_, wrote_trans hw hw', ?_⟩
    · rw [List.length_cons, assembleLoop_cons hone, hloop]
    · rw [List.length_cons, Nat.add_comm rest.length 1]
      exact released_trans hr hr' (by omega)
  | stap e nalus hfu hst hdec hpos hrest ih =>
    rename_i rest bs'
    rw [List.length_append] at hroom
    have hfits : out.p + (nalus.flatMap fun nalu => behindLength nalu.bytes).length ≤
        out.buffer.room := by omega
    obtain ⟨out₁, hput, hw⟩ := putStap_wrote hpos hfits
    obtain ⟨cache₁, hone, hr⟩ := packetOne_stap (heldAll_head hheld) hfu hst hdec hput
    have hrestHeld := heldAll_tail [e] hheld hr hlen
    rw [List.length_cons] at hlen
    obtain ⟨cache', out', hloop, hw', hr'⟩ := ih _ (i := i + 1) hrestHeld (by omega)
      (by rw [hw.p, hw.room]; omega)
    refine ⟨cache', out', ?_, wrote_trans hw hw', ?_⟩
    · rw [List.length_cons, assembleLoop_cons hone, hloop]
    · rw [List.length_cons, Nat.add_comm rest.length 1]
      exact released_trans hr hr' (by omega)
  | unit e hfu hne hs hl ht hrest ih =>
    rename_i tail rest bs' cs
    have hparts : (behindLength (codec.fuNaluHeader e.fua2 ++ e.bytes ++ bs') ++ cs).length =
        4 + (codec.fuNaluHeader e.fua2 ++ e.bytes).length + bs'.length + cs.length := by
      simp only [behindLength, List.length_append, beBytes_length, Nat.add_assoc]
    have hfits : out.p + 4 + (codec.fuNaluHeader e.fua2 ++ e.bytes).length ≤ out.buffer.room := by
      omega
    obtain ⟨out₁, hput, hb₁⟩ := putFua2_first codec hs hfits
    obtain ⟨cache₁, hone, hr⟩ := packetOne_fua2 (heldAll_head hheld) hfu hne hput
    have hheld₁ : HeldAll codec ring ts cache₁ (start + (i + 1)) (tail ++ rest) :=
      heldAll_tail [e] hheld hr hlen
    simp only [List.length_cons, List.length_append] at hlen hroom
    have htailHeld : HeldAll codec ring ts cache₁ (start + (i + 1)) tail := by
      intro k hk
      have hk' := hheld₁ k (by rw [List.length_append]; omega)
      rwa [List.getElem_append_left hk] at hk'
    obtain ⟨cache₂, out₂, htail, hw, hr₁⟩ :=
      assembleLoop_tail ht htailHeld (by omega) hb₁ (by omega)
    have hrestHeld : HeldAll codec ring ts cache₂ (start + (i + 1 + tail.length)) rest := by
      rw [← Nat.add_assoc]
      exact heldAll_tail tail hheld₁ hr₁ (by rw [List.length_append]; omega)
    have hroom' : out₂.p + cs.length ≤ out₂.buffer.room := by
      rw [hw.p, hw.room]
      omega
    obtain ⟨cache', out', hloop, hw', hr₂⟩ := ih _ hrestHeld (by omega) hroom'
    refine ⟨cache', out', ?_, wrote_trans hw hw', ?_⟩
    · rw [List.length_cons, List.length_append, assembleLoop_cons hone, htail, hloop]
    · rw [List.length_cons, List.length_append, Nat.add_comm _ 1]
      refine released_trans hr (released_trans hr₁ ?_ (by omega)) (by omega)
      rwa [← Nat.add_assoc] at hr₂

end Slots

section Frame

variable {codec : PlayCodec} {ring : Mem} {ts start : Nat} {e : Entry} {es : List Entry}
  {pkt : PacketCache} {track track' : PlayTrackH2645} {bs : List UInt8} {out out' : Output}

/-- Whether a cached packet begins a key frame. -/
def Entry.key (codec : PlayCodec) (e : Entry) : Bool :=
  if e.naluType = codec.stapA then codec.stapKey (e.bytes.getD codec.stapNalu 0)
  else if e.naluType = codec.fuA then
    decide (e.bytes.getD 0 0 &&& kNalTypeMask = yangAvcNaluTypeIDR)
  else codec.rawKey e.naluType

theorem isKeyframe2_held (h : Held codec ring ts pkt e) (hne : e.bytes ≠ [])
    (hstap : e.naluType = codec.stapA → codec.stapNalu < e.bytes.length) :
    isKeyframe2 codec ring pkt = .ret (e.key codec) := by
  have hlen : 0 < e.bytes.length := List.length_pos_of_ne_nil hne
  obtain ⟨p, hp, hbytes⟩ := h.bytes
  unfold isKeyframe2 Entry.key
  rw [h.naluType, hp]
  split
  · rename_i hst
    have hd := ring.slice_getD p (hstap hst) 0
    rw [hbytes] at hd
    rw [hd]
    rfl
  · split
    · have hd := ring.slice_getD p hlen 0
      rw [hbytes, Nat.add_zero] at hd
      rw [hd]
      rfl
    · rfl

theorem frameCount_eq {k : Nat} (hs : start < 65536) (hk : k < 512) :
    frameCount start ((start + k) % 65536) = k + 1 := by
  unfold frameCount
  omega

/-- The frame that is put together from the packets held: tag and units. -/
theorem assembleFrame_builds (track : PlayTrackH2645) (hb : Builds codec (e :: es) bs)
    (hheld : HeldAll codec ring ts track.cacheVideoPkts start (e :: es))
    (hlen : (e :: es).length ≤ 512) (hstart : start < 65536) (hne : e.bytes ≠ [])
    (hstap : e.naluType = codec.stapA → codec.stapNalu < e.bytes.length)
    (hroom : 5 + bs.length ≤ track.videoBuffer.room) :
    ∃ cache buffer,
      assembleFrame codec ring track start ((start + es.length) % 65536) = .ret
        ({ track with
            keyFrameTs := if e.key codec then -1 else track.keyFrameTs
            cacheVideoPkts := cache
            videoBuffer := buffer }, 5 + bs.length) ∧
      buffer.data.slice 0 (5 + bs.length) =
        (if e.key codec then codec.keyTag else codec.interTag) :: 0x01 :: 0x00 :: 0x00 :: 0x00 :: bs ∧
      buffer.room = track.videoBuffer.room ∧
      Released track.cacheVideoPkts cache start (es.length + 1) := by
  have hkey := isKeyframe2_held (heldAll_head hheld) hne hstap
  rw [List.length_cons] at hlen
  let head := [if e.key codec then codec.keyTag else codec.interTag, 0x01, 0x00, 0x00, 0x00]
  have hhead : 0 + head.length ≤ track.videoBuffer.room := by
    show 5 ≤ track.videoBuffer.room
    omega
  let buffer : Area := { track.videoBuffer with data := track.videoBuffer.data.write 0 head }
  have hwrite : track.videoBuffer.write 0 head = .ret buffer := Area.write_inside hhead
  obtain ⟨cache, out, hloop, hw, hr⟩ := assembleLoop_builds ⟨buffer, 5, 0⟩ (i := 0) hb
    hheld (by rw [List.length_cons]; omega) hroom
  refine ⟨cache, out.buffer, ?_, ?_, hw.room, hr⟩
  · have htrack : (if e.key codec then { track with keyFrameTs := -1 } else track) =
        { track with keyFrameTs := if e.key codec then -1 else track.keyFrameTs } := by
      split <;> rfl
    have hcount := frameCount_eq hstart (show es.length < 512 by omega)
    rw [List.length_cons] at hloop
    simp only [assembleFrame, hkey, Call.ret_bind, htrack]
    rw [hwrite]
    simp only [Call.ret_bind, hcount, hloop, hw.p, Call.pure_eq]
  · have hbytes := hw.bytes
    have hfront : buffer.data.slice 0 5 = head := Mem.slice_write _ 0 head
    rw [hw.p, hfront] at hbytes
    exact hbytes

theorem put_room (h : out.put bs = .ret out') :
    out'.p ≤ out'.buffer.room ∧ out'.buffer.room = out.buffer.room := by
  obtain ⟨buffer, hwrite, hret⟩ := Call.bind_eq_ret.mp h
  obtain ⟨hle, rfl⟩ := Area.write_eq_ret.mp hwrite
  cases hret
  exact ⟨hle, rfl⟩

theorem putFua2_room {fua2 : Fua2DataCache} (h : out.putFua2 codec fua2 bs = .ret out') :
    out'.p ≤ out'.buffer.room ∧ out'.buffer.room = out.buffer.room := by
  simp only [Output.putFua2] at h
  split at h
  · obtain ⟨hp, hroom⟩ := put_room h
    exact ⟨hp, hroom⟩
  · obtain ⟨mid, hput, hrest⟩ := Call.bind_eq_ret.mp h
    have hmid := put_room hput
    split at hrest
    · obtain ⟨buffer, hwrite, hret⟩ := Call.bind_eq_ret.mp hrest
      obtain ⟨_, rfl⟩ := Area.write_eq_ret.mp hwrite
      cases hret
      exact hmid
    · cases hrest
      exact hmid

theorem putStap_room {nalus : List YangSample} (h0 : out.p ≤ out.buffer.room)
    (h : out.putStap nalus = .ret out') :
    out'.p ≤ out'.buffer.room ∧ out'.buffer.room = out.buffer.room := by
  induction nalus generalizing out with
  | nil =>
    cases h
    exact ⟨h0, rfl⟩
  | cons nalu rest ih =>
    simp only [Output.putStap] at h
    split at h
    · obtain ⟨mid, hput, hrest⟩ := Call.bind_eq_ret.mp h
      obtain ⟨hmid, hroom⟩ := put_room hput
      obtain ⟨hp, hroom'⟩ := ih hmid hrest
      exact ⟨hp, hroom'.trans hroom⟩
    · exact ih h0 h

/-- However the slots are filled, a packet leaves the output inside its buffer. -/
theorem packetOne_room {i : Nat} {cache cache' : Nat → PacketCache}
    (h0 : out.p ≤ out.buffer.room)
    (h : packetOne codec ring start i cache out = .ret (cache', out')) :
    out'.p ≤ out'.buffer.room ∧ out'.buffer.room = out.buffer.room := by
  simp only [packetOne] at h
  split at h
  · obtain ⟨p, -, hrest⟩ := Call.bind_eq_ret.mp h
    obtain ⟨mid, hput, hret⟩ := Call.bind_eq_ret.mp hrest
    cases hret
    exact putFua2_room hput
  · split at h
    · obtain ⟨p, -, hrest⟩ := Call.bind_eq_ret.mp h
      obtain ⟨mid, hput, hret⟩ := Call.bind_eq_ret.mp hrest
      cases hret
      exact putStap_room h0 hput
    · split at h
      · split at h
        · obtain ⟨mid, hput, hret⟩ := Call.bind_eq_ret.mp h
          cases hret
          exact put_room hput
        · obtain ⟨mid, -, hret⟩ := Call.bind_eq_ret.mp h
          cases hret
          exact ⟨h0, rfl⟩
      · obtain ⟨mid, -, hret⟩ := Call.bind_eq_ret.mp h
        cases hret
        exact ⟨h0, rfl⟩

theorem assembleLoop_room {n i : Nat} {cache cache' : Nat → PacketCache}
    (h0 : out.p ≤ out.buffer.room)
    (h : assembleLoop codec ring start n i cache out = .ret (cache', out')) :
    out'.p ≤ out'.buffer.room ∧ out'.buffer.room = out.buffer.room := by
  induction n generalizing i cache out with
  | zero =>
    cases h
    exact ⟨h0, rfl⟩
  | succ n ih =>
    obtain ⟨⟨cache₁, mid⟩, hone, hrest⟩ := Call.bind_eq_ret.mp h
    obtain ⟨hmid, hroom⟩ := packetOne_room h0 hone
    obtain ⟨hp, hroom'⟩ := ih hmid hrest
    exact ⟨hp, hroom'.trans hroom⟩

/-- No frame is longer than the video buffer. -/
theorem assembleFrame_room {last nb : Nat}
    (h : assembleFrame codec ring track start last = .ret (track', nb)) :
    nb ≤ track.videoBuffer.room ∧ track'.videoBuffer.room = track.videoBuffer.room := by
  obtain ⟨key, -, h⟩ := Call.bind_eq_ret.mp h
  obtain ⟨buffer, hwrite, h⟩ := Call.bind_eq_ret.mp h
  obtain ⟨⟨cache, out⟩, hloop, hret⟩ := Call.bind_eq_ret.mp h
  have hvideo : (if key then { track with keyFrameTs := -1 } else track).videoBuffer =
      track.videoBuffer := by
    split <;> rfl
  rw [hvideo] at hwrite
  obtain ⟨hhead, rfl⟩ := Area.write_eq_ret.mp hwrite
  cases hret
  obtain ⟨hp, hroom⟩ := assembleLoop_room (by simpa using hhead) hloop
  exact ⟨hroom ▸ hp, hroom⟩

end Frame

end MetaRtc
