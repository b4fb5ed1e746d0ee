import MetaRtc.Rtcp.Nack
import MetaRtc.Sorted

/-! # The numbers a retransmission request denotes

They are read into an array, each looked up first. The order that the search goes by is
one only among numbers of half the cycle. -/
namespace MetaRtc

open Bytes

/-- A request with these entries, whatever its first two bytes are. -/
def nackPacket (b0 b1 : UInt8) (ssrc mediaSsrc : Nat) (chunks : List PidBlp) : List UInt8 :=
  [b0, b1] ++ (beBytes 2 (2 + chunks.length) ++ (beBytes 4 ssrc ++ (beBytes 4 mediaSsrc ++
    chunks.flatMap PidBlp.bytes)))

/-- The numbers that the entries denote, in the order they are read. -/
def denoted (chunks : List PidBlp) : List Nat := chunks.flatMap PidBlp.numbers

/-- The list has each of the numbers once and no other. -/
def EachOnce (numbers list : List Nat) : Prop := list.Nodup ∧ ∀ sn, sn ∈ list ↔ sn ∈ numbers

/-- Whenever a number comes again, it is found among the numbers before. -/
def Refound (numbers : List Nat) : Prop :=
  ∀ before sn after, numbers = before ++ sn :: after → sn ∈ before →
    Finds (before.foldl insertUint16Sort []) sn

/-- The numbers are of one half of the cycle. -/
def HalfCycle (numbers : List Nat) : Prop :=
  ∃ base : Nat, ∀ sn ∈ numbers, ∃ d < 32768, sn = (base + d) % 65536

/-- Whenever a number comes again, the numbers before are of one half of the cycle. -/
def RepeatsNear (numbers : List Nat) : Prop :=
  ∀ before sn after, numbers = before ++ sn :: after → sn ∈ before → HalfCycle before

theorem refound_append (numbers : List Nat) (sn : Nat) :
    Refound (numbers ++ [sn]) ↔
      Refound numbers ∧ (sn ∈ numbers → Finds (numbers.foldl insertUint16Sort []) sn) := by
  constructor
  · intro h
    refine ⟨fun before x after heq hx => ?_, fun hmem => h numbers sn [] rfl hmem⟩
    exact h before x (after ++ [sn]) (by rw [heq, List.append_assoc]; rfl) hx
  · rintro ⟨hearlier, hlast⟩ before x after heq hx
    rcases List.eq_nil_or_concat' after with rfl | ⟨after, y, rfl⟩
    · obtain ⟨rfl, hsn⟩ := List.append_inj' heq rfl
      obtain rfl : sn = x := by simpa using hsn
      exact hlast hx
    · have hcut : numbers ++ [sn] = (before ++ x :: after) ++ [y] := by
        rw [heq, List.append_assoc]
        rfl
      exact hearlier before x after (List.append_inj' hcut rfl).1 hx

/-- The array has no number twice exactly if each that came again was found. -/
theorem foldl_insert_nodup (numbers : List Nat) :
    (numbers.foldl insertUint16Sort []).Nodup ↔ Refound numbers := by
  induction numbers using List.reverseRecOn with
  | nil =>
    refine ⟨fun _ before sn after heq _ => ?_, fun _ => List.nodup_nil⟩
    simp at heq
  | append_singleton numbers sn ih =>
    rw [List.foldl_append, List.foldl_cons, List.foldl_nil, insertUint16Sort_nodup, ih,
      refound_append, mem_foldl_insert]
    simp

/-- Numbers of half the cycle are kept sorted. -/
theorem foldl_insert_sorted {base : Nat} {numbers : List Nat}
    (h : ∀ sn ∈ numbers, ∃ d < 32768, sn = (base + d) % 65536) :
    ∃ xs : List Int, numbers.foldl insertUint16Sort [] = xs.map wrap ∧ xs.Pairwise (· < ·) ∧
      ∀ x ∈ xs, (base : Int) ≤ x ∧ x < base + 32768 := by
  induction numbers using List.reverseRecOn with
  | nil => exact ⟨[], rfl, .nil, fun _ hx => (nomatch hx)⟩
  | append_singleton numbers sn ih =>
    obtain ⟨xs, hxs, hsorted, hnear⟩ := ih fun x hx => h x (List.mem_append_left _ hx)
    obtain ⟨d, hd, rfl⟩ := h sn (by simp)
    have hwrap : (base + d) % 65536 = wrap (base + d : Nat) := by
      unfold wrap
      omega
    have hnear' : ∀ y ∈ xs, ((base + d : Nat) : Int) - 32768 < y ∧ y < (base + d : Nat) + 32768 := by
      intro y hy
      have := hnear y hy
      omega
    obtain ⟨-, ys, hys, hsorted', hmem⟩ := insertUint16Sort_sorted hsorted hnear'
    rw [List.foldl_append, hxs, hwrap]
    refine ⟨ys, hys, hsorted', fun x hx => ?_⟩
    rcases (hmem x).mp hx with rfl | hx
    · omega
    · exact hnear x hx

theorem halfCycle_finds {numbers : List Nat} {sn : Nat} (h : HalfCycle numbers)
    (hmem : sn ∈ numbers) : Finds (numbers.foldl insertUint16Sort []) sn := by
  obtain ⟨base, hbase⟩ := h
  obtain ⟨xs, hxs, hsorted, hnear⟩ := foldl_insert_sorted hbase
  have hin : sn ∈ xs.map wrap := hxs ▸ mem_foldl_insert.mpr (.inr hmem)
  obtain ⟨x, hx, rfl⟩ := List.mem_map.mp hin
  rw [hxs]
  refine (insertUint16Sort_sorted hsorted fun y hy => ?_).1 hx
  have hy' := hnear y hy
  have hx' := hnear x hx
  omega

theorem refound_of_near {numbers : List Nat} (h : RepeatsNear numbers) : Refound numbers :=
  fun before sn after heq hmem => halfCycle_finds (h before sn after heq hmem) hmem

theorem nackNumbers_packet (b0 b1 : UInt8) (ssrc mediaSsrc : Nat) {chunks : List PidBlp}
    (heap : Heap) (hfit : 2 + chunks.length < 65536) :
    nackNumbers (nackPacket b0 b1 ssrc mediaSsrc chunks) heap =
      some ((denoted chunks).foldl insertUint16Sort []) := by
  obtain ⟨bytes, hbytes⟩ : ∃ bytes, bytes = nackPacket b0 b1 ssrc mediaSsrc chunks := ⟨_, rfl⟩
  have hlen := congrArg List.length hbytes
  simp only [nackPacket, List.length_append, beBytes_length, chunks_length, List.length_cons,
    List.length_nil] at hlen
  have hslice := (slice_ofList bytes).trans hbytes
  obtain ⟨_, hslice⟩ := Mem.slice_parts hslice
  obtain ⟨hl, hslice⟩ := Mem.slice_parts hslice
  obtain ⟨_, hslice⟩ := Mem.slice_parts hslice
  obtain ⟨_, hslice⟩ := Mem.slice_parts hslice
  simp only [beBytes_length, List.length_cons, List.length_nil, Nat.zero_add] at hl hslice
  have hcount : (ofList bytes).be 2 2 = 2 + chunks.length := by
    rw [Mem.be_of_slice hl]
    omega
  have hempty : (createRtcpNack {} 0 heap).1.nack = some ⟨0, 50, []⟩ := rfl
  rw [← hbytes]
  unfold nackNumbers
  rw [show bytes.length = 12 + 4 * chunks.length by omega]
  exact decodeRtcpNack_numbers hempty hcount hslice

end MetaRtc
