import PerfParser.Layouts
import PerfParser.Lib.Bits
/-!
# AttributeFlags — the bit fields of an attribute from a machine of the other byte order (`perfattributes.cpp`)

On a big-endian machine the bit fields are laid out from the highest bit down, on a little-endian one from the lowest up,
so the flags of the one are those of the other in reverse.  The loop that is to reverse them moves bit `i` to
`i / 8 + 7 - i % 8`, which is one of the lowest 15 bits: all but two words come out wrong (`read_flags_iff`).
-/
namespace PerfParser

open QDataStream Bits

namespace PerfEventAttributes

/-! ## The bit fields -/

/-- Where a bit field starts, counted in the order of declaration, and how many bits it has. -/
structure BitField where
  first : Nat
  width : Nat
deriving DecidableEq, Repr

/-- `m_disabled` to `m_watermark`, `m_preciseIp`, `m_mmapData` to `m_excludeCallchainUser`, and `m_reserved1`. -/
def bitFields : List BitField :=
  (List.range 15).map (fun i => ⟨i, 1⟩) ++ [⟨15, 2⟩] ++ (List.range 6).map (fun i => ⟨17 + i, 1⟩) ++ [⟨23, 41⟩]

/-- The value of the field on a machine that allocates from the highest bit down. -/
def BitField.bigEndian (f : BitField) (flags : UInt64) : Nat := field (64 - f.first - f.width) f.width flags

/-- The value of the field on a machine that allocates from the lowest bit up. -/
def BitField.littleEndian (f : BitField) (flags : UInt64) : Nat := field f.first f.width flags

/-- The flags with their bits in reverse. -/
def mirrored (flags : UInt64) : UInt64 := move (fun i => 63 - i) flags

/-! ## Where the bits are moved to -/

/-- Where `operator>>` moves a bit to. -/
def swappedIndex (i : Nat) : Nat := i / 8 + 7 - i % 8

theorem swapFlags_eq_move (flags : UInt64) : swapFlags flags = move swappedIndex flags := rfl

theorem testBit_mirrored (flags : UInt64) {i : Nat} (hi : i < 64) :
    (mirrored flags).toNat.testBit i = flags.toNat.testBit (63 - i) := by
  have h := testBit_move_apply (f := fun i => 63 - i) (fun i hi => by omega) (fun i hi j hj h => by omega) flags
    (show 63 - i < 64 by omega)
  rwa [show 63 - (63 - i) = i by omega] at h

theorem mirrored_injective {v w : UInt64} (h : mirrored v = mirrored w) : v = w :=
  (move_injective_iff (fun i hi => by omega)).2 (fun i hi j hj h => by omega) v w h

theorem swapFlags_not_injective : ¬∀ v w : UInt64, swapFlags v = swapFlags w → v = w := by
  intro h
  have hinj := (move_injective_iff (f := swappedIndex) (by decide)).1 h
  exact absurd (hinj 0 (by decide) 9 (by decide) (by decide)) (by decide)

/-- The bits that are moved to `j`. -/
theorem testBit_swapFlags (flags : UInt64) (j : Nat) :
    (swapFlags flags).toNat.testBit j =
      ((List.range 64).filter (fun i => swappedIndex i = j)).any (fun i => flags.toNat.testBit i) := by
  rw [Bool.eq_iff_iff, swapFlags_eq_move, testBit_move (by decide), List.any_eq_true]
  simp only [List.mem_filter, List.mem_range, decide_eq_true_eq]
  constructor
  · rintro ⟨i, hi, hbit, hj⟩
    exact ⟨i, ⟨hi, hj⟩, hbit⟩
  · rintro ⟨i, ⟨hi, hj⟩, hbit⟩
    exact ⟨i, hi, hbit, hj⟩

/-- No bit from 15 up is ever set. -/
theorem testBit_swapFlags_high (flags : UInt64) {j : Nat} (hj : 15 ≤ j) :
    (swapFlags flags).toNat.testBit j = false := by
  rw [testBit_swapFlags, List.filter_eq_nil_iff.2, List.any_nil]
  intro i hi
  rw [List.mem_range] at hi
  rw [decide_eq_true_eq, swappedIndex]
  omega

/-! ## The words that come out right -/

/-- `m_excludeHv` to `m_watermark`, all of them set. -/
def evenFlags : UInt64 := 0x03FE000000000000

/-- Every bit has arrived: those that only the upper bits can be, and none of the others. -/
structure Arrived (flags : UInt64) : Prop where
  low : ∀ i < 49, flags.toNat.testBit i = false
  high : ∀ j < 15, (swapFlags flags).toNat.testBit j = flags.toNat.testBit (63 - j)

theorem Arrived.any {flags : UInt64} (h : Arrived flags) {j : Nat} (hj : j < 15) {l : List Nat}
    (hl : (List.range 64).filter (fun i => decide (49 ≤ i ∧ swappedIndex i = j)) = l) :
    flags.toNat.testBit (63 - j) = l.any (fun i => flags.toNat.testBit i) := by
  subst hl
  rw [← h.high j hj, testBit_swapFlags, Bool.eq_iff_iff, List.any_eq_true, List.any_eq_true]
  simp only [List.mem_filter, List.mem_range, decide_eq_true_eq]
  constructor
  · rintro ⟨i, ⟨hi, hij⟩, hbit⟩
    refine ⟨i, ⟨hi, Nat.not_lt.1 fun hlow => ?_, hij⟩, hbit⟩
    rw [h.low i hlow] at hbit
    cases hbit
  · rintro ⟨i, ⟨hi, -, hij⟩, hbit⟩
    exact ⟨i, ⟨hi, hij⟩, hbit⟩

/-- Of the upper bits, 49 to 57 are all the same, and those above are not set. -/
theorem Arrived.high_eq {flags : UInt64} (h : Arrived flags) {i : Nat} (hlow : 49 ≤ i) (hi : i < 64) :
    flags.toNat.testBit i = (decide (i ≤ 57) && flags.toNat.testBit 49) := by
  have h63 := h.any (j := 0) (l := []) (by decide) (by decide)
  have h62 := h.any (j := 1) (l := []) (by decide) (by decide)
  have h61 := h.any (j := 2) (l := []) (by decide) (by decide)
  have h60 := h.any (j := 3) (l := []) (by decide) (by decide)
  have h59 := h.any (j := 4) (l := []) (by decide) (by decide)
  have h58 := h.any (j := 5) (l := []) (by decide) (by decide)
  have h57 := h.any (j := 6) (l := [55]) (by decide) (by decide)
  have h56 := h.any (j := 7) (l := [54, 63]) (by decide) (by decide)
  have h55 := h.any (j := 8) (l := [53, 62]) (by decide) (by decide)
  have h54 := h.any (j := 9) (l := [52, 61]) (by decide) (by decide)
  have h53 := h.any (j := 10) (l := [51, 60]) (by decide) (by decide)
  have h52 := h.any (j := 11) (l := [50, 59]) (by decide) (by decide)
  have h51 := h.any (j := 12) (l := [49, 58]) (by decide) (by decide)
  have h50 := h.any (j := 13) (l := [57]) (by decide) (by decide)
  have h49 := h.any (j := 14) (l := [56]) (by decide) (by decide)
  simp only [List.any_cons, List.any_nil, Bool.or_false, Nat.reduceSub] at *
  simp only [h58, h59, h60, h61, h62, h63, Bool.or_false] at h51 h52 h53 h54 h55 h56
  -- each of the nine is the one two below it, and the two lowest are the two highest
  have e56 : flags.toNat.testBit 56 = flags.toNat.testBit 49 := h49.symm
  have e54 := h56.symm.trans e56
  have e52 := h54.symm.trans e54
  have e50 := h52.symm.trans e52
  have e57 := h50.symm.trans e50
  have e55 := h57.symm.trans e57
  have e53 := h55.symm.trans e55
  have e51 := h53.symm.trans e53
  obtain rfl | rfl | rfl | rfl | rfl | rfl | rfl | rfl | rfl | rfl | rfl | rfl | rfl | rfl | rfl : i = 49 ∨ i = 50 ∨
      i = 51 ∨ i = 52 ∨ i = 53 ∨ i = 54 ∨ i = 55 ∨ i = 56 ∨ i = 57 ∨ i = 58 ∨ i = 59 ∨ i = 60 ∨ i = 61 ∨ i = 62 ∨
      i = 63 := by omega
  all_goals simp only [h58, h59, h60, h61, h62, h63, e50, e51, e52, e53, e54, e55, e56, e57, Nat.reduceLeDiff,
    decide_true, decide_false, Bool.true_and, Bool.false_and]

/-- **A word arrives if and only if it is one of two.** -/
theorem arrived_iff (flags : UInt64) : Arrived flags ↔ flags = 0 ∨ flags = evenFlags := by
  constructor
  · intro h
    have hbits : ∀ i < 64, flags.toNat.testBit i = (decide (49 ≤ i ∧ i ≤ 57) && flags.toNat.testBit 49) := by
      intro i hi
      by_cases hlow : 49 ≤ i
      · rw [h.high_eq hlow hi]
        simp [hlow]
      · rw [h.low i (Nat.not_le.1 hlow), decide_eq_false (fun hand => hlow hand.1), Bool.false_and]
    cases hset : flags.toNat.testBit 49 with
    | false =>
      refine .inl (eq_of_testBit fun i hi => ?_)
      rw [hbits i hi, hset, Bool.and_false, UInt64.toNat_zero, Nat.zero_testBit]
    | true =>
      refine .inr (eq_of_testBit fun i hi => ?_)
      rw [hbits i hi, hset, Bool.and_true]
      have heven : ∀ i < 64, decide (49 ≤ i ∧ i ≤ 57) = evenFlags.toNat.testBit i := by decide
      exact heven i hi
  · rintro (rfl | rfl)
    · exact ⟨by decide, by decide⟩
    · exact ⟨by decide, by decide⟩

theorem swapFlags_eq_mirrored_iff (flags : UInt64) : swapFlags flags = mirrored flags ↔ Arrived flags := by
  constructor
  · intro h
    refine ⟨fun i hi => ?_, fun j hj => ?_⟩
    · have hbit := testBit_mirrored flags (show 63 - i < 64 by omega)
      rwa [← h, testBit_swapFlags_high flags (by omega), show 63 - (63 - i) = i by omega, eq_comm] at hbit
    · rw [h, testBit_mirrored flags (by omega)]
  · intro h
    refine eq_of_testBit fun j hj => ?_
    rw [testBit_mirrored flags hj]
    by_cases hlow : j < 15
    · exact h.high j hlow
    · rw [testBit_swapFlags_high flags (by omega), h.low (63 - j) (by omega)]

theorem bitFields_bounds : bitFields.all (fun f =>
    decide (f.first + f.width ≤ 64 ∧ (f.first < 15 ∧ f.width = 1 ∨ 15 ≤ f.first))) = true := by decide

/-- The fields have their values where every bit has arrived. -/
theorem fields_eq_iff (flags : UInt64) :
    (∀ f ∈ bitFields, f.littleEndian (swapFlags flags) = f.bigEndian flags) ↔ Arrived flags := by
  simp only [BitField.littleEndian, BitField.bigEndian, field_eq_iff]
  constructor
  · intro h
    have hfield : ∀ first width, (⟨first, width⟩ : BitField) ∈ bitFields → ∀ i < width,
        (swapFlags flags).toNat.testBit (first + i) = flags.toNat.testBit (64 - first - width + i) :=
      fun first width hf => h ⟨first, width⟩ hf
    refine ⟨fun i hi => ?_, fun j hj => ?_⟩
    · by_cases hrest : i < 41
      · have hbit := hfield 23 41 (by decide) i hrest
        rwa [testBit_swapFlags_high flags (by omega), show 64 - 23 - 41 + i = i by omega, eq_comm] at hbit
      · by_cases hsingle : i < 47
        · have hbit := hfield (17 + (46 - i)) 1 (by simp [bitFields]; omega) 0 Nat.one_pos
          rwa [testBit_swapFlags_high flags (by omega), show 64 - (17 + (46 - i)) - 1 + 0 = i by omega, eq_comm] at hbit
        · have hbit := hfield 15 2 (by decide) (i - 47) (by omega)
          rwa [testBit_swapFlags_high flags (by omega), show 64 - 15 - 2 + (i - 47) = i by omega, eq_comm] at hbit
    · have hbit := hfield j 1 (by simp [bitFields, hj]) 0 Nat.one_pos
      rwa [Nat.add_zero, Nat.add_zero, show 64 - j - 1 = 63 - j by omega] at hbit
  · intro h f hf i hi
    have hbounds := List.all_eq_true.1 bitFields_bounds f hf
    rw [decide_eq_true_eq] at hbounds
    obtain ⟨hle, ⟨hfirst, hwidth⟩ | hfirst⟩ := hbounds
    · obtain rfl : i = 0 := by omega
      rw [Nat.add_zero, Nat.add_zero, h.high f.first hfirst, hwidth, show 64 - f.first - 1 = 63 - f.first by omega]
    · rw [testBit_swapFlags_high flags (by omega), h.low _ (by omega)]

/-! ## The words that no other comes out the same as -/

/-- Only 7 and 56 are moved to places of their own. -/
theorem swappedIndex_alone_iff : ∀ i < 64, (∀ j < 64, swappedIndex j = swappedIndex i → j = i) ↔ i = 7 ∨ i = 56 := by
  decide

theorem swapFlags_eq_iff (flags : UInt64) : (∀ other : UInt64, swapFlags other = swapFlags flags → other = flags) ↔
    ∀ i < 64, flags.toNat.testBit i = true → i = 7 ∨ i = 56 := by
  simp only [swapFlags_eq_move]
  rw [move_eq_iff (by decide)]
  exact forall_congr' fun i => forall_congr' fun hi => forall_congr' fun _ => swappedIndex_alone_iff i hi

/-! ## The flags of an attribute -/

/-- The size that an attribute from a machine of the other byte order says it has. -/
def sizeAt (s : QByteArray) : UInt32 := ((u32 true).run (s.drop 4)).1

/-- The flags as that machine wrote them, if it wrote any. -/
def flagsAt (s : QByteArray) : UInt64 := ((u64 true).run (s.drop 40)).1

theorem run_when_flags {f : PerfEventAttributes → Reader UInt8 PerfEventAttributes}
    (hf : ∀ attrs s, ((f attrs).run s).1.flags = attrs.flags) (present : Bool) (attrs : PerfEventAttributes)
    (s : QByteArray) : ((Reader.when present f attrs).run s).1.flags = attrs.flags := by
  cases present with
  | false => rfl
  | true => exact hf attrs s

theorem readVersion0_flags (attrs : PerfEventAttributes) (s : QByteArray) :
    ((attrs.readVersion0 true).run s).1.flags = swapFlags ((u64 true).run (s.drop 32)).1 := by
  simp only [readVersion0, Reader.run_bind, Reader.run_pure, (takes_u64 true).run_snd, List.drop_drop, if_true]

theorem read_flags (attrs : PerfEventAttributes) (s : QByteArray) (h : ¬sizeAt s < SIZE_VER0) :
    ((attrs.read true).run s).1.flags = swapFlags (flagsAt s) := by
  have hsize : ((u32 true).run ((u32 true).run s).2).1 = sizeAt s := by rw [(takes_u32 true).run_snd, sizeAt]
  simp only [read, Reader.run_bind, hsize, if_neg h]
  rw [run_when_flags (fun _ _ => rfl), run_when_flags (fun _ _ => rfl), run_when_flags (fun _ _ => rfl),
    run_when_flags (fun _ _ => rfl), run_when_flags (fun _ _ => rfl), run_when_flags (fun _ _ => rfl),
    readVersion0_flags, (takes_u32 true).run_snd, (takes_u32 true).run_snd, List.drop_drop, List.drop_drop, flagsAt]

theorem exists_flagsAt (flags : UInt64) : ∃ s : QByteArray, ¬sizeAt s < SIZE_VER0 ∧ flagsAt s = flags := by
  refine ⟨List.replicate 4 0 ++ (Layout.u32 true SIZE_VER0 ++ (List.replicate 32 0 ++ Layout.u64 true flags)), ?_, ?_⟩
  · have hread := Layout.reads_u32 true SIZE_VER0 (List.replicate 32 0 ++ Layout.u64 true flags)
    rw [sizeAt, List.drop_left' List.length_replicate, hread]
    exact Nat.lt_irrefl _
  · have hread := (Layout.reads_u64 true flags).run_eq
    rw [flagsAt, ← List.append_assoc, ← List.append_assoc, List.drop_left' (by simp), hread]

/-- **The flags of an attribute are read as what they mean if and only if none are set, or all from `m_excludeHv` to
`m_watermark` and no others**, and they are read as those of no other attribute if and only if 7 and 56 are the only bits
that may be set. -/
theorem read_flags_iff (attrs : PerfEventAttributes) (s : QByteArray) (h : ¬sizeAt s < SIZE_VER0) :
    ((∀ f ∈ bitFields, f.littleEndian ((attrs.read true).run s).1.flags = f.bigEndian (flagsAt s)) ↔
      flagsAt s = 0 ∨ flagsAt s = evenFlags) ∧
    (((attrs.read true).run s).1.flags = mirrored (flagsAt s) ↔ flagsAt s = 0 ∨ flagsAt s = evenFlags) ∧
    ((∀ s', ¬sizeAt s' < SIZE_VER0 → ((attrs.read true).run s').1.flags = ((attrs.read true).run s).1.flags →
        flagsAt s' = flagsAt s) ↔
      ∀ i < 64, (flagsAt s).toNat.testBit i = true → i = 7 ∨ i = 56) := by
  rw [read_flags attrs s h]
  refine ⟨(fields_eq_iff _).trans (arrived_iff _), (swapFlags_eq_mirrored_iff _).trans (arrived_iff _), ?_⟩
  rw [← swapFlags_eq_iff]
  constructor
  · intro hsame other heq
    obtain ⟨s', hsize, rfl⟩ := exists_flagsAt other
    exact hsame s' hsize (by rw [read_flags attrs s' hsize, heq])
  · intro hsame s' hsize heq
    rw [read_flags attrs s' hsize] at heq
    exact hsame _ heq

/-- An attribute of 64 bytes in which `m_disabled` is set, and nothing else. -/
def disabledAttribute : QByteArray := List.replicate 7 0 ++ [64] ++ List.replicate 32 0 ++ [0x80] ++ List.replicate 23 0

/-- It is read with `m_excludeIdle` set. -/
theorem disabledAttribute_flags :
    ((PerfEventAttributes.read true {}).run disabledAttribute).1.flags = 0x80 ∧
      ¬((PerfEventAttributes.read true {}).run disabledAttribute).1.flags = mirrored 0x8000000000000000 := by
  have hflags : flagsAt disabledAttribute = 0x8000000000000000 := by decide
  have hiff := (read_flags_iff {} disabledAttribute (by decide)).2.1
  rw [hflags] at hiff
  exact ⟨by decide, fun h => absurd (hiff.1 h) (by decide)⟩

theorem not_read_flags : ¬∀ (attrs : PerfEventAttributes) (s : QByteArray), ¬sizeAt s < SIZE_VER0 →
    (∀ f ∈ bitFields, f.littleEndian ((attrs.read true).run s).1.flags = f.bigEndian (flagsAt s)) ∧
      ((attrs.read true).run s).1.flags = mirrored (flagsAt s) := by
  intro h
  have hdisabled := (h {} disabledAttribute (by decide)).2
  exact absurd hdisabled (by decide)

end PerfEventAttributes

end PerfParser
