import PerfParser.ListBounds
import PerfParser.RecordFraming
/-!
# RecordLengths — how much of a record its decoder takes

A decoder takes its fields one behind the other, as many as the attributes announce and the numbers in the content say,
and knows nothing of the size of the record (`run_readEvent_snd`).  So a record fits its content if and only if these
add up to no more than the content (`fitsContent_iff`).
-/
namespace PerfParser

open Reader QDataStream PerfEventAttributes

variable (bigEndian : Bool)

/-! ## Samples -/

namespace PerfRecordSample

/-- The sections behind the stack, all of them of eight bytes. -/
def backBits : List UInt64 := [SAMPLE_WEIGHT, SAMPLE_DATA_SRC, SAMPLE_TRANSACTION]

def stackOffset (r : PerfRecordSample) (s : QByteArray) : Nat :=
  r.regsOffset bigEndian s + if r.sampleId.has SAMPLE_REGS_USER then
    8 + if u64At bigEndian s (r.regsOffset bigEndian s) != 0 then popCount r.registerMask * 8 else 0
  else 0

/-- What is taken of a stack that announces its size, behind the size. -/
def stackTaken (size : UInt64) : Nat := if size > 0 then size.toNat + 8 else 0

def weightOffset (r : PerfRecordSample) (s : QByteArray) : Nat :=
  r.stackOffset bigEndian s + if r.sampleId.has SAMPLE_STACK_USER then
    8 + stackTaken (u64At bigEndian s (r.stackOffset bigEndian s))
  else 0

/-- What the decoder takes: the sections that are announced, with as many elements as the content says. -/
def lengthTaken (r : PerfRecordSample) (s : QByteArray) : Nat :=
  r.weightOffset bigEndian s + (backBits.map fun bit => if r.sampleId.has bit then 8 else 0).sum

theorem run_readRegsUser_snd (r : PerfRecordSample) (s : QByteArray) :
    ((readRegsUser bigEndian r).run s).2 =
      s.drop (8 + if u64At bigEndian s 0 != 0 then popCount r.registerMask * 8 else 0) :=
  (takes_u64 bigEndian).bind_run_snd (Takes.when (((takes_u64 bigEndian).times _).map _))

theorem run_readStackUser_snd (r : PerfRecordSample) (s : QByteArray) :
    ((readStackUser bigEndian r).run s).2 = s.drop (8 + stackTaken (u64At bigEndian s 0)) := by
  refine (takes_u64 bigEndian).bind_run_snd ?_
  rw [show ((u64 bigEndian).run s).1 = u64At bigEndian s 0 from rfl, stackTaken]
  generalize u64At bigEndian s 0 = size
  split
  · have hpos : size > 0 := UInt64.lt_iff_toNat_lt.2 (Nat.lt_of_le_of_lt (Nat.zero_le _) ‹_›)
    rw [if_pos hpos]
    exact (takes_skipRawData size.toNat).bind fun _ => (takes_skipRawData 8).map _
  · split
    · exact (takes_readRawData _).bind fun _ => (takes_u64 bigEndian).map _
    · exact .pure r

theorem run_when_snd {f : PerfRecordSample → Reader UInt8 PerfRecordSample} {n : Nat} (present : Bool)
    (r : PerfRecordSample) (s : QByteArray) (hf : ((f r).run s).2 = s.drop n) :
    ((Reader.when present f r).run s).2 = s.drop (if present then n else 0) := by
  cases present with
  | false => rfl
  | true => exact hf

/-- **What a sample leaves is behind what it takes.** -/
theorem run_read_snd (r : PerfRecordSample) (s : QByteArray) :
    ((r.read bigEndian).run s).2 = s.drop (r.lengthTaken bigEndian s) := by
  obtain ⟨r₅, hrun, -, -, -, hmask⟩ := exists_counted bigEndian r s
  have hregs := run_when_snd (r.sampleId.has SAMPLE_REGS_USER) r₅ _
    (run_readRegsUser_snd bigEndian r₅ (s.drop (r.regsOffset bigEndian s)))
  rw [hmask, u64At_drop, List.drop_drop, ← stackOffset] at hregs
  have hstack := fun r₆ => run_when_snd (r.sampleId.has SAMPLE_STACK_USER) r₆ _
    (run_readStackUser_snd bigEndian r₆ (s.drop (r.stackOffset bigEndian s)))
  simp only [u64At_drop, List.drop_drop] at hstack
  have hweight := fun r₇ s => run_when_snd (f := readWeight bigEndian) (r.sampleId.has SAMPLE_WEIGHT) r₇ s
    (Takes.run_snd ((takes_u64 bigEndian).map _) s)
  have hdataSrc := fun r₈ s => run_when_snd (f := readDataSrc bigEndian) (r.sampleId.has SAMPLE_DATA_SRC) r₈ s
    (Takes.run_snd ((takes_u64 bigEndian).map _) s)
  have htransaction := fun r₉ s => run_when_snd (f := readTransaction bigEndian)
    (r.sampleId.has SAMPLE_TRANSACTION) r₉ s (Takes.run_snd ((takes_u64 bigEndian).map _) s)
  rw [hrun]
  unfold readBack
  simp only [run_bind, hregs, hstack, hweight, hdataSrc, htransaction, List.drop_drop, lengthTaken, weightOffset, backBits,
    List.map_cons, List.map_nil, List.sum_cons, List.sum_nil, Nat.add_assoc, Nat.add_zero]

end PerfRecordSample

/-! ## Attributes -/

namespace PerfRecordAttr

/-- What the decoder takes: the attributes, and as many ids as the size of the record leaves behind theirs, modulo
2^32. -/
def lengthTaken (r : PerfRecordAttr) (s : QByteArray) : Nat :=
  PerfEventAttributes.lengthTaken (u32At bigEndian s 4) +
    (r.header.size.toUInt32 - (u32At bigEndian s 4 + PerfEventHeader.fixedLength.toUInt32)).toNat / 8 * 8

theorem run_read_snd (r : PerfRecordAttr) (s : QByteArray) :
    ((r.read bigEndian).run s).2 = s.drop (r.lengthTaken bigEndian s) := by
  simp only [read, run_bind, run_pure, PerfEventAttributes.run_read_snd, run_read_size,
    ((takes_u64 bigEndian).times _).run_snd, List.drop_drop, lengthTaken]

end PerfRecordAttr

/-! ## Records -/

namespace PerfData

/-- What the decoder of a record takes behind its header. -/
def lengthTaken (attrs : PerfEventAttributes) (header : PerfEventHeader) (s : QByteArray) : Nat :=
  let sampleType := attrs.sampleType
  let sampleIdAll := attrs.sampleIdAll
  let sampleId := (PerfSampleId.create sampleType sampleIdAll).fixedLength.toNat
  match header.eventType with
  | .mmap => 32 + ((header.size - (PerfRecordMmap.create header sampleType sampleIdAll).fixedLength).toNat + sampleId)
  | .mmap2 => 64 + ((header.size - (PerfRecordMmap2.create header sampleType sampleIdAll).fixedLength).toNat + sampleId)
  | .comm => 8 + ((header.size - (PerfRecordComm.create header sampleType sampleIdAll).fixedLength).toNat + sampleId)
  | .lost => 16 + sampleId
  | .fork | .exit => 24 + sampleId
  | .switch => sampleId
  | .switchCpuWide => 8 + sampleId
  | .sample =>
    -- read from a buffer of its own, for the id in it
    if attrs.sampleIdAll ∧ 0 ≤ attrs.sampleIdOffset then header.contentSize
    else (PerfRecordSample.create header attrs).lengthTaken bigEndian s
  | .headerAttr => (PerfRecordAttr.create header sampleType sampleIdAll).lengthTaken bigEndian s
  | .headerTracingData | .finishedRound | .compressed | .other => header.contentSize

variable {δ : Type} (E : Env δ)

/-- **What a decoder leaves is behind what it takes.** -/
theorem run_readEvent_snd (d : PerfData δ) (s : QByteArray) : ((d.readEvent E).run s).2 =
    s.drop (lengthTaken E.bigEndian d.attributes.globalAttributes d.eventHeader s) := by
  unfold readEvent lengthTaken
  dsimp only
  cases d.eventHeader.eventType with
  | mmap => exact Takes.run_snd ((takes_mmap E.bigEndian _).map _) s
  | mmap2 => exact Takes.run_snd ((takes_mmap2 E.bigEndian _).map _) s
  | comm => exact Takes.run_snd ((takes_comm E.bigEndian _).map _) s
  | lost => exact Takes.run_snd ((takes_lost E.bigEndian _).map _) s
  | fork => exact Takes.run_snd ((takes_fork E.bigEndian _).map _) s
  | exit => exact Takes.run_snd ((takes_fork E.bigEndian _).map _) s
  | switch => exact Takes.run_snd ((takes_switch E.bigEndian _).map _) s
  | switchCpuWide => exact Takes.run_snd ((takes_switchCpuWide E.bigEndian _).map _) s
  | sample =>
    dsimp only
    by_cases hid : d.attributes.globalAttributes.sampleIdAll ∧ 0 ≤ d.attributes.globalAttributes.sampleIdOffset
    · unfold readSample
      rw [if_pos hid, if_pos hid]
      exact Takes.run_snd ((takes_readRawData d.eventHeader.contentSize).map _) s
    · unfold readSample
      rw [if_neg hid, if_neg hid]
      exact PerfRecordSample.run_read_snd E.bigEndian _ s
  | headerAttr => exact PerfRecordAttr.run_read_snd E.bigEndian _ s
  | headerTracingData => exact Takes.run_snd ((takes_skipRawData _).map _) s
  | finishedRound => exact Takes.run_snd ((takes_skipRawData _).map _) s
  | compressed => exact Takes.run_snd ((takes_skipRawData _).map _) s
  | other => exact Takes.run_snd ((takes_skipRawData _).map _) s

theorem length_drop_le_iff {content rest : QByteArray} (hne : rest ≠ []) (n : Nat) :
    rest.length ≤ ((content ++ rest).drop n).length ↔ n ≤ content.length := by
  have hpos := List.length_pos_iff.2 hne
  rw [List.length_drop, List.length_append]
  omega

/-- **A record fits its content if and only if what its decoder takes does**, whatever is behind it. -/
theorem fitsContent_iff (d : PerfData δ) {header : PerfEventHeader} {content rest : QByteArray}
    (hsize : header.size.toNat = 8 + content.length) (hne : rest ≠ []) : FitsContent E d header content ↔
      lengthTaken E.bigEndian d.attributes.globalAttributes header (content ++ rest) ≤ content.length := by
  have hleaves : rest.length ≤ ((readEvent E { d with eventHeader := header }).run (content ++ rest)).2.length ↔
      rest = [] ∨ FitsContent E d header content := readEvent_leaves_iff E { d with eventHeader := header } hsize
  rw [or_iff_right hne, run_readEvent_snd, length_drop_le_iff hne] at hleaves
  exact hleaves.symm

end PerfData
end PerfParser
