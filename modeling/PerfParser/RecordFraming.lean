import PerfParser.ReadDevices
import PerfParser.ReadRecords
/-!
# RecordFraming — where a random-access device stands after a record

What a decoder leaves of its content is skipped, so the next record is found as long as no decoder takes more than its
content (`processEvents_framed_iff`).  Those of fixed width take what their record is documented to have, whatever its
header says; the length of a name is what the header leaves for it, modulo 2^16.
-/
namespace PerfParser

open Reader QDataStream

/-! ## What the decoders take -/

section Takes

variable (bigEndian : Bool)

namespace PerfSampleId

theorem takes_skipDuplicateId (s : PerfSampleId) : Takes s.skipDuplicateId 8 := (takes_skipRawData 8).map _

theorem takes_read (s : PerfSampleId) : Takes (s.read bigEndian) s.fixedLength.toNat := by
  have htid : ∀ s : PerfSampleId, Takes (s.readTid bigEndian) (4 + 4) := fun s =>
    (takes_i32 bigEndian).bind fun _ => (takes_i32 bigEndian).map _
  have hcpu : ∀ s : PerfSampleId, Takes (s.readCpu bigEndian) (4 + 4) := fun s =>
    (takes_u32 bigEndian).bind fun _ => (takes_u32 bigEndian).map _
  have hu64 : ∀ f : UInt64 → PerfSampleId, Takes (f <$> u64 bigEndian) 8 := fun f => (takes_u64 bigEndian).map f
  unfold read
  dsimp only
  refine (Takes.when ((Takes.when (htid _)).bind fun _ => (Takes.when (hu64 _)).bind fun _ =>
    (Takes.when (hu64 _)).bind fun _ => (Takes.when (hu64 _)).bind fun _ => (Takes.when (hcpu _)).bind fun _ =>
    Takes.when (takes_skipDuplicateId _))).of_eq ?_
  unfold fixedLength
  generalize s.has PerfEventAttributes.SAMPLE_ID_ALL = all, s.has PerfEventAttributes.SAMPLE_TID = tid,
    s.has PerfEventAttributes.SAMPLE_TIME = time, s.has PerfEventAttributes.SAMPLE_ID = id,
    s.has PerfEventAttributes.SAMPLE_STREAM_ID = stream, s.has PerfEventAttributes.SAMPLE_CPU = cpu,
    s.has PerfEventAttributes.SAMPLE_IDENTIFIER = identifier
  revert all tid time id stream cpu identifier
  decide

end PerfSampleId

theorem takes_readSampleId (r : PerfRecordMmap) : Takes (r.readSampleId bigEndian) r.sampleId.fixedLength.toNat :=
  (r.sampleId.takes_read bigEndian).map _

theorem takes_mmapNumbers (r : PerfRecordMmap) : Takes (r.readNumbers bigEndian) 32 :=
  (takes_i32 bigEndian).bind (m := 4) (n := 28) fun _ => (takes_i32 bigEndian).bind (m := 4) (n := 24) fun _ =>
    (takes_u64 bigEndian).bind (m := 8) (n := 16) fun _ => (takes_u64 bigEndian).bind (m := 8) (n := 8) fun _ =>
    (takes_u64 bigEndian).map _

theorem takes_mmap2Numbers (r : PerfRecordMmap2) : Takes (r.readNumbers bigEndian) 64 :=
  (takes_mmapNumbers bigEndian _).bind (m := 32) (n := 32) fun _ =>
    (takes_u32 bigEndian).bind (m := 4) (n := 28) fun _ =>
    (takes_u32 bigEndian).bind (m := 4) (n := 24) fun _ =>
    (takes_u64 bigEndian).bind (m := 8) (n := 16) fun _ => (takes_u64 bigEndian).bind (m := 8) (n := 8) fun _ =>
    (takes_u32 bigEndian).bind (m := 4) (n := 4) fun _ => (takes_u32 bigEndian).map _

theorem takes_readFilename (filenameLength : UInt16) (r : PerfRecordMmap) :
    Takes (r.readFilename filenameLength) filenameLength.toNat := (takes_readRawData _).map _

theorem takes_mmap (r : PerfRecordMmap) :
    Takes (r.read bigEndian) (32 + ((r.header.size - r.fixedLength).toNat + r.sampleId.fixedLength.toNat)) :=
  (takes_mmapNumbers bigEndian r).bind_run fun _ => (takes_readFilename _ _).bind_run fun _ =>
    takes_readSampleId bigEndian _

theorem takes_mmap2 (r : PerfRecordMmap2) :
    Takes (r.read bigEndian) (64 + ((r.header.size - r.fixedLength).toNat + r.sampleId.fixedLength.toNat)) :=
  (takes_mmap2Numbers bigEndian r).bind_run fun _ => (takes_readFilename _ _).bind_run fun _ =>
    (takes_readSampleId bigEndian _).map _

theorem takes_comm (r : PerfRecordComm) :
    Takes (r.read bigEndian) (8 + ((r.header.size - r.fixedLength).toNat + r.sampleId.fixedLength.toNat)) :=
  ((takes_i32 bigEndian).bind (m := 4) fun _ => (takes_i32 bigEndian).bind (m := 4) fun _ =>
    (takes_readRawData _).bind fun _ => (r.sampleId.takes_read bigEndian).map _).of_eq (by omega)

theorem takes_lost (r : PerfRecordLost) : Takes (r.read bigEndian) (16 + r.sampleId.fixedLength.toNat) :=
  ((takes_u64 bigEndian).bind (m := 8) fun _ => (takes_u64 bigEndian).bind (m := 8) fun _ =>
    (r.sampleId.takes_read bigEndian).map _).of_eq (by omega)

theorem takes_fork (r : PerfRecordFork) : Takes (r.read bigEndian) (24 + r.sampleId.fixedLength.toNat) :=
  ((takes_i32 bigEndian).bind (m := 4) fun _ => (takes_i32 bigEndian).bind (m := 4) fun _ =>
    (takes_i32 bigEndian).bind (m := 4) fun _ => (takes_i32 bigEndian).bind (m := 4) fun _ =>
    (takes_u64 bigEndian).bind (m := 8) fun _ => (r.sampleId.takes_read bigEndian).map _).of_eq (by omega)

theorem takes_switch (r : PerfRecordContextSwitch) : Takes (r.read bigEndian) r.sampleId.fixedLength.toNat :=
  (r.sampleId.takes_read bigEndian).map _

theorem takes_switchCpuWide (r : PerfRecordContextSwitch) :
    Takes (r.readCpuWide bigEndian) (8 + r.sampleId.fixedLength.toNat) :=
  ((takes_i32 bigEndian).bind (m := 4) fun _ => (takes_i32 bigEndian).bind (m := 4) fun _ =>
    (r.sampleId.takes_read bigEndian).map _).of_eq (by omega)

end Takes

/-! ## Records that fit -/

/-- The length of a name wraps exactly where the header does not leave room for the rest. -/
theorem numbers_le_iff {size fixedLength : UInt16} {numbers trailer content : Nat} (hsize : size.toNat = 8 + content)
    (hfixed : fixedLength.toNat = 8 + numbers + trailer) :
    numbers + ((size - fixedLength).toNat + trailer) ≤ content ↔ 8 + numbers + trailer ≤ size.toNat := by
  have hlt := size.toNat_lt
  have hlt' := fixedLength.toNat_lt
  rw [UInt16.toNat_sub]
  omega

namespace PerfData

variable {δ : Type} (E : Env δ)

/-- The record fits its content: what its type has in any case, with its header and its sample id, is within its size,
or its decoder stays within the content. -/
def FitsContent (d : PerfData δ) (header : PerfEventHeader) (content : QByteArray) : Prop :=
  let attrs := d.attributes.globalAttributes
  let fits := fun numbers : Nat =>
    8 + numbers + (PerfSampleId.create attrs.sampleType attrs.sampleIdAll).fixedLength.toNat ≤ header.size.toNat
  match header.eventType with
  | .mmap => fits 32
  | .mmap2 => fits 64
  | .comm => fits 8
  | .lost => fits 16
  | .fork | .exit => fits 24
  | .switch => fits 0
  | .switchCpuWide => fits 8
  | .sample =>
    (attrs.sampleIdAll = true ∧ 0 ≤ attrs.sampleIdOffset) ∨
      Within ((PerfRecordSample.create header attrs).read E.bigEndian) content
  | .headerAttr =>
    Within ((PerfRecordAttr.create header attrs.sampleType attrs.sampleIdAll).read E.bigEndian) content
  | .headerTracingData | .finishedRound | .compressed | .other => True

/-- A reader that leaves what is behind the content stays within it, or nothing is behind it. -/
theorem leaves_iff {α : Type} {read : Reader UInt8 α} {content rest : QByteArray} {fits : Prop}
    (h : rest ≠ [] → (Within read content ↔ fits)) :
    rest.length ≤ (read.run (content ++ rest)).2.length ↔ rest = [] ∨ fits := by
  by_cases hnil : rest = []
  · subst hnil
    exact iff_of_true (Nat.zero_le _) (.inl rfl)
  · rw [length_run_iff_within read content hnil, h hnil, or_iff_right hnil]

/-- **A decoder leaves what is behind its record exactly where the record fits its content**, or nothing is behind it. -/
theorem readEvent_leaves_iff (d : PerfData δ) {content rest : QByteArray}
    (hsize : d.eventHeader.size.toNat = 8 + content.length) :
    rest.length ≤ ((d.readEvent E).run (content ++ rest)).2.length ↔
      rest = [] ∨ FitsContent E d d.eventHeader content := by
  obtain ⟨-, hcontent⟩ := contentSize_of_size hsize
  have hwithin : ∀ {read : Reader UInt8 (PerfData δ)} {n : Nat} {fits : Prop}, Takes read n →
      (n ≤ content.length ↔ fits) → (rest.length ≤ (read.run (content ++ rest)).2.length ↔ rest = [] ∨ fits) :=
    fun htakes hfits => leaves_iff fun hne => (htakes.within_iff content hne).trans hfits
  have hskip : d.eventHeader.contentSize ≤ content.length ↔ True := iff_true_intro (Nat.le_of_eq hcontent)
  have hname : ∀ {fixedLength n : UInt16} {numbers : Nat} (s : PerfSampleId), n.toNat = 8 + numbers →
      n.toNat ≤ 100 → fixedLength = n + s.fixedLength →
      (numbers + ((d.eventHeader.size - fixedLength).toNat + s.fixedLength.toNat) ≤ content.length ↔
        8 + numbers + s.fixedLength.toNat ≤ d.eventHeader.size.toNat) := by
    rintro _ n numbers s hn hle rfl
    exact numbers_le_iff hsize (by rw [s.toNat_add_fixedLength hle, hn])
  have hplain : ∀ numbers trailer : Nat, numbers + trailer ≤ content.length ↔
      8 + numbers + trailer ≤ d.eventHeader.size.toNat := by omega
  unfold readEvent FitsContent
  dsimp only
  cases d.eventHeader.eventType with
  | mmap => exact hwithin ((takes_mmap E.bigEndian _).map _) (hname _ rfl (by decide) rfl)
  | mmap2 => exact hwithin ((takes_mmap2 E.bigEndian _).map _) (hname (n := 72) _ rfl (by decide)
    (PerfRecordMmap2.fixedLength_eq _))
  | comm => exact hwithin ((takes_comm E.bigEndian _).map _) (hname (n := 16) _ rfl (by decide)
    (PerfRecordComm.fixedLength_eq _))
  | lost => exact hwithin ((takes_lost E.bigEndian _).map _) (hplain 16 _)
  | fork => exact hwithin ((takes_fork E.bigEndian _).map _) (hplain 24 _)
  | exit => exact hwithin ((takes_fork E.bigEndian _).map _) (hplain 24 _)
  | switch => exact hwithin ((takes_switch E.bigEndian _).map _) (by rw [← hplain 0, Nat.zero_add]; rfl)
  | switchCpuWide => exact hwithin ((takes_switchCpuWide E.bigEndian _).map _) (hplain 8 _)
  | sample =>
    by_cases hid : d.attributes.globalAttributes.sampleIdAll ∧ 0 ≤ d.attributes.globalAttributes.sampleIdOffset
    · have htakes : Takes (d.readSample E) content.length := by
        unfold readSample
        rw [if_pos hid, ← hcontent]
        exact (takes_readRawData d.eventHeader.contentSize).map _
      exact hwithin htakes (iff_of_true (Nat.le_refl _) (.inl hid))
    · refine leaves_iff fun _ => ?_
      dsimp only
      rw [or_iff_right hid]
      unfold readSample
      rw [if_neg hid]
      exact Iff.rfl
  | headerAttr => exact leaves_iff fun _ => Iff.rfl
  | headerTracingData => exact hwithin ((takes_skipRawData _).map _) hskip
  | finishedRound => exact hwithin ((takes_skipRawData _).map _) hskip
  | compressed => exact hwithin ((takes_skipRawData _).map _) hskip
  | other => exact hwithin ((takes_skipRawData _).map _) hskip

/-! ## After a record -/

/-- The end of an event finds the next one exactly where its decoder left it. -/
theorem finishEvent_unread_iff {content rest : QByteArray} {r : Reading δ} (hsuffix : r.unread <:+ content ++ rest) :
    (finishEvent false content.length (content ++ rest) r).unread = rest ↔ rest.length ≤ r.unread.length := by
  obtain ⟨taken, htaken⟩ := hsuffix
  have hlen := congrArg List.length htaken
  simp only [List.length_append] at hlen
  unfold finishEvent
  simp only [Bool.false_eq_true, if_false]
  constructor
  · intro h
    rw [← h, List.length_drop]
    exact Nat.sub_le _ _
  · intro h
    have hunread : r.unread = (content ++ rest).drop taken.length := by rw [← htaken, List.drop_left]
    rw [List.length_append, show content.length + rest.length - r.unread.length = taken.length by omega]
    rw [hunread, List.drop_drop, show taken.length + (content.length - taken.length) = content.length by omega,
      List.drop_left]

/-- **A record is framed by its header exactly where it fits its content**, or nothing is behind it. -/
theorem processEvents_framed_iff (E : Env δ) (depth : Nat) {d : PerfData δ} (hstart : d.eventHeader.size = 0)
    (header : PerfEventHeader) (content rest : QByteArray) (hsize : header.size.toNat = 8 + content.length)
    (htype : header.eventType ≠ .headerTracingData) {r : Reading δ}
    (h : processEvents E depth false ⟨d, Layout.header E.bigEndian header ++ (content ++ rest)⟩ =
      (.SignalFinished, r)) :
    r.unread = rest ↔ rest = [] ∨ FitsContent E d header content := by
  obtain ⟨nested, hnested⟩ := exists_nested E depth
  obtain ⟨hheader, hcontent⟩ := contentSize_of_size hsize
  have hlen : header.contentSize ≤ (content ++ rest).length := by
    rw [hcontent, List.length_append]
    exact Nat.le_add_right _ _
  rw [hnested, processEvent_of_header E hstart hheader] at h
  cases hhandle : handleEvent E nested ⟨{ d with eventHeader := header }, content ++ rest⟩ with
  | mk st r₁ =>
    cases st with
    | SignalFinished =>
      rw [processContent_of_finished E (r := ⟨{ d with eventHeader := header }, content ++ rest⟩) hlen hhandle] at h
      obtain ⟨-, rfl⟩ := Prod.mk.inj h
      rw [hcontent]
      by_cases hcompressed : header.eventType = .compressed
      · -- the compressed bytes are read as a whole
        rw [handleEvent_of_compressed E hcompressed] at hhandle
        have hunread : r₁.unread = (content ++ rest).drop header.contentSize := unread_handleCompressed E hhandle
        rw [hcontent, List.drop_left] at hunread
        rw [finishEvent_unread_iff (hunread ▸ List.suffix_append content rest), hunread]
        refine iff_of_true (Nat.le_refl _) (.inr ?_)
        unfold FitsContent
        rw [hcompressed]
        exact trivial
      · rw [handleEvent_of_plain E (fun h => htype h.1) hcompressed] at hhandle
        obtain ⟨-, rfl⟩ := Prod.mk.inj hhandle
        rw [finishEvent_unread_iff (Reader.suffix _ _)]
        exact readEvent_leaves_iff E { d with eventHeader := header } hsize
    | _ =>
      rw [processContent_of_failed E (r := ⟨{ d with eventHeader := header }, content ++ rest⟩) hlen hhandle
        (by decide)] at h
      cases (Prod.mk.inj h).1

/-- The header of a `FINISHED_ROUND`. -/
def roundBytes : QByteArray := [68, 0, 0, 0, 0, 0, 8, 0]

/-- A `LOST` record with four bytes more than it needs, before the end of a round. -/
theorem processEvents_framed_lost :
    ((processEvents (plainEnv false) 0 false ⟨{}, Layout.header false { type := 2, size := 28 } ++
        (List.replicate 20 0 ++ roundBytes)⟩).2.unread = roundBytes ↔
      roundBytes = [] ∨ FitsContent (plainEnv false) {} { type := 2, size := 28 } (List.replicate 20 0)) :=
  processEvents_framed_iff (plainEnv false) 0 rfl { type := 2, size := 28 } (List.replicate 20 0) roundBytes rfl
    (by decide) rfl

/-- A `LOST` record without its last eight bytes takes the end of the round for them. -/
theorem processEvents_not_framed : ¬∀ (header : PerfEventHeader) (content rest : QByteArray) (r : Reading Unit),
    header.size.toNat = 8 + content.length → header.eventType ≠ .headerTracingData →
    processEvents (plainEnv false) 0 false ⟨{}, Layout.header false header ++ (content ++ rest)⟩ = (.SignalFinished, r) →
    r.unread = rest := by
  intro h
  have hlost := h { type := 2, size := 16 } (List.replicate 8 0) roundBytes _ rfl (by decide) rfl
  revert hlost
  decide

end PerfData

end PerfParser
