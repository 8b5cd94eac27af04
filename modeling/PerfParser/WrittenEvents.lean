import PerfParser.FeatureLayouts
import PerfParser.SampleLayout
/-!
# WrittenEvents — the events of a stream, and back

Events are written one behind the other, each with its header.  How the content of one is laid out, and what is dispatched
for it, depends on the attributes of those before it.  A stream of events is read as what was written, in its order
(`WrittenEvents.records`).  Tracing data and compressed records are not among them, nor are flags of attributes and
branches that the byte swap would misplace.
-/
namespace PerfParser

open QDataStream Reader

namespace PerfAttributes

/-- What the attributes of an event are added to. -/
def announce (a : PerfAttributes) (attrs : PerfEventAttributes) (ids : List UInt64) : PerfAttributes :=
  ids.foldl (fun a id => a.addAttributes id attrs) (if a.globalAttributes.size = 0 then a.setGlobalAttributes attrs else a)

/-- The attributes that a sample with an id is read with, where it has one. -/
def ofSample (a : PerfAttributes) (id : UInt64) : PerfEventAttributes :=
  if a.globalAttributes.sampleIdAll ∧ 0 ≤ a.globalAttributes.sampleIdOffset then a.attributesOf id else a.globalAttributes

/-- A record as it is decoded among the attributes. -/
def decoded (a : PerfAttributes) (header : PerfEventHeader) (r : PerfRecord) : PerfRecord :=
  r.decoded header a.globalAttributes.sampleType a.globalAttributes.sampleIdAll

end PerfAttributes

variable (bigEndian : Bool)

/-- What is written behind a header, what is dispatched for it, and the attributes that are known from there on. -/
inductive WrittenEvent (a : PerfAttributes) (header : PerfEventHeader) : QByteArray → Option Op → PerfAttributes → Prop
  | mmap (r : PerfRecordMmap) (padding : Nat) (htype : header.eventType = .mmap) (hname : 0 ∉ r.filename) :
      WrittenEvent a header
        (r.layout bigEndian a.globalAttributes.sampleType a.globalAttributes.sampleIdAll padding)
        (some (.registerElf { r with toPerfRecord := a.decoded header r.toPerfRecord })) a
  | mmap2 (r : PerfRecordMmap2) (padding : Nat) (htype : header.eventType = .mmap2) (hname : 0 ∉ r.filename) :
      WrittenEvent a header
        (r.layout bigEndian a.globalAttributes.sampleType a.globalAttributes.sampleIdAll padding)
        (some (.registerElf { r.toPerfRecordMmap with toPerfRecord := a.decoded header r.toPerfRecord })) a
  | comm (r : PerfRecordComm) (padding : Nat) (htype : header.eventType = .comm) (hname : 0 ∉ r.comm) :
      WrittenEvent a header
        (r.layout bigEndian a.globalAttributes.sampleType a.globalAttributes.sampleIdAll padding)
        (some (.comm { r with toPerfRecord := a.decoded header r.toPerfRecord })) a
  | lost (r : PerfRecordLost) (htype : header.eventType = .lost) :
      WrittenEvent a header (r.layout bigEndian a.globalAttributes.sampleType a.globalAttributes.sampleIdAll)
        (some (.lost { r with toPerfRecord := a.decoded header r.toPerfRecord })) a
  | fork (r : PerfRecordFork) (htype : header.eventType = .fork) :
      WrittenEvent a header (r.layout bigEndian a.globalAttributes.sampleType a.globalAttributes.sampleIdAll)
        (some (.fork { r with toPerfRecord := a.decoded header r.toPerfRecord })) a
  | exit (r : PerfRecordFork) (htype : header.eventType = .exit) :
      WrittenEvent a header (r.layout bigEndian a.globalAttributes.sampleType a.globalAttributes.sampleIdAll)
        (some (.exit { r with toPerfRecord := a.decoded header r.toPerfRecord })) a
  | switch (r : PerfRecordContextSwitch) (htype : header.eventType = .switch) :
      WrittenEvent a header (r.layout bigEndian a.globalAttributes.sampleType a.globalAttributes.sampleIdAll)
        (some (.contextSwitch { toPerfRecord := a.decoded header r.toPerfRecord })) a
  | switchCpuWide (r : PerfRecordContextSwitch) (htype : header.eventType = .switchCpuWide) :
      WrittenEvent a header (r.layoutCpuWide bigEndian a.globalAttributes.sampleType a.globalAttributes.sampleIdAll)
        (some (.contextSwitch { r with toPerfRecord := a.decoded header r.toPerfRecord })) a
  | sample (s : PerfRecordSample) (dynSize : UInt64) (htype : header.eventType = .sample)
      (hshared : (a.ofSample s.sampleId.id).sampleIdOffset = a.globalAttributes.sampleIdOffset)
      (h : s.Encodable (a.ofSample s.sampleId.id) dynSize)
      (hflags : bigEndian = true → ∀ e ∈ s.branchStack, e.flags = 0) :
      WrittenEvent a header (s.layout bigEndian (a.ofSample s.sampleId.id) dynSize)
        (some (.sample (s.decoded header (a.ofSample s.sampleId.id) dynSize id))) a
  | attr (w : WrittenAttribute) (ids : List UInt64) (htype : header.eventType = .headerAttr)
      (hflags : w.Unswapped bigEndian) :
      WrittenEvent a header (w.layout bigEndian ++ ids.flatMap (Layout.u64 bigEndian))
        (some (.attr
          { PerfRecordAttr.create header a.globalAttributes.sampleType a.globalAttributes.sampleIdAll with
            attr := w.attrs, ids }))
        (a.announce w.attrs ids)
  | finishedRound (content : QByteArray) (htype : header.eventType = .finishedRound) :
      WrittenEvent a header content (some .finishedRound) a
  | other (content : QByteArray) (htype : header.eventType = .other) : WrittenEvent a header content none a

/-- Events one behind the other, what is dispatched for them, and the attributes that are known in the end. -/
inductive WrittenEvents : PerfAttributes → QByteArray → List Op → PerfAttributes → Prop
  | nil {a : PerfAttributes} : WrittenEvents a [] [] a
  | cons {a a' a'' : PerfAttributes} {header : PerfEventHeader} {content rest : QByteArray} {op : Option Op}
      {ops : List Op} : header.size.toNat = 8 + content.length → WrittenEvent bigEndian a header content op a' →
      WrittenEvents a' rest ops a'' →
      WrittenEvents a (Layout.header bigEndian header ++ (content ++ rest)) (op.toList ++ ops) a''

namespace PerfData

variable {δ : Type} (E : Env δ) {d : PerfData δ} {a' : PerfAttributes} {header : PerfEventHeader} {content : QByteArray}
  {op : Option Op}

/-- The parser behind an event. -/
def behind (d : PerfData δ) (header : PerfEventHeader) (op : Option Op) (a : PerfAttributes) : PerfData δ :=
  { d with eventHeader := header, dispatched := d.dispatched ++ op.toList, attributes := a }

theorem reads_skipContent (hsize : header.size.toNat = 8 + content.length) :
    Reads (skipRawData header.contentSize) content () := by
  rw [(contentSize_of_size hsize).2]
  exact Reads.skip content

theorem reads_sample {s : PerfRecordSample} {dynSize : UInt64}
    (hsize : header.size.toNat = 8 + (s.layout E.bigEndian (d.attributes.ofSample s.sampleId.id) dynSize).length)
    (hshared : (d.attributes.ofSample s.sampleId.id).sampleIdOffset = d.attributes.globalAttributes.sampleIdOffset)
    (h : s.Encodable (d.attributes.ofSample s.sampleId.id) dynSize)
    (hflags : E.bigEndian = true → ∀ e ∈ s.branchStack, e.flags = 0) :
    Reads (readSample E { d with eventHeader := header })
      (s.layout E.bigEndian (d.attributes.ofSample s.sampleId.id) dynSize)
      (d.behind header (some (.sample (s.decoded header (d.attributes.ofSample s.sampleId.id) dynSize id)))
        d.attributes) := by
  have hcontent := (contentSize_of_size hsize).2.symm
  rw [← PerfRecordSample.decoded_hostFlags hflags]
  by_cases hids : d.attributes.globalAttributes.sampleIdAll ∧ 0 ≤ d.attributes.globalAttributes.sampleIdOffset
  · rw [PerfAttributes.ofSample, if_pos hids] at *
    exact reads_readSample_of E (d := { d with eventHeader := header }) hids.1 hids.2 hshared rfl h hcontent
  · rw [PerfAttributes.ofSample, if_neg hids] at *
    have hroom : (s.layout E.bigEndian d.attributes.globalAttributes dynSize).length < 2 ^ 16 := by
      have := header.size.toNat_lt
      omega
    unfold readSample
    dsimp only
    rw [if_neg hids]
    exact (PerfRecordSample.reads_read E.bigEndian header h (PerfRecordSample.fits_of_length E.bigEndian hroom)).map _

/-- What is behind an attribute is all of its ids. -/
theorem idCount {size : UInt32} {n : Nat} (hsize : header.size.toNat = 8 + (size.toNat + 8 * n)) :
    (header.size.toUInt32 - (size + PerfEventHeader.fixedLength.toUInt32)).toNat / 8 = n := by
  have hlt := header.size.toNat_lt
  have height : PerfEventHeader.fixedLength.toUInt32.toNat = 8 := rfl
  have hsum : (size + PerfEventHeader.fixedLength.toUInt32).toNat = size.toNat + 8 := by
    rw [UInt32.toNat_add, height]
    exact Nat.mod_eq_of_lt (by omega)
  have hle : size + PerfEventHeader.fixedLength.toUInt32 ≤ header.size.toUInt32 := by
    rw [UInt32.le_iff_toNat_le, hsum, UInt16.toNat_toUInt32]
    omega
  rw [UInt32.toNat_sub_of_le _ _ hle, hsum, UInt16.toNat_toUInt32]
  omega

theorem reads_attr {w : WrittenAttribute} (ids : List UInt64) (hflags : w.Unswapped E.bigEndian)
    (hsize : header.size.toNat = 8 + (w.layout E.bigEndian ++ ids.flatMap (Layout.u64 E.bigEndian)).length) :
    Reads (readAttr E { d with eventHeader := header }) (w.layout E.bigEndian ++ ids.flatMap (Layout.u64 E.bigEndian))
      (d.behind header (some (.attr
        { PerfRecordAttr.create header d.attributes.globalAttributes.sampleType
            d.attributes.globalAttributes.sampleIdAll with
          attr := w.attrs, ids }))
        (d.attributes.announce w.attrs ids)) := by
  rw [List.length_append, w.length_layout, Layout.length_flatMap_u64] at hsize
  have hids := Layout.reads_flatMap_u64 E.bigEndian ids
  rw [← idCount hsize] at hids
  have hread : Reads ((PerfRecordAttr.create header d.attributes.globalAttributes.sampleType
      d.attributes.globalAttributes.sampleIdAll).read E.bigEndian)
      (w.layout E.bigEndian ++ ids.flatMap (Layout.u64 E.bigEndian))
      { PerfRecordAttr.create header d.attributes.globalAttributes.sampleType
          d.attributes.globalAttributes.sampleIdAll with
        attr := w.attrs, ids } := by
    refine (w.reads_read E.bigEndian).bind ?_
    rw [WrittenAttribute.arrived_eq hflags]
    exact hids.map _
  exact hread.map _

/-- **An event is read as it was written**, up to its end. -/
theorem reads_written (hsize : header.size.toNat = 8 + content.length)
    (h : WrittenEvent E.bigEndian d.attributes header content op a') :
    Reads (readEvent E { d with eventHeader := header }) content (d.behind header op a') := by
  unfold readEvent
  dsimp only
  cases h with
  | mmap r padding htype hname =>
    rw [htype]
    exact (r.roundTrips E.bigEndian _ _ padding hname header hsize).map _
  | mmap2 r padding htype hname =>
    rw [htype]
    exact (r.roundTrips E.bigEndian _ _ padding hname header hsize).map _
  | comm r padding htype hname =>
    rw [htype]
    exact (r.roundTrips E.bigEndian _ _ padding hname header hsize).map _
  | lost r htype =>
    rw [htype]
    exact (r.roundTrips E.bigEndian _ _ header hsize).map _
  | fork r htype =>
    rw [htype]
    exact (r.roundTrips E.bigEndian _ _ header hsize).map _
  | exit r htype =>
    rw [htype]
    exact (r.roundTrips E.bigEndian _ _ header hsize).map _
  | switch r htype =>
    rw [htype]
    exact (r.roundTrips E.bigEndian _ _ header hsize).map _
  | switchCpuWide r htype =>
    rw [htype]
    exact (r.roundTrips_cpuWide E.bigEndian _ _ header hsize).map _
  | sample s dynSize htype hshared hencodable hflags =>
    rw [htype]
    exact reads_sample E hsize hshared hencodable hflags
  | attr w ids htype hflags =>
    rw [htype]
    exact reads_attr E ids hflags hsize
  | finishedRound content htype =>
    rw [htype]
    exact (reads_skipContent hsize).map _
  | other content htype =>
    rw [htype]
    exact ((reads_skipContent hsize).map _).of_eq rfl (by rw [behind, Option.toList_none, List.append_nil])

theorem WrittenEvent.eventType {a : PerfAttributes} (h : WrittenEvent E.bigEndian a header content op a') :
    header.eventType ≠ .headerTracingData ∧ header.eventType ≠ .compressed := by
  cases h <;> simp [*]

/-- **A stream of events is read as what was written**, in its order. -/
theorem records {a : PerfAttributes} {bytes : QByteArray} {ops : List Op} (h : WrittenEvents E.bigEndian a bytes ops a') :
    ∀ {d : PerfData δ}, d.attributes = a → ∃ d', Records E d bytes d' ∧ d'.dispatched = d.dispatched ++ ops ∧
      d'.attributes = a' := by
  induction h with
  | nil => exact fun ha => ⟨_, .nil, (List.append_nil _).symm, ha⟩
  | @cons a a' a'' header content rest op ops hsize hevent _ ih =>
    rintro d rfl
    obtain ⟨d', hrecords, hops, hattributes⟩ := @ih (d.behind header op a').clearEventSize rfl
    obtain ⟨hle, hcontent⟩ := contentSize_of_size hsize
    obtain ⟨htracing, hcompressed⟩ := WrittenEvent.eventType E hevent
    refine ⟨d', .cons hle htracing hcompressed hcontent.symm (reads_written E hsize hevent) hrecords, ?_, hattributes⟩
    rw [hops]
    exact List.append_assoc _ _ _

end PerfData

end PerfParser
