import PerfParser.ReadEvents
import PerfParser.Layouts
/-!
# ReadRecords — streams of complete records

A record that is all there is read by `processEvents` to its end, and a part of one is tried again.
-/
namespace PerfParser
namespace PerfData

open QDataStream Reader

variable {δ : Type} (E : Env δ) {nested : Reading δ → ReadStatus × Reading δ} {sequential : Bool} {d d' d₁ : PerfData δ}
  {header : PerfEventHeader} {content rest s tail : QByteArray}

/-! ## Complete records -/

/-- The parser reads the stream to its end as complete records, each of which takes exactly its `size`. -/
inductive Records : PerfData δ → QByteArray → PerfData δ → Prop
  | nil {d : PerfData δ} : Records d [] d
  | cons {d d₁ d' : PerfData δ} {header : PerfEventHeader} {content rest : QByteArray} :
      PerfEventHeader.fixedLength ≤ header.size → header.eventType ≠ .headerTracingData →
      header.eventType ≠ .compressed → content.length = header.contentSize →
      Reads (readEvent E { d with eventHeader := header }) content d₁ →
      Records d₁.clearEventSize rest d' → Records d (Layout.header E.bigEndian header ++ (content ++ rest)) d'

variable {E} in
theorem Records.append {t : QByteArray} (h : Records E d s d₁) (ht : Records E d₁ t d') : Records E d (s ++ t) d' := by
  induction h with
  | nil => exact ht
  | cons hsize htracing hcompressed hlen hread hrest ih =>
    rw [List.append_assoc, List.append_assoc]
    exact .cons hsize htracing hcompressed hlen hread (ih ht)

/-- The bytes are the front of a record, but not all of it. -/
def Incomplete (s : QByteArray) : Prop :=
  s.length < 8 ∨
    let header := ((PerfEventHeader.read E.bigEndian).run s).1
    PerfEventHeader.fixedLength ≤ header.size ∧ s.length < 8 + header.contentSize

theorem incomplete_header {part : QByteArray} (hsize : PerfEventHeader.fixedLength ≤ header.size)
    (hshort : part.length < header.contentSize) : Incomplete E (Layout.header E.bigEndian header ++ part) := by
  refine .inr ?_
  rw [(Layout.reads_header E.bigEndian header) part, List.length_append, Layout.length_header]
  exact ⟨hsize, Nat.add_lt_add_left hshort 8⟩

theorem exists_append_of_length_le {c t more : QByteArray} (hs : s ++ more = c ++ t) (hlen : c.length ≤ s.length) :
    ∃ part, s = c ++ part ∧ part ++ more = t := by
  obtain ⟨part, rfl⟩ : c <+: s :=
    List.prefix_of_prefix_length_le ⟨t, rfl⟩ (hs ▸ List.prefix_append s more) hlen
  rw [List.append_assoc] at hs
  exact ⟨part, rfl, List.append_cancel_left hs⟩

variable {E} in
/-- Wherever the stream is cut, there are complete records in front of the cut, and a part of one. -/
theorem Records.cut (h : Records E d s d') : ∀ {part more : QByteArray}, part ++ more = s →
    ∃ done tail d₁, part = done ++ tail ∧ Records E d done d₁ ∧ Records E d₁ (tail ++ more) d' ∧ Incomplete E tail
      ∧ (more = [] → tail = []) := by
  induction h with
  | @nil d =>
    intro part more hs
    obtain ⟨rfl, rfl⟩ := List.append_eq_nil_iff.1 hs
    exact ⟨[], [], d, rfl, .nil, .nil, .inl (by decide), fun _ => rfl⟩
  | @cons d d₁ d' header content rest hsize htracing hcompressed hlen hread hrest ih =>
    intro part more hs
    by_cases hshort : part.length < 8 + content.length
    · refine ⟨[], part, d, rfl, .nil, ?_, ?_, fun hmore => ?_⟩
      · rw [hs]
        exact .cons hsize htracing hcompressed hlen hread hrest
      · by_cases h8 : part.length < 8
        · exact .inl h8
        · obtain ⟨part, rfl, -⟩ := exists_append_of_length_le hs (by rw [Layout.length_header]; omega)
          rw [List.length_append, Layout.length_header] at hshort
          exact incomplete_header E hsize (by omega)
      · have := congrArg List.length hs
        rw [hmore, List.append_nil, List.length_append, List.length_append, Layout.length_header] at this
        omega
    · rw [← List.append_assoc] at hs
      obtain ⟨part, rfl, rfl⟩ := exists_append_of_length_le hs
        (by rw [List.length_append, Layout.length_header]; omega)
      obtain ⟨done, tail, d₂, rfl, hdone, htail, hincomplete, hend⟩ := ih rfl
      exact ⟨Layout.header E.bigEndian header ++ (content ++ done), tail, d₂, by simp,
        .cons hsize htracing hcompressed hlen hread hdone, htail, hincomplete, hend⟩

/-! ## One event of the stream -/

theorem contentSize_of_size {header : PerfEventHeader} {n : Nat} (hsize : header.size.toNat = 8 + n) :
    PerfEventHeader.fixedLength ≤ header.size ∧ header.contentSize = n := by
  have hle : PerfEventHeader.fixedLength ≤ header.size := by
    rw [UInt16.le_iff_toNat_le, hsize]
    exact Nat.le_add_right 8 n
  refine ⟨hle, ?_⟩
  rw [PerfEventHeader.contentSize, UInt16.toNat_sub_of_le _ _ hle, hsize]
  exact Nat.add_sub_cancel_left 8 n

theorem started_header (h0 : d.eventHeader.size = 0) (header : PerfEventHeader) (rest : QByteArray) :
    started E ⟨d, Layout.header E.bigEndian header ++ rest⟩ = ⟨{ d with eventHeader := header }, rest⟩ := by
  have hread : (readHeader E d).run (Layout.header E.bigEndian header ++ rest)
      = ({ d with eventHeader := header }, rest) := by
    unfold readHeader
    rw [run_bind, Layout.reads_header E.bigEndian header rest]
    rfl
  unfold started Reading.apply
  rw [if_pos h0, hread]

theorem processEvent_of_header (h0 : d.eventHeader.size = 0) (hsize : PerfEventHeader.fixedLength ≤ header.size)
    (rest : QByteArray) :
    processEvent E nested sequential ⟨d, Layout.header E.bigEndian header ++ rest⟩
      = processContent E nested sequential ⟨{ d with eventHeader := header }, rest⟩ := by
  have hstarted := started_header E h0 header rest
  rw [processEvent_of_started E fun _ => ⟨?_, ?_⟩, hstarted]
  · simp
  · rw [hstarted]
    exact UInt16.not_lt.2 hsize

theorem finishEvent_of_content {r : Reading δ} (hlen : content.length = header.contentSize) (hr : r.unread = rest) :
    finishEvent sequential header.contentSize (content ++ rest) r = ⟨r.data.clearEventSize, rest⟩ := by
  have hzero : header.contentSize - ((content ++ rest).length - rest.length) = 0 := by
    rw [List.length_append]
    omega
  unfold finishEvent
  simp only [hr, hzero, List.drop_zero, ite_self]

/-- An event whose `switch` takes its content. -/
theorem processEvent_of_content (h0 : d.eventHeader.size = 0) (hsize : PerfEventHeader.fixedLength ≤ header.size)
    (hlen : content.length = header.contentSize)
    (hevent : handleEvent E nested ⟨{ d with eventHeader := header }, content ++ rest⟩ = (.SignalFinished, ⟨d₁, rest⟩)) :
    processEvent E nested sequential ⟨d, Layout.header E.bigEndian header ++ (content ++ rest)⟩
      = (.SignalFinished, ⟨d₁.clearEventSize, rest⟩) := by
  have hcontent : header.contentSize ≤ (content ++ rest).length := by
    rw [List.length_append]
    omega
  rw [processEvent_of_header E h0 hsize, processContent_of_finished E hcontent hevent]
  exact congrArg (Prod.mk _) (finishEvent_of_content hlen rfl)

theorem processEvent_record (h0 : d.eventHeader.size = 0) (hsize : PerfEventHeader.fixedLength ≤ header.size)
    (htracing : header.eventType ≠ .headerTracingData) (hcompressed : header.eventType ≠ .compressed)
    (hlen : content.length = header.contentSize)
    (hread : Reads (readEvent E { d with eventHeader := header }) content d₁) (rest : QByteArray) :
    processEvent E nested sequential ⟨d, Layout.header E.bigEndian header ++ (content ++ rest)⟩
      = (.SignalFinished, ⟨d₁.clearEventSize, rest⟩) := by
  refine processEvent_of_content E h0 hsize hlen ?_
  rw [handleEvent_of_plain E (fun h => htracing h.1) hcompressed]
  unfold Reading.apply
  rw [hread rest]

/-- A part of a record is tried again. -/
theorem processEvent_incomplete (nested : Reading δ → ReadStatus × Reading δ) (sequential : Bool)
    (h0 : d.eventHeader.size = 0) (h : Incomplete E tail) :
    ∃ eventHeader unread, processEvent E nested sequential ⟨d, tail⟩ = (.Rerun, ⟨{ d with eventHeader }, unread⟩) := by
  by_cases h8 : tail.length < 8
  · exact ⟨d.eventHeader, tail, processEvent_of_short E h0 h8 sequential⟩
  · obtain ⟨hsize, hshort⟩ := h.resolve_left h8
    have htaken := Reading.length_apply (r := ⟨d, tail⟩) (takes_readHeader E d) (by simp only; omega)
    have hstarted : started E ⟨d, tail⟩ = Reading.apply ⟨d, tail⟩ (readHeader E) := if_pos h0
    refine ⟨((PerfEventHeader.read E.bigEndian).run tail).1, (Reading.apply ⟨d, tail⟩ (readHeader E)).unread, ?_⟩
    rw [processEvent_of_started E fun _ => ⟨by simp only; omega, ?_⟩, hstarted, processContent_of_short E ?_]
    · rfl
    · simp only at htaken
      show _ < ((PerfEventHeader.read E.bigEndian).run tail).1.contentSize
      omega
    · rw [hstarted]
      exact UInt16.not_lt.2 hsize

theorem readAll_records (depth : Nat) (sequential : Bool) (h : Records E d s d') (h0 : d.eventHeader.size = 0) :
    readAll E depth sequential ⟨d, s⟩ = (.SignalFinished, ⟨d', []⟩) := by
  induction h with
  | nil => exact readAll_nil E rfl
  | @cons d d₁ d' header content rest hsize htracing hcompressed hlen hread hrest ih =>
    obtain ⟨nested, hnested⟩ := exists_nested E depth
    rw [readAll_finished E ?_
      (by rw [hnested]; exact processEvent_record E h0 hsize htracing hcompressed hlen hread rest)]
    · exact ih rfl
    · simp [← List.length_pos_iff]

/-! ## What single events make of their content -/

theorem reads_finishedRound (htype : d.eventHeader.eventType = .finishedRound)
    (hlen : content.length = d.eventHeader.contentSize) : Reads (readEvent E d) content (d.dispatch .finishedRound) := by
  intro rest
  unfold readEvent
  simp only [htype]
  rw [← hlen, run_bind]
  exact congrArg (Prod.mk _) List.drop_left

theorem reads_comm (htype : d.eventHeader.eventType = .comm) (r : PerfRecordComm) (hname : 0 ∉ r.comm) (padding : Nat)
    (hcontent : content = r.layout E.bigEndian d.attributes.globalAttributes.sampleType
      d.attributes.globalAttributes.sampleIdAll padding)
    (hsize : d.eventHeader.size.toNat = 8 + content.length) :
    Reads (readEvent E d) content (d.dispatch (.comm { r with
      toPerfRecord := r.toPerfRecord.decoded d.eventHeader d.attributes.globalAttributes.sampleType
        d.attributes.globalAttributes.sampleIdAll })) := by
  intro rest
  rw [hcontent] at hsize ⊢
  unfold readEvent
  simp only [htype]
  rw [run_bind, r.roundTrips E.bigEndian _ _ padding hname d.eventHeader hsize rest]
  rfl

end PerfData
end PerfParser
