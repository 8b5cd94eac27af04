import PerfParser.RecordLengths
/-!
# RecordBoundaries — streams of complete records

A record ends where its header says, and tracing data behind that where their size does.  Both read loops are at the next
record again, whatever the device, if and only if each record is taken exactly (`doRead_resyncs_iff`).
-/
namespace PerfParser

open Reader QDataStream

/-- A complete record, with the tracing data that are behind it if its content is their size. -/
structure PipeRecord (bigEndian : Bool) where
  header : PerfEventHeader
  content : QByteArray
  blob : QByteArray
  size : header.size.toNat = 8 + content.length
  announced : blob.length = if header.eventType = .headerTracingData ∧ content.length = 4 then
    (u32At bigEndian content 0).toNat else 0

namespace PipeRecord

variable {bigEndian : Bool} (record : PipeRecord bigEndian)

/-- What is behind the header. -/
def body : QByteArray := record.content ++ record.blob

def bytes : QByteArray := Layout.header bigEndian record.header ++ record.body

/-- The bytes of a pipe. -/
def stream (records : List (PipeRecord bigEndian)) : QByteArray := records.flatMap bytes

def hasBlob : Prop := record.header.eventType = .headerTracingData ∧ record.content.length = 4

instance : Decidable record.hasBlob := inferInstanceAs (Decidable (_ ∧ _))

theorem contentSize_le (rest : QByteArray) : record.header.contentSize ≤ (record.body ++ rest).length := by
  rw [(PerfData.contentSize_of_size record.size).2, body, List.append_assoc, List.length_append]
  exact Nat.le_add_right _ _

theorem stream_cons (records : List (PipeRecord bigEndian)) :
    stream (record :: records) = record.bytes ++ stream records := List.flatMap_cons

theorem stream_ne_nil (records : List (PipeRecord bigEndian)) : stream (record :: records) ≠ [] := by
  refine List.ne_nil_of_length_pos ?_
  rw [stream_cons, bytes, List.length_append, List.length_append, Layout.length_header]
  omega

end PipeRecord

namespace PerfData

open PipeRecord (stream stream_cons stream_ne_nil)

variable {δ : Type} (E : Env δ) {depth : Nat} {nested : Reading δ → ReadStatus × Reading δ} {d : PerfData δ}

/-- The size of tracing data: what is in front of them, unless the parser has one from before. -/
def blobSize (d : PerfData δ) (content : QByteArray) : UInt32 :=
  if d.tracingData.size = 0 then u32At E.bigEndian content 0 else d.tracingData.size

/-- Where the parser takes tracing data to start. -/
def blobOffset (d : PerfData δ) : Nat := if d.tracingData.size = 0 then 4 else 0

/-- How much of what is behind its header the parser takes for the record. -/
def taken (d : PerfData δ) (record : PipeRecord E.bigEndian) (rest : QByteArray) : Nat :=
  if record.hasBlob then d.blobOffset + PerfParser.lengthTaken (d.blobSize E record.content)
  else lengthTaken E.bigEndian d.attributes.globalAttributes record.header (record.body ++ rest)

/-- How much of it must be there. -/
def awaited (d : PerfData δ) (record : PipeRecord E.bigEndian) : Nat :=
  if record.hasBlob then d.blobOffset + (d.blobSize E record.content).toNat else record.content.length

/-- The record is taken exactly: what the parser takes for it is all there, and is no less and no more than the record,
or no less if nothing is behind it. -/
def TakesExactly (d : PerfData δ) (record : PipeRecord E.bigEndian) (rest : QByteArray) : Prop :=
  (d.taken E record rest = record.body.length ∨ rest = [] ∧ record.body.length ≤ d.taken E record rest) ∧
    d.awaited E record ≤ (record.body ++ rest).length

theorem drop_append_eq_iff {α : Type} {s rest : List α} {n : Nat} :
    (s ++ rest).drop n = rest ↔ n = s.length ∨ rest = [] ∧ s.length ≤ n := by
  constructor
  · intro h
    have hlen := congrArg List.length h
    rw [List.length_drop, List.length_append] at hlen
    by_cases hnil : rest = []
    · subst hnil
      exact .inr ⟨rfl, by rw [List.length_nil] at hlen; omega⟩
    · have hpos := List.length_pos_iff.2 hnil
      exact .inl (by omega)
  · rintro (rfl | ⟨rfl, hle⟩)
    · exact List.drop_left
    · rw [List.append_nil, List.drop_eq_nil_of_le hle]

theorem takes_readTracingData_size (t : PerfTracingData) :
    Takes (readTracingData E t) (PerfParser.lengthTaken t.size) := by
  unfold readTracingData PerfParser.lengthTaken
  split
  · exact (takes_skipRawData intMax).bind fun _ => ((Takes.take _).map _).map _
  · exact (takes_readRawData _).map _

theorem apply_readTracingSize_content (header : PerfEventHeader) {content : QByteArray} (hcontent : content.length = 4)
    (rest : QByteArray) :
    (Reading.apply ⟨{ d with eventHeader := header }, content ++ rest⟩ (readTracingSize E)).unread =
        (content ++ rest).drop d.blobOffset ∧
      (Reading.apply ⟨{ d with eventHeader := header }, content ++ rest⟩
        (readTracingSize E)).data.tracingData.size = d.blobSize E content := by
  refine ⟨(takes_readTracingSize E _).run_snd _, ?_⟩
  unfold Reading.apply readTracingSize blobSize
  by_cases h0 : d.tracingData.size = 0
  · have hread : ((u32 E.bigEndian).run (content ++ rest)).1 = u32At E.bigEndian content 0 := by
      rw [((takes_u32 E.bigEndian).run_append (Nat.le_of_eq hcontent.symm) _).1, u32At, List.drop_zero]
    rw [if_pos h0, if_pos h0]
    exact hread
  · rw [if_neg h0, if_neg h0]
    rfl

/-- What the `switch` makes of a record with its header read. -/
theorem handleEvent_record (record : PipeRecord E.bigEndian) (rest : QByteArray) {st : ReadStatus} {r₁ : Reading δ}
    (h : handleEvent E nested ⟨{ d with eventHeader := record.header }, record.body ++ rest⟩ = (st, r₁)) :
    match st with
    | .SignalFinished => d.awaited E record ≤ (record.body ++ rest).length ∧
        r₁.unread = (record.body ++ rest).drop (d.taken E record rest)
    | .Rerun => (record.body ++ rest).length < d.awaited E record
    | .SignalError => d.TakesExactly E record rest := by
  obtain ⟨-, hsize⟩ := contentSize_of_size record.size
  by_cases hblob : record.hasBlob
  · have htr : isTracing (⟨{ d with eventHeader := record.header }, record.body ++ rest⟩ : Reading δ) :=
      ⟨hblob.1, hsize.trans hblob.2⟩
    obtain ⟨hunread, hannounced⟩ :=
      apply_readTracingSize_content E (d := d) record.header hblob.2 (record.blob ++ rest)
    rw [← List.append_assoc, ← PipeRecord.body] at hunread hannounced
    rw [handleEvent_of_isTracing E htr] at h
    unfold handleTracingBlob at h
    rw [taken, if_pos hblob, awaited, if_pos hblob, ← hannounced]
    generalize Reading.apply (⟨{ d with eventHeader := record.header }, record.body ++ rest⟩ : Reading δ)
      (readTracingSize E) = r at h hunread
    have hstart : d.blobOffset ≤ (record.body ++ rest).length := by
      unfold blobOffset PipeRecord.body
      rw [List.length_append, List.length_append, hblob.2]
      split <;> omega
    have hlength := congrArg List.length hunread
    rw [List.length_drop] at hlength
    split at h
    · obtain ⟨rfl, rfl⟩ := Prod.mk.inj h
      simp only
      omega
    · obtain ⟨rfl, rfl⟩ := Prod.mk.inj h
      refine ⟨by omega, ?_⟩
      have htakes : Takes (readTracing E r.data) (PerfParser.lengthTaken r.data.tracingData.size) :=
        (takes_readTracingData_size E r.data.tracingData).map _
      rw [← List.drop_drop, ← hunread]
      exact htakes.run_snd r.unread
  · have htr : ¬isTracing (⟨{ d with eventHeader := record.header }, record.body ++ rest⟩ : Reading δ) :=
      fun htr => hblob ⟨htr.1, hsize.symm.trans htr.2⟩
    have hbody : record.body.length = record.content.length := by
      rw [PipeRecord.body, List.length_append, record.announced, if_neg (show ¬(_ ∧ _) from hblob), Nat.add_zero]
    have hawaited : d.awaited E record ≤ (record.body ++ rest).length := by
      rw [awaited, if_neg hblob, List.length_append, hbody]
      exact Nat.le_add_right _ _
    by_cases htype : record.header.eventType = .compressed
    · have htaken : d.taken E record rest = record.content.length := by
        unfold taken lengthTaken
        rw [if_neg hblob, htype]
        exact hsize
      rw [handleEvent_of_compressed E htype] at h
      cases st with
      | SignalFinished =>
        refine ⟨hawaited, (unread_handleCompressed E h).trans ?_⟩
        rw [htaken]
        exact congrArg (fun n => List.drop n (record.body ++ rest)) hsize
      | Rerun => exact absurd (congrArg Prod.fst h) (handleCompressed_ne_rerun E)
      | SignalError => exact ⟨.inl (htaken.trans hbody.symm), hawaited⟩
    · rw [handleEvent_of_plain E htr htype] at h
      obtain ⟨rfl, rfl⟩ := Prod.mk.inj h
      refine ⟨hawaited, ?_⟩
      rw [taken, if_neg hblob]
      exact run_readEvent_snd E _ _

theorem processEvent_bytes (sequential : Bool) (hstart : d.eventHeader.size = 0) (record : PipeRecord E.bigEndian)
    (rest : QByteArray) : processEvent E nested sequential ⟨d, record.bytes ++ rest⟩ =
      processContent E nested sequential ⟨{ d with eventHeader := record.header }, record.body ++ rest⟩ := by
  rw [PipeRecord.bytes, List.append_assoc, processEvent_of_header E hstart (contentSize_of_size record.size).1]

/-- A record that is taken exactly is read up to the next one. -/
theorem processEvent_exact (sequential : Bool) (hstart : d.eventHeader.size = 0) {record : PipeRecord E.bigEndian}
    {rest : QByteArray} (h : d.TakesExactly E record rest) {r₁ : Reading δ}
    (hhandle : handleEvent E nested ⟨{ d with eventHeader := record.header }, record.body ++ rest⟩ =
      (.SignalFinished, r₁)) :
    processEvent E nested sequential ⟨d, record.bytes ++ rest⟩ = (.SignalFinished, ⟨r₁.data.clearEventSize, rest⟩) := by
  obtain ⟨-, hunread⟩ := handleEvent_record E record rest hhandle
  rw [drop_append_eq_iff.2 h.1] at hunread
  rw [processEvent_bytes E sequential hstart, processContent_of_finished E
    (r := ⟨{ d with eventHeader := record.header }, record.body ++ rest⟩) (record.contentSize_le rest) hhandle]
  refine congrArg (Prod.mk _) ?_
  have hzero : record.header.contentSize - ((record.body ++ rest).length - rest.length) = 0 := by
    rw [(contentSize_of_size record.size).2, PipeRecord.body, List.length_append, List.length_append]
    omega
  unfold finishEvent
  simp only [hunread, hzero, List.drop_zero, ite_self]

/-- **A record that is taken exactly is read alike from both kinds of device**, up to the next one. -/
theorem processEvents_exact (hstart : d.eventHeader.size = 0) {record : PipeRecord E.bigEndian} {rest : QByteArray}
    (h : d.TakesExactly E record rest) : ∃ p : ReadStatus × Reading δ,
      (∀ sequential, processEvents E depth sequential ⟨d, record.bytes ++ rest⟩ = p) ∧
        (p.1 = .SignalError ∨ p.1 = .SignalFinished ∧ p.2.unread = rest ∧ p.2.data.eventHeader.size = 0) := by
  obtain ⟨nested, hnested⟩ := exists_nested E depth
  cases hhandle : handleEvent E nested ⟨{ d with eventHeader := record.header }, record.body ++ rest⟩ with
  | mk st r₁ =>
    have hrecord := handleEvent_record E record rest hhandle
    cases st with
    | SignalFinished =>
      refine ⟨(.SignalFinished, ⟨r₁.data.clearEventSize, rest⟩), fun sequential => ?_, .inr ⟨rfl, rfl, rfl⟩⟩
      rw [hnested, processEvent_exact E sequential hstart h hhandle]
    | Rerun => exact absurd hrecord (Nat.not_lt.2 h.2)
    | SignalError =>
      refine ⟨(.SignalError, r₁), fun sequential => ?_, .inl rfl⟩
      rw [hnested, processEvent_bytes E sequential hstart, processContent_of_failed E
        (r := ⟨{ d with eventHeader := record.header }, record.body ++ rest⟩) (record.contentSize_le rest) hhandle
        (by decide)]

/-- A record is taken exactly if a sequential device is at the next one behind it, or the parser has failed. -/
theorem takesExactly_of_processEvents (hstart : d.eventHeader.size = 0) {record : PipeRecord E.bigEndian}
    {rest : QByteArray} {p : ReadStatus × Reading δ} (hp : processEvents E depth true ⟨d, record.bytes ++ rest⟩ = p)
    (h : p.1 = .SignalError ∨ p.1 = .SignalFinished ∧ p.2.unread = rest) : d.TakesExactly E record rest := by
  obtain ⟨nested, hnested⟩ := exists_nested E depth
  have hlen := record.contentSize_le rest
  rw [hnested, processEvent_bytes E true hstart] at hp
  cases hhandle : handleEvent E nested ⟨{ d with eventHeader := record.header }, record.body ++ rest⟩ with
  | mk st r₁ =>
    have hrecord := handleEvent_record E record rest hhandle
    cases st with
    | SignalFinished =>
      rw [processContent_of_finished E
        (r := ⟨{ d with eventHeader := record.header }, record.body ++ rest⟩) hlen hhandle] at hp
      subst hp
      obtain ⟨hawaited, hunread⟩ := hrecord
      rcases h with h | ⟨-, h⟩
      · cases h
      · exact ⟨drop_append_eq_iff.1 (hunread.symm.trans h), hawaited⟩
    | Rerun =>
      rw [processContent_of_failed E
        (r := ⟨{ d with eventHeader := record.header }, record.body ++ rest⟩) hlen hhandle (by decide)] at hp
      subst hp
      rcases h with h | ⟨h, -⟩ <;> cases h
    | SignalError => exact hrecord

/-! ## The whole stream -/

/-- After any number of records the parser is at the next one, unless it has failed. -/
def Resyncs (depth : Nat) (sequential : Bool) (d : PerfData δ) (records : List (PipeRecord E.bigEndian)) : Prop :=
  ∀ pre post, records = pre ++ post →
    let p := readEvents E depth sequential pre.length ⟨d, stream records⟩
    p.1 = .SignalError ∨ p.1 = .SignalFinished ∧ p.2.unread = stream post

/-- Each record that the parser gets to is taken exactly. -/
def AllExact (depth : Nat) (d : PerfData δ) (records : List (PipeRecord E.bigEndian)) : Prop :=
  ∀ pre record post d', records = pre ++ record :: post →
    readEvents E depth true pre.length ⟨d, stream records⟩ = (.SignalFinished, ⟨d', stream (record :: post)⟩) →
    d'.TakesExactly E record (stream post)

theorem readEvents_record (sequential : Bool) (n : Nat) (record : PipeRecord E.bigEndian)
    (records : List (PipeRecord E.bigEndian)) : readEvents E depth sequential (n + 1) ⟨d, stream (record :: records)⟩ =
      match processEvents E depth sequential ⟨d, record.bytes ++ stream records⟩ with
      | (.SignalFinished, r') => readEvents E depth sequential n r'
      | failed => failed := by
  rw [← stream_cons]
  exact if_neg (stream_ne_nil record records)

theorem readEvents_nil (sequential : Bool) (n : Nat) :
    readEvents E depth sequential n (⟨d, []⟩ : Reading δ) = (.SignalFinished, ⟨d, []⟩) := by
  cases n with
  | zero => rfl
  | succ n => rw [readEvents, if_pos rfl]

/-- Records that are taken exactly are read alike from both kinds of device, each at its place. -/
theorem resyncs_of_allExact : ∀ (records : List (PipeRecord E.bigEndian)) {d : PerfData δ},
    d.eventHeader.size = 0 → AllExact E depth d records →
      (∀ n, readEvents E depth true n ⟨d, stream records⟩ = readEvents E depth false n ⟨d, stream records⟩) ∧
        ∀ sequential, Resyncs E depth sequential d records
  | [], d, _, _ => by
    refine ⟨fun n => (readEvents_nil E true n).trans (readEvents_nil E false n).symm, fun sequential pre post h => ?_⟩
    obtain ⟨rfl, rfl⟩ := List.append_eq_nil_iff.1 h.symm
    exact .inr ⟨rfl, rfl⟩
  | record :: records, d, hstart, h => by
    obtain ⟨⟨st, r'⟩, hp, hcases⟩ := processEvents_exact E hstart (h [] record records d rfl rfl)
    have hnil : ∀ sequential post, record :: records = [] ++ post →
        (readEvents E depth sequential 0 ⟨d, stream (record :: records)⟩).2.unread = stream post :=
      fun _ _ hpost => congrArg stream hpost
    rcases hcases with hst | ⟨hst, hunread, hstart'⟩
    · cases hst
      have hread : ∀ sequential n,
          readEvents E depth sequential (n + 1) ⟨d, stream (record :: records)⟩ = (.SignalError, r') :=
        fun sequential n => by rw [readEvents_record, hp]
      refine ⟨fun n => ?_, fun sequential pre post hpost => ?_⟩
      · cases n with
        | zero => rfl
        | succ n => rw [hread, hread]
      · cases pre with
        | nil => exact .inr ⟨rfl, hnil sequential post hpost⟩
        | cons _ pre => exact .inl (congrArg Prod.fst (hread sequential pre.length))
    · cases hst
      obtain ⟨d', unread⟩ := r'
      obtain rfl : unread = stream records := hunread
      have hread : ∀ sequential n, readEvents E depth sequential (n + 1) ⟨d, stream (record :: records)⟩ =
          readEvents E depth sequential n ⟨d', stream records⟩ := fun sequential n => by
        rw [readEvents_record, hp]
      obtain ⟨hsame, hresyncs⟩ := resyncs_of_allExact records hstart' fun pre r post d'' hpre hfinished =>
        h (record :: pre) r post d'' (congrArg (record :: ·) hpre) ((hread true pre.length).trans hfinished)
      refine ⟨fun n => ?_, fun sequential pre post hpost => ?_⟩
      · cases n with
        | zero => rfl
        | succ n => rw [hread, hread, hsame]
      · cases pre with
        | nil => exact .inr ⟨rfl, hnil sequential post hpost⟩
        | cons _ pre =>
          obtain ⟨-, hrest⟩ := List.cons.inj hpost
          have := hresyncs sequential pre post hrest
          rwa [← hread] at this

theorem readEvents_succ (sequential : Bool) : ∀ (n : Nat) {r r' : Reading δ},
    readEvents E depth sequential n r = (.SignalFinished, r') → r'.unread ≠ [] →
      readEvents E depth sequential (n + 1) r = processEvents E depth sequential r'
  | 0, r, r', h, hne => by
    obtain ⟨-, rfl⟩ := Prod.mk.inj h
    rw [readEvents, if_neg hne]
    cases hp : processEvents E depth sequential r with
    | mk st r₁ => cases st <;> rfl
  | n + 1, r, r', h, hne => by
    rw [readEvents] at h ⊢
    by_cases hnil : r.unread = []
    · rw [if_pos hnil] at h
      obtain ⟨-, rfl⟩ := Prod.mk.inj h
      exact absurd hnil hne
    · rw [if_neg hnil] at h ⊢
      cases hp : processEvents E depth sequential r with
      | mk st r₁ =>
        rw [hp] at h
        cases st with
        | SignalFinished => exact readEvents_succ sequential n h hne
        | _ => cases (Prod.mk.inj h).1

theorem readEvents_start {sequential : Bool} : ∀ (n : Nat) {r r' : Reading δ}, r.data.eventHeader.size = 0 →
    readEvents E depth sequential n r = (.SignalFinished, r') → r'.data.eventHeader.size = 0
  | 0, r, r', hstart, h => by
    obtain ⟨-, rfl⟩ := Prod.mk.inj h
    exact hstart
  | n + 1, r, r', hstart, h => by
    rw [readEvents] at h
    split at h
    · obtain ⟨-, rfl⟩ := Prod.mk.inj h
      exact hstart
    · obtain ⟨nested, hnested⟩ := exists_nested E depth
      cases hp : processEvents E depth sequential r with
      | mk st r₁ =>
        rw [hp] at h
        cases st with
        | SignalFinished =>
          rw [hnested] at hp
          exact readEvents_start n (processEvent_finished E hp).1 h
        | _ => cases (Prod.mk.inj h).1

/-- **The same events are dispatched from both kinds of device, and both read loops resynchronise at the end of each
record, if and only if each record is taken exactly.** -/
theorem doRead_resyncs_iff (depth : Nat) {d : PerfData δ} (hstart : d.eventHeader.size = 0)
    (records : List (PipeRecord E.bigEndian)) :
    ((∀ isOpen, (doRead E depth true isOpen ⟨d, stream records⟩).2.data.dispatched =
        (doRead E depth false isOpen ⟨d, stream records⟩).2.data.dispatched) ∧
      ∀ sequential, Resyncs E depth sequential d records) ↔ AllExact E depth d records := by
  constructor
  · rintro ⟨-, hresyncs⟩ pre record post d' rfl hread
    have hnext := hresyncs true (pre ++ [record]) post (List.append_cons ..)
    rw [List.length_append, List.length_singleton] at hnext
    simp only [readEvents_succ E true pre.length hread (stream_ne_nil record post), stream_cons record post] at hnext
    exact takesExactly_of_processEvents E (readEvents_start E _ hstart hread) rfl hnext
  · intro h
    obtain ⟨hsame, hresyncs⟩ := resyncs_of_allExact E records hstart h
    refine ⟨fun isOpen => ?_, hresyncs⟩
    unfold doRead
    rw [hsame]
    generalize readEvents E depth false _ _ = result
    obtain ⟨st, r'⟩ := result
    simp only [if_true, Bool.false_eq_true, if_false]
    split
    · rfl
    · split <;> rfl

/-- A `LOST` record with eight more bytes than its decoder knows, which are the header of a `FINISHED_ROUND`. -/
def trailingRecord : PipeRecord false where
  header := { type := 2, size := 32 }
  content := [1, 0, 0, 0, 0, 0, 0, 0, 2, 0, 0, 0, 0, 0, 0, 0, 68, 0, 0, 0, 0, 0, 8, 0]
  blob := []
  size := rfl
  announced := by decide

/-- On a sequential device a round is finished that the stream does not have. -/
theorem doRead_trailingBytes :
    let lost : Op := .lost { header := { type := 2, size := 32 }, id := 1, lost := 2 }
    (doRead (plainEnv false) 0 true true ⟨{}, stream [trailingRecord]⟩).2.data.dispatched = [lost, .finishedRound]
      ∧ (doRead (plainEnv false) 0 false true ⟨{}, stream [trailingRecord]⟩).2.data.dispatched = [lost] := by
  decide

/-- It is not taken exactly. -/
theorem doRead_resyncs_trailing : ¬AllExact (plainEnv false) 0 {} [trailingRecord] := by
  intro h
  have hsame := ((doRead_resyncs_iff (plainEnv false) 0 rfl [trailingRecord]).2 h).1 true
  revert hsame
  decide

end PerfData
end PerfParser
