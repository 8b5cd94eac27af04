import PerfParser.CarryOver
import PerfParser.FinishReading
import PerfParser.RecordBoundaries
/-!
# StreamEnds — whether a stream ends inside a record

Records that are in step with the parser leave it to wait for the rest of the record that the stream is cut in, or at the
end of the last one.  When the device closes, it takes the stream for complete if not a whole header is left, and knows
nothing of what is left of the records that compressed ones carry (`close_iff`).
-/
namespace PerfParser

open Reader QDataStream

namespace PipeRecord

variable {bigEndian : Bool} (record : PipeRecord bigEndian)

/-- The record is neither compressed nor has it tracing data. -/
def Plain : Prop := record.header.eventType ≠ .headerTracingData ∧ record.header.eventType ≠ .compressed

/-- Its tracing data are of at least four bytes. -/
def LongBlob : Prop := record.hasBlob → 4 ≤ record.blob.length

theorem blob_of_not_hasBlob (h : ¬record.hasBlob) : record.blob = [] := by
  have hblob := record.announced
  rw [if_neg (show ¬(_ ∧ _) from h)] at hblob
  exact List.length_eq_zero_iff.1 hblob

theorem body_of_not_hasBlob (h : ¬record.hasBlob) : record.body = record.content := by
  rw [body, record.blob_of_not_hasBlob h, List.append_nil]

end PipeRecord

namespace PerfData

open PipeRecord (stream stream_cons stream_ne_nil)

variable {δ : Type} (E : Env δ) {depth : Nat} {d e : PerfData δ} {z : δ} {left : QByteArray}

/-! ## The records that compressed ones carry -/

/-- Behind what is left of the record before, the compressed ones carry whole records, none of them compressed or tracing
data, and what is left of the next. -/
inductive Carried : QByteArray → δ → List (PipeRecord E.bigEndian) → QByteArray → Prop
  | nil {left : QByteArray} {z : δ} : Carried left z [] left
  | plain {left left' : QByteArray} {z : δ} {record : PipeRecord E.bigEndian} {records : List (PipeRecord E.bigEndian)} :
      record.header.eventType ≠ .compressed → Carried left z records left' → Carried left z (record :: records) left'
  | compressed {left left₁ left' payload : QByteArray} {z z' : δ} {record : PipeRecord E.bigEndian}
      {records carried : List (PipeRecord E.bigEndian)} : E.hasCompressed = true →
      record.header.eventType = .compressed → Inflates E z record.content payload z' →
      left ++ payload = stream carried ++ left₁ → (∀ c ∈ carried, c.Plain) → Incomplete E left₁ →
      Carried left₁ z' records left' → Carried left z (record :: records) left'

/-- What reading a carried record does not change. -/
structure Keeps (d e : PerfData δ) : Prop where
  tracingData : e.tracingData = d.tracingData
  zstd : e.zstdDstream = d.zstdDstream
  buffer : e.decompressBuffer = d.decompressBuffer
  remaining : e.remaininingDecompressedDataSize = d.remaininingDecompressedDataSize

variable {E} in
theorem Keeps.trans {f : PerfData δ} (h : Keeps d e) (h' : Keeps e f) : Keeps d f :=
  ⟨h'.tracingData.trans h.tracingData, h'.zstd.trans h.zstd, h'.buffer.trans h.buffer, h'.remaining.trans h.remaining⟩

theorem readEvent_keeps (d : PerfData δ) (s : QByteArray) : Keeps d ((readEvent E d).run s).1 := by
  rw [run_readEvent E (d := d) (e := d) ⟨rfl, rfl⟩ rfl s]
  exact ⟨rfl, rfl, rfl, rfl⟩

/-- A carried record that fits its content is read up to the next one. -/
theorem processEvents_fits (hstart : e.eventHeader.size = 0) {record : PipeRecord E.bigEndian} {rest : QByteArray}
    (hplain : record.Plain) (hfits : rest = [] ∨ FitsContent E e record.header record.content) :
    ∃ e₁ : PerfData δ, processEvents E depth false ⟨e, record.bytes ++ rest⟩ = (.SignalFinished, ⟨e₁, rest⟩) ∧
      e₁.eventHeader.size = 0 ∧ Keeps e e₁ := by
  obtain ⟨nested, hnested⟩ := exists_nested E depth
  have hhandle : handleEvent E nested ⟨{ e with eventHeader := record.header }, record.body ++ rest⟩ = _ :=
    handleEvent_of_plain E (fun h => hplain.1 h.1) hplain.2
  have hprocess : processEvent E nested false ⟨e, record.bytes ++ rest⟩ = _ :=
    processEvent_bytes E false hstart record rest
  rw [processContent_of_finished E (r := ⟨{ e with eventHeader := record.header }, record.body ++ rest⟩)
    (record.contentSize_le rest) hhandle, ← hnested] at hprocess
  have hbytes : record.bytes ++ rest = Layout.header E.bigEndian record.header ++ (record.content ++ rest) := by
    rw [PipeRecord.bytes, record.body_of_not_hasBlob fun h => hplain.1 h.1, List.append_assoc]
  have hunread := (processEvents_framed_iff E depth hstart record.header record.content rest record.size hplain.1
    (hbytes ▸ hprocess)).2 hfits
  refine ⟨_, hprocess.trans (congrArg (Prod.mk _) (congrArg (Reading.mk _) hunread)), rfl, ?_⟩
  obtain ⟨h₁, h₂, h₃, h₄⟩ := readEvent_keeps E { e with eventHeader := record.header } (record.body ++ rest)
  exact ⟨h₁, h₂, h₃, h₄⟩

/-- Each carried record that the parser gets to, from `e`, fits its content, or nothing is behind it. -/
def AllFit (depth : Nat) (e : PerfData δ) (carried : List (PipeRecord E.bigEndian)) (left : QByteArray) : Prop :=
  ∀ pre record post e', carried = pre ++ record :: post →
    readEvents E depth false pre.length ⟨e, stream carried ++ left⟩ =
      (.SignalFinished, ⟨e', stream (record :: post) ++ left⟩) →
    stream post ++ left = [] ∨ FitsContent E e' record.header record.content

theorem readEvents_step {sequential : Bool} {n : Nat} {r r' : Reading δ} (hne : r.unread ≠ [])
    (h : processEvents E depth sequential r = (.SignalFinished, r')) :
    readEvents E depth sequential (n + 1) r = readEvents E depth sequential n r' := by
  rw [readEvents, if_neg hne, h]

/-- **The loop over the buffer reads the carried records**, and keeps what is left behind them. -/
theorem drain_fits (size : Nat) (hleft : Incomplete E left) : ∀ {carried : List (PipeRecord E.bigEndian)}
    {e : PerfData δ} {fuel : Nat}, e.eventHeader.size = 0 → (∀ c ∈ carried, c.Plain) → AllFit E depth e carried left →
      (stream carried ++ left).length < fuel → ∃ e₁, Keeps e e₁ ∧
        drain (processEvents E depth false) size fuel ⟨e, stream carried ++ left⟩ =
          (.SignalFinished, e₁.keepTail (size - left.length))
  | [], e, fuel, hstart, _, _, hfuel => by
    obtain ⟨fuel, rfl⟩ := Nat.exists_eq_succ_of_ne_zero (Nat.ne_zero_of_lt hfuel)
    obtain ⟨nested, hnested⟩ := exists_nested E depth
    obtain ⟨eventHeader, unread, hevent⟩ := processEvent_incomplete E nested false hstart hleft
    refine ⟨{ e with eventHeader }, ⟨rfl, rfl, rfl, rfl⟩, ?_⟩
    rw [show stream ([] : List (PipeRecord E.bigEndian)) ++ left = left from rfl, drain, hnested, hevent]
  | record :: carried, e, fuel, hstart, hplain, hfit, hfuel => by
    obtain ⟨fuel, rfl⟩ := Nat.exists_eq_succ_of_ne_zero (Nat.ne_zero_of_lt hfuel)
    have hne : stream (record :: carried) ++ left ≠ [] := fun h =>
      stream_ne_nil record carried (List.append_eq_nil_iff.1 h).1
    obtain ⟨e₁, hprocess, hstart₁, hkeeps⟩ := processEvents_fits E hstart (hplain record List.mem_cons_self)
      (hfit [] record carried e rfl rfl)
    rw [← List.append_assoc, ← stream_cons] at hprocess
    have hfuel₁ : (stream carried ++ left).length < fuel := by
      rw [stream_cons, PipeRecord.bytes, List.append_assoc, List.append_assoc, List.length_append,
        Layout.length_header, List.length_append] at hfuel
      omega
    obtain ⟨e₂, hkeeps₂, hdrain⟩ := drain_fits size hleft hstart₁
      (fun c hc => hplain c (List.mem_cons_of_mem _ hc))
      (fun pre r post e' hpre hread => hfit (record :: pre) r post e' (congrArg (record :: ·) hpre)
        ((readEvents_step E hne hprocess).trans hread)) hfuel₁
    refine ⟨e₂, hkeeps.trans hkeeps₂, ?_⟩
    rw [drain, hprocess]
    exact hdrain

/-! ## One record -/

/-- Between two records, with `left` of what was decompressed at the front of the buffer. -/
structure Between (z : δ) (left : QByteArray) (d : PerfData δ) : Prop where
  noHeader : d.eventHeader.size = 0
  noTracing : d.tracingData.size = 0
  zstd : d.zstdDstream.getD E.zstd.init = z
  remaining : d.remaininingDecompressedDataSize = left.length
  front : d.decompressBuffer.take left.length = left

variable {E} in
theorem Between.of_keeps {r₁ : PerfData δ} (h : Between E z left d) (htracing : r₁.tracingData.size = 0)
    (hzstd : r₁.zstdDstream = d.zstdDstream) (hbuffer : r₁.decompressBuffer = d.decompressBuffer)
    (hremaining : r₁.remaininingDecompressedDataSize = d.remaininingDecompressedDataSize) :
    Between E z left r₁.clearEventSize where
  noHeader := rfl
  noTracing := htracing
  zstd := (congrArg (·.getD E.zstd.init) hzstd).trans h.zstd
  remaining := hremaining.trans h.remaining
  front := (congrArg (·.take left.length) hbuffer).trans h.front

/-- A record that is not compressed is read to its end, and what is left of the decompressed ones stays. -/
theorem processEvent_between {nested : Reading δ → ReadStatus × Reading δ} (hd : Between E z left d)
    {record : PipeRecord E.bigEndian} {rest : QByteArray} (htype : record.header.eventType ≠ .compressed)
    (h : d.TakesExactly E record rest) : ∃ d₁, processEvent E nested true ⟨d, record.bytes ++ rest⟩ =
      (.SignalFinished, ⟨d₁, rest⟩) ∧ Between E z left d₁ := by
  obtain ⟨-, hsize⟩ := contentSize_of_size record.size
  by_cases hblob : record.hasBlob
  · have htr : isTracing (⟨{ d with eventHeader := record.header }, record.body ++ rest⟩ : Reading δ) :=
      ⟨hblob.1, hsize.trans hblob.2⟩
    have hhandle : handleEvent E nested ⟨{ d with eventHeader := record.header }, record.body ++ rest⟩ = _ :=
      handleEvent_of_isTracing E htr
    cases hresult : handleTracingBlob E (Reading.apply
        (⟨{ d with eventHeader := record.header }, record.body ++ rest⟩ : Reading δ) (readTracingSize E)) with
    | mk st r₁ =>
      rw [hresult] at hhandle
      unfold handleTracingBlob at hresult
      split at hresult
      · obtain ⟨rfl, -⟩ := Prod.mk.inj hresult
        exact absurd (handleEvent_record E record rest hhandle) (Nat.not_lt.2 h.2)
      · obtain ⟨rfl, rfl⟩ := Prod.mk.inj hresult
        refine ⟨_, processEvent_exact E true hd.noHeader h hhandle, hd.of_keeps rfl ?_ ?_ ?_⟩
        all_goals
          unfold Reading.apply readTracing readTracingSize
          rw [if_pos hd.noTracing]
          rfl
  · have hhandle : handleEvent E nested ⟨{ d with eventHeader := record.header }, record.body ++ rest⟩ = _ :=
      handleEvent_of_plain E (fun h => hblob ⟨h.1, hsize.symm.trans h.2⟩) htype
    obtain ⟨h₁, h₂, h₃, h₄⟩ := readEvent_keeps E { d with eventHeader := record.header } (record.body ++ rest)
    refine ⟨_, processEvent_exact E true hd.noHeader h hhandle, hd.of_keeps ?_ h₂ h₃ h₄⟩
    exact (congrArg (·.size) h₁).trans hd.noTracing

/-- The records that a compressed one carries are read where they fit, whatever is left of the one before. -/
def CarriedFit (depth : Nat) (d : PerfData δ) (record : PipeRecord E.bigEndian) : Prop :=
  ∀ payload z' carried left, Inflates E (d.zstdDstream.getD E.zstd.init) record.content payload z' →
    d.decompressBuffer.take d.remaininingDecompressedDataSize ++ payload = stream carried ++ left →
    AllFit E depth (d.inflated record.header z' (stream carried ++ left)) carried left

/-- A compressed record is read to its end, and leaves what is left behind the records that it carries. -/
theorem processEvents_carried (hcompressed : E.hasCompressed = true) (hd : Between E z left d)
    {record : PipeRecord E.bigEndian} {rest payload left₁ : QByteArray} {z' : δ}
    {carried : List (PipeRecord E.bigEndian)} (htype : record.header.eventType = .compressed)
    (hinflates : Inflates E z record.content payload z') (hcarried : left ++ payload = stream carried ++ left₁)
    (hplain : ∀ c ∈ carried, c.Plain) (hleft : Incomplete E left₁) (hfit : CarriedFit E depth d record)
    (h : d.TakesExactly E record rest) : ∃ d₁, processEvents E (depth + 1) true ⟨d, record.bytes ++ rest⟩ =
      (.SignalFinished, ⟨d₁, rest⟩) ∧ Between E z' left₁ d₁ := by
  have hbody : record.body = record.content :=
    record.body_of_not_hasBlob fun hblob => nomatch hblob.1.symm.trans htype
  have hstart := hfit payload z' carried left₁ (hd.zstd ▸ hinflates) (by rw [hd.remaining, hd.front, hcarried])
  obtain ⟨e₁, hkeeps, hdrain⟩ := drain_fits E (stream carried ++ left₁).length hleft
    (e := d.inflated record.header z' (stream carried ++ left₁)) rfl hplain hstart (Nat.lt_succ_self _)
  rw [List.length_append, Nat.add_sub_cancel, ← List.length_append] at hdrain
  have hkept := keepTail_front hkeeps.buffer
  have hresult := hinflates d.decompressBuffer d.remaininingDecompressedDataSize
    (by rw [hd.remaining]; exact length_le_of_take_eq hd.front)
  rw [hd.remaining, hd.front, ← hd.zstd, hcarried] at hresult
  have hraw : (readRawData record.header.contentSize).run (record.content ++ rest) = (record.content, rest) := by
    rw [(contentSize_of_size record.size).2]
    exact Reads.raw 0 record.content rest
  have hhandle : handleEvent E (processEvents E depth false)
      ⟨{ d with eventHeader := record.header }, record.body ++ rest⟩ =
        (.SignalFinished, ⟨e₁.keepTail (stream carried).length, rest⟩) := by
    rw [handleEvent_of_compressed E htype, hbody]
    unfold handleCompressed
    simp only [hraw, hd.remaining, hresult]
    rw [if_neg fun hnone => hnone.2 hcompressed]
    exact congrArg (fun result => (result.1, Reading.mk result.2 rest)) hdrain
  refine ⟨_, processEvent_exact E true hd.noHeader h hhandle, ?_⟩
  exact {
    noHeader := rfl
    noTracing := (congrArg (·.size) hkeeps.tracingData).trans hd.noTracing
    zstd := congrArg (·.getD E.zstd.init) hkeeps.zstd
    remaining := hkept.1
    front := hkept.2 }

/-! ## The whole stream -/

/-- The records are in step with the parser: each one that it gets to on a sequential device is taken exactly, and what a
compressed one carries fits. -/
def InStep (depth : Nat) (d : PerfData δ) (records : List (PipeRecord E.bigEndian)) (tail : QByteArray) : Prop :=
  ∀ pre record post d', records = pre ++ record :: post →
    readEvents E (depth + 1) true pre.length ⟨d, stream records ++ tail⟩ =
      (.SignalFinished, ⟨d', stream (record :: post) ++ tail⟩) →
    d'.TakesExactly E record (stream post ++ tail) ∧
      (record.header.eventType = .compressed → CarriedFit E depth d' record)

theorem blobSize_of_noTracing (h : d.tracingData.size = 0) {record : PipeRecord E.bigEndian} (hblob : record.hasBlob) :
    (d.blobSize E record.content).toNat = record.blob.length := by
  rw [blobSize, if_pos h, record.announced, if_pos (show _ ∧ _ from hblob)]

theorem takesContent_exact (hd : Between E z left d) {record : PipeRecord E.bigEndian} (hlong : record.LongBlob)
    (rest : QByteArray) : TakesContent E (started E ⟨d, record.bytes ++ rest⟩) rest := by
  obtain ⟨-, hsize⟩ := contentSize_of_size record.size
  rw [PipeRecord.bytes, List.append_assoc, started_header E hd.noHeader]
  unfold TakesContent
  by_cases hblob : record.hasBlob
  · rw [if_pos (show isTracing _ from ⟨hblob.1, hsize.trans hblob.2⟩)]
    intro _
    rw [PipeRecord.body, List.append_assoc, (apply_readTracingSize_content E record.header hblob.2 _).2,
      blobSize_of_noTracing E hd.noTracing hblob]
    exact hlong hblob
  · rw [if_neg (show ¬isTracing _ from fun htr => hblob ⟨htr.1, hsize.symm.trans htr.2⟩),
      record.body_of_not_hasBlob hblob, List.length_append, hsize]
    exact Nat.add_comm _ _

/-- The parser waits for what is behind the stream, and `m_eventHeader.size` shows whether a whole header is left. -/
def WaitsBehind (depth : Nat) (d : PerfData δ) (s tail : QByteArray) : Prop :=
  ∃ y, WaitsAt E depth ⟨d, s⟩ y ∧ (y.data.eventHeader.size = 0 ↔ tail.length < 8)

theorem waitsBehind_part (hd : Between E z left d) {last : PipeRecord E.bigEndian} (hlong : last.LongBlob)
    {tail more : QByteArray} (hlast : tail ++ more = last.bytes) (hmore : more ≠ []) :
    WaitsBehind E depth d tail tail := by
  obtain ⟨nested, hnested⟩ := exists_nested E depth
  obtain ⟨hheader, hsize⟩ := contentSize_of_size last.size
  by_cases h8 : tail.length < 8
  · refine ⟨⟨d, tail⟩, ?_, iff_of_true hd.noHeader h8⟩
    by_cases hnil : tail = []
    · exact .done hnil
    · refine .short hnil (by rw [hnested]; exact processEvent_of_short E hd.noHeader h8 true) fun htr hlen => ?_
      have hunread : (started E ⟨d, tail⟩).unread = tail.drop 8 := by
        unfold started
        rw [if_pos hd.noHeader]
        exact (takes_readHeader E d).run_snd tail
      rw [htr.2, hunread, List.drop_eq_nil_of_le (Nat.le_of_lt h8)] at hlen
      exact absurd hlen (by decide)
  · have hne : last.header.size ≠ 0 := fun h0 => by
      rw [h0] at hheader
      exact absurd hheader (by decide)
    obtain ⟨part, rfl, hpart⟩ := exists_append_of_length_le hlast (by rw [Layout.length_header]; omega)
    have hnil : Layout.header E.bigEndian last.header ++ part ≠ [] := fun h => h8 (by rw [h]; decide)
    have hprocess : processEvent E nested true ⟨d, Layout.header E.bigEndian last.header ++ part⟩ = _ :=
      processEvent_of_header E hd.noHeader hheader part
    rw [← hnested] at hprocess
    by_cases hshort : part.length < last.header.contentSize
    · refine ⟨⟨{ d with eventHeader := last.header }, part⟩, .short hnil ?_ fun _ hlen => ?_, iff_of_false hne h8⟩
      · rw [hprocess]
        exact processContent_of_short E hshort true
      · rw [started_header E hd.noHeader] at hlen
        exact absurd hlen (Nat.not_le.2 hshort)
    · obtain ⟨blobPart, rfl, hblobPart⟩ := exists_append_of_length_le hpart (by omega)
      have hblob : last.hasBlob := by
        by_contra hblob
        rw [last.blob_of_not_hasBlob hblob] at hblobPart
        exact hmore (List.append_eq_nil_iff.1 hblobPart).2
      have htr : isTracing (⟨{ d with eventHeader := last.header }, last.content ++ blobPart⟩ : Reading δ) :=
        ⟨hblob.1, hsize.trans hblob.2⟩
      obtain ⟨hunread, hannounced⟩ := apply_readTracingSize_content E (d := d) last.header hblob.2 blobPart
      have hheader' := apply_readTracingSize_eventHeader E
        (r := ⟨{ d with eventHeader := last.header }, last.content ++ blobPart⟩)
      rw [blobOffset, if_pos hd.noTracing, ← hblob.2, List.drop_left] at hunread
      have hhandle : handleEvent E nested ⟨{ d with eventHeader := last.header }, last.content ++ blobPart⟩ = _ :=
        handleEvent_of_isTracing E htr
      generalize hr' : Reading.apply (⟨{ d with eventHeader := last.header }, last.content ++ blobPart⟩ : Reading δ)
        (readTracingSize E) = r' at hunread hannounced hheader' hhandle
      refine ⟨r', .short hnil ?_ fun _ _ => ?_, iff_of_false (by rw [hheader']; exact hne) h8⟩
      · refine hprocess.trans (processContent_of_failed E (Nat.not_lt.1 hshort)
          (hhandle.trans (if_pos ?_)) (by decide) true)
        have hlength := congrArg List.length hblobPart
        have hpos := List.length_pos_iff.2 hmore
        rw [List.length_append] at hlength
        rw [hunread, hannounced, blobSize_of_noTracing E hd.noTracing hblob]
        omega
      · rw [started_header E hd.noHeader]
        unfold TakesContent
        rw [if_pos htr]
        intro _
        rw [hr', hannounced, blobSize_of_noTracing E hd.noTracing hblob]
        exact hlong hblob

variable {E} in
theorem InStep.tail {record : PipeRecord E.bigEndian} {records : List (PipeRecord E.bigEndian)} {tail : QByteArray}
    {d₁ : PerfData δ} (h : InStep E depth d (record :: records) tail)
    (hprocess : processEvents E (depth + 1) true ⟨d, record.bytes ++ (stream records ++ tail)⟩ =
      (.SignalFinished, ⟨d₁, stream records ++ tail⟩)) : InStep E depth d₁ records tail := by
  intro pre r post d' hpre hread
  refine h (record :: pre) r post d' (congrArg (record :: ·) hpre) ((readEvents_step E ?_ ?_).trans hread)
  · exact fun h => stream_ne_nil record records (List.append_eq_nil_iff.1 h).1
  · rw [stream_cons, List.append_assoc]
    exact hprocess

theorem waitsBehind_cons {d₁ : PerfData δ} (hd : Between E z left d) {record : PipeRecord E.bigEndian}
    {records : List (PipeRecord E.bigEndian)} {tail : QByteArray} (hlong : record.LongBlob)
    (hprocess : processEvents E depth true ⟨d, record.bytes ++ (stream records ++ tail)⟩ =
      (.SignalFinished, ⟨d₁, stream records ++ tail⟩))
    (h : WaitsBehind E depth d₁ (stream records ++ tail) tail) :
    WaitsBehind E depth d (stream (record :: records) ++ tail) tail := by
  obtain ⟨y, hy, hsize⟩ := h
  refine ⟨y, .event (fun h => stream_ne_nil record records (List.append_eq_nil_iff.1 h).1) ?_ ?_ hy, hsize⟩
  · rw [stream_cons, List.append_assoc]
    exact hprocess
  · rw [stream_cons, List.append_assoc]
    exact takesContent_exact E hd hlong _

/-- **Records in step leave the parser to wait where the stream is cut.** -/
theorem waitsBehind_stream {last : PipeRecord E.bigEndian} (hlong : last.LongBlob) {tail more left left' : QByteArray}
    (hlast : tail ++ more = last.bytes) (hmore : more ≠ []) {records : List (PipeRecord E.bigEndian)}
    (hcarried : Carried E left z records left') : ∀ {d : PerfData δ}, Between E z left d →
      InStep E depth d records tail → (∀ r ∈ records, r.LongBlob) →
        WaitsBehind E (depth + 1) d (stream records ++ tail) tail := by
  induction hcarried with
  | nil =>
    intro d hd _ _
    exact waitsBehind_part E hd hlong hlast hmore
  | plain htype _ ih =>
    intro d hd hstep hblobs
    obtain ⟨hexact, -⟩ := hstep [] _ _ d rfl rfl
    obtain ⟨d₁, hprocess, hd₁⟩ := processEvent_between E hd htype hexact
    exact waitsBehind_cons E hd (hblobs _ List.mem_cons_self) hprocess
      (ih hd₁ (hstep.tail hprocess) fun r hr => hblobs r (List.mem_cons_of_mem _ hr))
  | compressed hcompressed htype hinflates hcut hplain hleft _ ih =>
    intro d hd hstep hblobs
    obtain ⟨hexact, hfit⟩ := hstep [] _ _ d rfl rfl
    obtain ⟨d₁, hprocess, hd₁⟩ :=
      processEvents_carried E hcompressed hd htype hinflates hcut hplain hleft (hfit htype) hexact
    exact waitsBehind_cons E hd (hblobs _ List.mem_cons_self) hprocess
      (ih hd₁ (hstep.tail hprocess) fun r hr => hblobs r (List.mem_cons_of_mem _ hr))

/-- The end of a round. -/
def roundRecord : PipeRecord false where
  header := { type := 68, size := 8 }
  content := []
  blob := []
  size := rfl
  announced := by decide

end PerfData
end PerfParser
