import PerfParser.Decompress
import PerfParser.ReadRecords
/-!
# CarryOver — what a compressed record leaves to the next

The payload of a compressed record is parsed as far as it holds complete events, and its tail is moved to the front of
the decompress buffer and parsed again with the next payload behind it.  Wherever the payloads cut the events, it is the
uncut stream that is parsed.
-/
namespace PerfParser
namespace PerfData

open QDataStream Reader

variable {δ : Type} (E : Env δ) {nested : Reading δ → ReadStatus × Reading δ} {sequential : Bool} {d d' d₁ e : PerfData δ}
  {header : PerfEventHeader} {content rest s tail payload : QByteArray} {z z' : δ}

/-! ## Parsers at the same event -/

/-- Two parsers that dispatched the same events and read the next ones alike. -/
structure SameEvents (d e : PerfData δ) : Prop where
  attributes : e.attributes = d.attributes
  dispatched : e.dispatched = d.dispatched

/-- Reading an event depends on nothing but its header and the attributes, and changes nothing but the attributes and
what was dispatched. -/
theorem run_readEvent (h : SameEvents d e) (hheader : e.eventHeader = d.eventHeader) (s : QByteArray) :
    (readEvent E e).run s
      = ({ e with
            attributes := ((readEvent E d).run s).1.attributes
            dispatched := ((readEvent E d).run s).1.dispatched },
          ((readEvent E d).run s).2) := by
  obtain ⟨header, tracingData, attributes, zstd, buffer, remaining, dispatched⟩ := d
  obtain ⟨header', tracingData', attributes', zstd', buffer', remaining', dispatched'⟩ := e
  obtain ⟨hattributes, hdispatched⟩ := h
  simp only at hattributes hdispatched hheader
  subst hattributes hdispatched hheader
  unfold readEvent
  simp only
  split
  case h_4 =>
    unfold readSample
    simp only
    split <;> rfl
  all_goals rfl

theorem reads_readEvent (h : SameEvents d e) (hread : Reads (readEvent E { d with eventHeader := header }) content d₁) :
    Reads (readEvent E { e with eventHeader := header }) content
      { e with eventHeader := header, attributes := d₁.attributes, dispatched := d₁.dispatched } := by
  intro rest
  have hsame : SameEvents { d with eventHeader := header } { e with eventHeader := header } :=
    ⟨h.attributes, h.dispatched⟩
  have hrun := run_readEvent E hsame rfl (content ++ rest)
  rw [hread rest] at hrun
  exact hrun

/-! ## The events of a payload -/

/-- The loop over the buffer reads the complete events in it, and leaves the tail behind them for the next record. -/
theorem drain_records (nested : Reading δ → ReadStatus × Reading δ) (sequential : Bool) {done : QByteArray}
    (h : Records E d done d₁) (htail : Incomplete E tail) (size : Nat) :
    ∀ {e : PerfData δ} {fuel : Nat}, SameEvents d e → e.eventHeader.size = 0 → (done ++ tail).length < fuel →
      ∃ e₁, SameEvents d₁ e₁ ∧ e₁.zstdDstream = e.zstdDstream ∧ e₁.decompressBuffer = e.decompressBuffer
        ∧ drain (processEvent E nested sequential) size fuel ⟨e, done ++ tail⟩
          = (.SignalFinished, e₁.keepTail (size - tail.length)) := by
  induction h with
  | nil =>
    intro e fuel hsame h0 hfuel
    obtain ⟨fuel, rfl⟩ := Nat.exists_eq_succ_of_ne_zero (Nat.ne_zero_of_lt hfuel)
    obtain ⟨eventHeader, unread, hevent⟩ := processEvent_incomplete E nested sequential h0 htail
    refine ⟨{ e with eventHeader }, ⟨hsame.attributes, hsame.dispatched⟩, rfl, rfl, ?_⟩
    rw [List.nil_append, drain, hevent]
  | @cons d d₁ d' header content rest hsize htracing hcompressed hlen hread hrest ih =>
    intro e fuel hsame h0 hfuel
    obtain ⟨fuel, rfl⟩ := Nat.exists_eq_succ_of_ne_zero (Nat.ne_zero_of_lt hfuel)
    simp only [List.length_append, Layout.length_header] at hfuel
    have hread' := reads_readEvent E hsame hread
    have hsame₁ : SameEvents d₁.clearEventSize (clearEventSize
        { e with eventHeader := header, attributes := d₁.attributes, dispatched := d₁.dispatched }) := ⟨rfl, rfl⟩
    have hrestlen : (rest ++ tail).length < fuel := by
      rw [List.length_append]
      omega
    obtain ⟨e₂, hsame₂, hzstd, hbuffer, hdrain⟩ := ih hsame₁ rfl hrestlen
    refine ⟨e₂, hsame₂, hzstd, hbuffer, ?_⟩
    rw [List.append_assoc, List.append_assoc, drain, processEvent_record E h0 hsize htracing hcompressed hlen hread']
    exact hdrain

/-! ## Compressed records -/

/-- The library makes exactly `payload` of the content of a record. -/
def Inflates (z : δ) (content payload : QByteArray) (z' : δ) : Prop := ∀ (buffer : QByteArray) (remaining : Nat),
  remaining ≤ buffer.length → decompress E z buffer remaining content = some (z', buffer.take remaining ++ payload)

/-- The stream is a compressed record for each of the payloads. -/
inductive Compresses : δ → QByteArray → List QByteArray → Prop
  | nil {z : δ} : Compresses z [] []
  | cons {z z' : δ} {header : PerfEventHeader} {content stream payload : QByteArray} {payloads : List QByteArray} :
      PerfEventHeader.fixedLength ≤ header.size → header.eventType = .compressed →
      content.length = header.contentSize → Inflates E z content payload z' → Compresses z' stream payloads →
      Compresses z (Layout.header E.bigEndian header ++ (content ++ stream)) (payload :: payloads)

/-- Between two compressed records: what `d` has not read of the payloads is kept at the front of the buffer, and it is
no complete event. -/
structure Carries (z : δ) (d : PerfData δ) (tail : QByteArray) (e : PerfData δ) : Prop where
  eventSize : e.eventHeader.size = 0
  same : SameEvents d e
  remaining : e.remaininingDecompressedDataSize = tail.length
  front : e.decompressBuffer.take tail.length = tail
  incomplete : Incomplete E tail
  zstd : e.zstdDstream.getD E.zstd.init = z
  hasCompressed : e.zstdDstream.isNone → E.hasCompressed = true

theorem length_le_of_take_eq {buffer : QByteArray} (h : buffer.take tail.length = tail) :
    tail.length ≤ buffer.length := by
  have := congrArg List.length h
  rw [List.length_take] at this
  omega

theorem keepTail_front {done : QByteArray} (h : e.decompressBuffer = done ++ tail) :
    (e.keepTail done.length).remaininingDecompressedDataSize = tail.length
      ∧ (e.keepTail done.length).decompressBuffer.take tail.length = tail := by
  unfold keepTail
  simp only
  rw [h, List.drop_left, List.take_left]
  refine ⟨?_, rfl⟩
  rw [List.length_append, Nat.add_sub_cancel_left]

/-- The parser with a record decompressed to `buffer`. -/
def inflated (e : PerfData δ) (header : PerfEventHeader) (z : δ) (buffer : QByteArray) : PerfData δ :=
  { e with
    eventHeader := { header with size := 0 }
    zstdDstream := some z
    decompressBuffer := buffer
    remaininingDecompressedDataSize := 0 }

theorem processEvent_compressed (nested : Reading δ → ReadStatus × Reading δ) (sequential : Bool)
    {done tail' : QByteArray} (h : Carries E z d tail e) (hsplit : tail ++ payload = done ++ tail')
    (hdone : Records E d done d₁) (htail : Incomplete E tail') (hsize : PerfEventHeader.fixedLength ≤ header.size)
    (htype : header.eventType = .compressed) (hlen : content.length = header.contentSize)
    (hinflates : Inflates E z content payload z') (rest : QByteArray) :
    ∃ e', Carries E z' d₁ tail' e'
      ∧ processEvent E (processEvent E nested false) sequential ⟨e, Layout.header E.bigEndian header ++ (content ++ rest)⟩
        = (.SignalFinished, ⟨e', rest⟩) := by
  have hstart : SameEvents d (e.inflated header z' (done ++ tail')) := ⟨h.same.attributes, h.same.dispatched⟩
  obtain ⟨e₁, hsame, hzstd, hbuffer, hdrain⟩ :=
    drain_records E nested false hdone htail (done ++ tail').length hstart rfl (Nat.lt_succ_self _)
  have hkept := keepTail_front hbuffer
  rw [List.length_append, Nat.add_sub_cancel] at hdrain
  refine ⟨(e₁.keepTail done.length).clearEventSize, ?_, processEvent_of_content E h.eventSize hsize hlen ?_⟩
  · exact {
      eventSize := rfl
      same := ⟨hsame.attributes, hsame.dispatched⟩
      remaining := hkept.1
      front := hkept.2
      incomplete := htail
      zstd := congrArg (·.getD E.zstd.init) hzstd
      hasCompressed := fun hnone => by
        have hsome : e₁.zstdDstream.isNone = true := hnone
        rw [hzstd] at hsome
        cases hsome }
  · have hresult := hinflates e.decompressBuffer e.remaininingDecompressedDataSize
      (by rw [h.remaining]; exact length_le_of_take_eq h.front)
    rw [h.remaining, h.front, ← h.zstd, hsplit] at hresult
    have hraw : (readRawData header.contentSize).run (content ++ rest) = (content, rest) := by
      rw [← hlen]
      exact Reads.raw 0 content rest
    unfold handleEvent
    simp only [htype]
    unfold handleCompressed
    simp only [hraw, h.remaining, hresult]
    rw [if_neg fun hnone => hnone.2 (h.hasCompressed hnone.1)]
    rw [← List.length_append] at hdrain
    exact congrArg (fun result => (result.1, Reading.mk result.2 rest)) hdrain

/-- After every record that was read, what `d` has not read of the payloads is kept. -/
theorem readAll_carries (depth : Nat) (sequential : Bool) {stream : QByteArray} {payloads : List QByteArray}
    (hstream : Compresses E z stream payloads) :
    ∀ {d e : PerfData δ} {tail more : QByteArray}, Carries E z d tail e →
      Records E d (tail ++ payloads.flatten ++ more) d' → (more = [] → payloads = [] → tail = []) →
      ∃ z' done tail' d₁ e', tail ++ payloads.flatten = done ++ tail' ∧ Records E d done d₁ ∧
        Records E d₁ (tail' ++ more) d'
        ∧ (more = [] → tail' = []) ∧ Carries E z' d₁ tail' e'
        ∧ readAll E (depth + 1) sequential ⟨e, stream⟩ = (.SignalFinished, ⟨e', []⟩) := by
  induction hstream with
  | @nil z =>
    intro d e tail more h hrecords hend
    rw [List.flatten_nil, List.append_nil] at hrecords ⊢
    exact ⟨z, [], tail, d, e, rfl, .nil, hrecords, fun hmore => hend hmore rfl, h, readAll_nil E rfl⟩
  | @cons z z' header content stream payload payloads hsize htype hlen hinflates hstream ih =>
    intro d e tail more h hrecords hend
    obtain ⟨nested, hnested⟩ := exists_nested E depth
    rw [List.flatten_cons, ← List.append_assoc] at hrecords ⊢
    obtain ⟨done, tail₁, d₁, hsplit, hdone, htail, hincomplete, hend₁⟩ :=
      hrecords.cut (List.append_assoc (tail ++ payload) payloads.flatten more).symm
    obtain ⟨e₁, h₁, hevent⟩ :=
      processEvent_compressed E nested sequential h hsplit hdone hincomplete hsize htype hlen hinflates stream
    obtain ⟨z₂, done₂, tail₂, d₂, e₂, hsplit₂, hdone₂, htail₂, hend₂, h₂, hread⟩ :=
      ih h₁ (by simpa using htail) fun hmore hnil => hend₁ (by rw [hmore, hnil]; rfl)
    refine ⟨z₂, done ++ done₂, tail₂, d₂, e₂, ?_, hdone.append hdone₂, htail₂, hend₂, h₂, ?_⟩
    · rw [hsplit, List.append_assoc, hsplit₂, List.append_assoc]
    · rw [← hnested] at hevent
      have houter : processEvents E (depth + 1) sequential ⟨e, Layout.header E.bigEndian header ++ (content ++ stream)⟩
          = (.SignalFinished, ⟨e₁, stream⟩) := hevent
      rw [readAll_finished E ?_ houter]
      · exact hread
      · simp [← List.length_pos_iff]

/-- **Wherever the payloads of compressed records cut the events, the uncut stream is read**: after records with these
payloads, the events dispatched are those of the stream up to the tail that the payloads have of its next event, and
the tail, none of it once they are all there, is what is kept at the front of the decompress buffer. -/
theorem readAll_payloads (depth depth' : Nat) (sequential sequential' : Bool) (stream : QByteArray)
    (payloads : List QByteArray) (more : QByteArray) (h0 : d.eventHeader.size = 0)
    (hremaining : d.remaininingDecompressedDataSize = 0) (hcompressed : d.zstdDstream.isNone → E.hasCompressed = true)
    (hrecords : Records E d (payloads.flatten ++ more) d')
    (hstream : Compresses E (d.zstdDstream.getD E.zstd.init) stream payloads) :
    ∃ done tail e, payloads.flatten = done ++ tail ∧ Incomplete E tail ∧ (more = [] → tail = [])
      ∧ readAll E (depth + 1) sequential ⟨d, stream⟩ = (.SignalFinished, ⟨e, []⟩)
      ∧ (readAll E depth' sequential' ⟨d, done⟩).1 = .SignalFinished
      ∧ e.dispatched = (readAll E depth' sequential' ⟨d, done⟩).2.data.dispatched
      ∧ e.remaininingDecompressedDataSize = tail.length
      ∧ e.decompressBuffer.take tail.length = tail := by
  have hstart : Carries E (d.zstdDstream.getD E.zstd.init) d [] d :=
    { eventSize := h0
      same := ⟨rfl, rfl⟩
      remaining := hremaining
      front := List.take_zero
      incomplete := .inl (by decide)
      zstd := rfl
      hasCompressed := hcompressed }
  obtain ⟨z', done, tail, d₁, e, hsplit, hdone, -, hend, h, hread⟩ :=
    readAll_carries E depth sequential hstream hstart hrecords fun _ _ => rfl
  have huncut := readAll_records E depth' sequential' hdone h0
  refine ⟨done, tail, e, hsplit, h.incomplete, hend, hread, ?_, ?_, h.remaining, h.front⟩
  · rw [huncut]
  · rw [huncut]
    exact h.same.dispatched

/-- A library that stores what it is given. -/
def stored : Zstd Unit where
  init := ()
  decompressStream _ input room := if input = [] ∨ room < input.length then none else some ((), input.length, input)
  consumed_le := by
    intro z input room z' n out h
    split at h
    · cases h
    · obtain ⟨rfl, -⟩ := by simpa using h
      exact Nat.le_refl _
  produced_le := by
    intro z input room z' n out h
    split at h
    · cases h
    · obtain ⟨-, rfl⟩ := by simpa using h
      omega
  calls _ input _ := input.length
  calls_lt := by
    intro z input room z' n out h room' _
    split at h
    · cases h
    · obtain ⟨rfl, -⟩ := by simpa using h
      rw [List.drop_length, List.length_nil, List.length_pos_iff]
      tauto

def storedEnv (mmapLen : Nat) : Env Unit where
  bigEndian := false
  hasCompressed := true
  mmapLen := mmapLen
  zstd := stored
  parseTracingData := fun t _ => t

theorem stored_inflates {mmapLen : Nat} (hne : content ≠ []) (hlen : content.length ≤ mmapLen) :
    Inflates (storedEnv mmapLen) () content content () := by
  intro buffer remaining hremaining
  have hcall : callZstd (storedEnv mmapLen) () content { dst := 0, size := mmapLen, pos := 0 }
      = some ((), content.length, content) :=
    (if_neg (Nat.not_lt_zero _)).trans (if_neg fun h => h.elim hne fun hroom => by
      simp only [Nat.sub_zero] at hroom
      omega)
  have hcalls : Calls (storedEnv mmapLen) mmapLen () content { dst := 0, size := mmapLen, pos := 0 } [content] () := by
    refine .call hne hcall ?_
    rw [List.drop_length]
    exact .done
  rw [decompress_of_calls hremaining hcalls, writes_of_one _ _ (by simp [hne]), List.flatten_singleton]

theorem exists_records : ∃ d' : PerfData Unit, Records (storedEnv 64) {}
    [3, 0, 0, 0, 0, 0, 20, 0, 5, 0, 0, 0, 6, 0, 0, 0, 115, 104, 0, 0, 68, 0, 0, 0, 0, 0, 8, 0] d' := by
  have hround (d : PerfData Unit) : Records (storedEnv 64) d [68, 0, 0, 0, 0, 0, 8, 0]
      (clearEventSize (dispatch { d with eventHeader := ⟨68, 0, 8⟩ } .finishedRound)) :=
    @Records.cons Unit (storedEnv 64) d _ _ ⟨68, 0, 8⟩ [] [] (by decide) (by decide) (by decide) (by decide)
      (reads_finishedRound (storedEnv 64) (show PerfEventType.ofNumber 68 = _ by decide)
        (show 0 = PerfEventHeader.contentSize ⟨68, 0, 8⟩ by decide)) .nil
  have hname : Reads (readEvent (storedEnv 64) { eventHeader := ⟨3, 0, 20⟩ })
    [5, 0, 0, 0, 6, 0, 0, 0, 115, 104, 0, 0] _ :=
    reads_comm (storedEnv 64) (by decide) { pid := 5, tid := 6, comm := [115, 104] } (by decide) 2 (by decide) (by decide)
  exact ⟨_, @Records.cons Unit (storedEnv 64) {} _ _ ⟨3, 0, 20⟩ _ _ (by decide) (by decide) (by decide) (by decide) hname
    (hround _)⟩

/-- A name and the end of a round, cut inside a header, inside the content and inside the next header. -/
theorem readAll_payloads_cut :
    let payloads : List QByteArray := [[3, 0, 0, 0, 0], [0, 20, 0, 5, 0], [0, 0, 6, 0, 0, 0, 115, 104, 0, 0, 68, 0]]
    let stream : QByteArray :=
      [81, 0, 0, 0, 0, 0, 13, 0, 3, 0, 0, 0, 0, 81, 0, 0, 0, 0, 0, 13, 0, 0, 20, 0, 5, 0,
        81, 0, 0, 0, 0, 0, 20, 0, 0, 0, 6, 0, 0, 0, 115, 104, 0, 0, 68, 0]
    ∃ done tail e, payloads.flatten = done ++ tail ∧ Incomplete (storedEnv 64) tail
      ∧ (([0, 0, 0, 0, 8, 0] : QByteArray) = [] → tail = [])
      ∧ readAll (storedEnv 64) 1 true ⟨{}, stream⟩ = (.SignalFinished, ⟨e, []⟩)
      ∧ (readAll (storedEnv 64) 0 true ⟨{}, done⟩).1 = .SignalFinished
      ∧ e.dispatched = (readAll (storedEnv 64) 0 true ⟨{}, done⟩).2.data.dispatched
      ∧ e.remaininingDecompressedDataSize = tail.length
      ∧ e.decompressBuffer.take tail.length = tail := by
  obtain ⟨d', hrecords⟩ := exists_records
  exact readAll_payloads (storedEnv 64) 0 0 true true _ _ _ rfl rfl (fun _ => rfl) hrecords
    (@Compresses.cons Unit (storedEnv 64) () () ⟨81, 0, 13⟩ [3, 0, 0, 0, 0] _ _ _ (by decide) (by decide) (by decide)
        (stored_inflates (by decide) (by decide)) <|
      @Compresses.cons Unit (storedEnv 64) () () ⟨81, 0, 13⟩ [0, 20, 0, 5, 0] _ _ _ (by decide) (by decide) (by decide)
        (stored_inflates (by decide) (by decide)) <|
      @Compresses.cons Unit (storedEnv 64) () () ⟨81, 0, 20⟩ [0, 0, 6, 0, 0, 0, 115, 104, 0, 0, 68, 0] _ _ _ (by decide)
        (by decide) (by decide) (stored_inflates (by decide) (by decide)) .nil)

end PerfData
end PerfParser
