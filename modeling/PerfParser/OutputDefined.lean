import PerfParser.Output
import PerfParser.UnwindCalls
/-!
# OutputDefined — the receiver knows every id that a record mentions

The stream has a definition for every string and location that is interned, in their order (`Matches`), and lookups send
what they mention bottom up.  What the buffers and the registry hold was defined before it got there, so every
operation leaves a well defined stream (`run_wellDefined`).
-/
namespace PerfParser

open History (Always)
open Definitions (Sends)

/-! ## The stream and the definitions -/

theorem numbers_succ (n : Nat) : numbers (n + 1) = numbers n ++ [Int32.ofNat n] := by
  rw [numbers, List.range_succ, List.map_append]
  rfl

theorem mem_numbers {n i : Nat} (h : i < n) : Int32.ofNat i ∈ numbers n :=
  List.mem_map_of_mem (List.mem_range.2 h)

@[simp] theorem length_numbers (n : Nat) : (numbers n).length = n := by
  rw [numbers, List.length_map, List.length_range]

/-- A record that defines no id. -/
structure Record.Plain (r : Record) : Prop where
  string : r.string? = none
  location : r.location? = none
  attributes : r.attributes? = none

theorem Defined.of_no_ids {pre : List Record} {r : Record} (hstrings : r.stringIds = []) (hlocations : r.locationIds = [])
    (hattributes : r.attributesIds = []) : Defined pre r := by
  refine ⟨?_, ?_, ?_⟩ <;> intro id hid
  · rw [hstrings] at hid; cases hid
  · rw [hlocations] at hid; cases hid
  · rw [hattributes] at hid; cases hid

/-- The stream has defined the strings and locations that are interned and `n` attributes, each before it is mentioned. -/
structure Matches (records : List Record) (d : Definitions) (n : Nat) : Prop where
  strings : records.filterMap Record.string? = numbers d.strings.entries.length
  locations : records.filterMap Record.location? = numbers d.locations.entries.length
  attributes : records.filterMap Record.attributes? = numbers n
  references : Always Defined records

namespace Matches

variable {records : List Record} {d : Definitions} {n : Nat}

theorem wellDefined (h : Matches records d n) : WellDefined records where
  strings := by rw [h.strings, length_numbers]
  locations := by rw [h.locations, length_numbers]
  attributes := by rw [h.attributes, length_numbers]
  references := h.references

theorem knowsString (h : Matches records d n) {id : Int} (hid : d.KnowsString id) :
    Int32.ofInt id = -1 ∨ Int32.ofInt id ∈ records.filterMap Record.string? := by
  rcases hid with rfl | ⟨s, hs⟩
  · exact .inl rfl
  · obtain ⟨i, rfl, hi⟩ := Interner.get?_lt hs
    rw [h.strings, Int32.ofInt_eq_ofNat]
    exact .inr (mem_numbers hi)

theorem knowsLocation (h : Matches records d n) {id : Int} (hid : d.KnowsLocation id) :
    Int32.ofInt id = -1 ∨ Int32.ofInt id ∈ records.filterMap Record.location? := by
  rcases hid with rfl | ⟨l, hl⟩
  · exact .inl rfl
  · obtain ⟨i, rfl, hi⟩ := Interner.get?_lt hl
    rw [h.locations, Int32.ofInt_eq_ofNat]
    exact .inr (mem_numbers hi)

/-- A record that mentions what is defined and defines nothing. -/
theorem plain (h : Matches records d n) {r : Record} (hr : r.Plain) (hdefined : Defined records r) :
    Matches (records ++ [r]) d n where
  strings := by rw [List.filterMap_append, List.filterMap_cons, hr.string, List.filterMap_nil, List.append_nil, h.strings]
  locations := by
    rw [List.filterMap_append, List.filterMap_cons, hr.location, List.filterMap_nil, List.append_nil, h.locations]
  attributes := by
    rw [List.filterMap_append, List.filterMap_cons, hr.attributes, List.filterMap_nil, List.append_nil, h.attributes]
  references := History.always_snoc.2 ⟨h.references, hdefined⟩

/-- Definitions that differ in nothing that has an id. -/
theorem congr {d' : Definitions} (h : Matches records d n) (hstrings : d'.strings = d.strings)
    (hlocations : d'.locations = d.locations) : Matches records d' n := by
  refine ⟨?_, ?_, h.attributes, h.references⟩
  · rw [hstrings, h.strings]
  · rw [hlocations, h.locations]

theorem nextString (h : Matches records d n) {s : QByteArray} {strings : Interner (id : QByteArray → QByteArray)}
    (hstrings : strings.entries.length = d.strings.entries.length + 1) {output : List Definition} :
    Matches (records ++ [.definition (.string d.strings.entries.length s)])
      { d with strings := strings, output := output } n where
  strings := by
    rw [List.filterMap_append, h.strings, hstrings, numbers_succ, ← Int32.ofInt_eq_ofNat]
    rfl
  locations := by rw [List.filterMap_append, h.locations]; exact List.append_nil _
  attributes := by rw [List.filterMap_append, h.attributes]; exact List.append_nil _
  references := History.always_snoc.2 ⟨h.references, ⟨by simp [Record.stringIds], by simp [Record.locationIds],
    by simp [Record.attributesIds]⟩⟩

theorem nextLocation (h : Matches records d n) {l : Location} (hl : d.LocationKnown l)
    {locations : Interner Location.key} (hlocations : locations.entries.length = d.locations.entries.length + 1)
    {output : List Definition} :
    Matches (records ++ [.definition (.location d.locations.entries.length l)])
      { d with locations := locations, output := output } n where
  strings := by rw [List.filterMap_append, h.strings]; exact List.append_nil _
  locations := by
    rw [List.filterMap_append, h.locations, hlocations, numbers_succ, ← Int32.ofInt_eq_ofNat]
    rfl
  attributes := by rw [List.filterMap_append, h.attributes]; exact List.append_nil _
  references := History.always_snoc.2 ⟨h.references, ⟨by simpa [Record.stringIds] using h.knowsString hl.file,
    by simpa [Record.locationIds] using h.knowsLocation hl.parent, by simp [Record.attributesIds]⟩⟩

/-! Each record that a lookup sends. -/

/-- The stream goes on with what is sent. -/
def Continues (records : List Record) (d d' : Definitions) (n : Nat) : Prop :=
  ∃ new, d'.output = d.output ++ new ∧ Matches (records ++ new.map Record.definition) d' n

theorem resolveString (h : Matches records d n) (s : QByteArray) : Continues records d (d.resolveString s).2 n := by
  unfold Definitions.resolveString
  split
  · exact ⟨[], (List.append_nil _).symm, by simpa using h⟩
  · cases hlookup : d.strings.lookup s with
    | some i =>
      rw [Interner.resolve_of_some hlookup]
      exact ⟨[], (List.append_nil _).symm, by simpa using h⟩
    | none =>
      rw [Interner.resolve_of_none hlookup]
      exact ⟨[.string d.strings.entries.length s], rfl, h.nextString (List.length_append ..)⟩

theorem resolveLocation (h : Matches records d n) {l : Location} (hl : d.LocationKnown l) :
    Continues records d (d.resolveLocation l).2 n := by
  unfold Definitions.resolveLocation
  cases hlookup : d.locations.lookup l with
  | some i =>
    rw [Interner.resolve_of_some hlookup]
    exact ⟨[], (List.append_nil _).symm, by simpa using h⟩
  | none =>
    rw [Interner.resolve_of_none hlookup]
    exact ⟨[.location d.locations.entries.length l], rfl, h.nextLocation hl (List.length_append ..)⟩

theorem resolveSymbol (h : Matches records d n) {id : Int} {symbol : Symbol} (owner : d.KnowsLocation id)
    (known : d.SymbolKnown symbol) : Continues records d (d.resolveSymbol id symbol) n := by
  refine ⟨[.symbol id symbol], rfl, ?_⟩
  have hplain : Matches (records ++ [.definition (.symbol id symbol)]) d n := by
    refine h.plain ⟨rfl, rfl, rfl⟩ ⟨fun i hi => ?_, fun i hi => ?_, fun i hi => ?_⟩
    · simp only [Record.stringIds, List.map_cons, List.map_nil, List.mem_cons, List.not_mem_nil, or_false] at hi
      rcases hi with rfl | rfl | rfl | rfl
      · exact h.knowsString known.name
      · exact h.knowsString known.binary
      · exact h.knowsString known.path
      · exact h.knowsString known.actualPath
    · rw [List.mem_singleton.1 hi]
      exact h.knowsLocation owner
    · cases hi
  exact hplain.congr rfl rfl

theorem progress (h : Matches records d n) {module url : Int} (hmodule : d.KnowsString module)
    (hurl : d.KnowsString url) (numerator denominator : Int64) :
    Continues records d (d.sendDebugInfoDownloadProgress module url numerator denominator) n := by
  refine ⟨[.debugInfoDownloadProgress module url numerator denominator], rfl, ?_⟩
  have hplain : Matches (records ++ [.definition (.debugInfoDownloadProgress module url numerator denominator)]) d n := by
    refine h.plain ⟨rfl, rfl, rfl⟩ ⟨fun i hi => ?_, fun i hi => ?_, fun i hi => ?_⟩
    · simp only [Record.stringIds, List.mem_cons, List.not_mem_nil, or_false] at hi
      rcases hi with rfl | rfl
      · exact h.knowsString hmodule
      · exact h.knowsString hurl
    · cases hi
    · cases hi
  exact hplain.congr rfl rfl

theorem Continues.trans {d' d'' : Definitions} (h : Continues records d d' n)
    (h' : ∀ {records}, Matches records d' n → Continues records d' d'' n) : Continues records d d'' n := by
  obtain ⟨new, hnew, hmatches⟩ := h
  obtain ⟨new', hnew', hmatches'⟩ := h' hmatches
  refine ⟨new ++ new', by rw [hnew', hnew, List.append_assoc], ?_⟩
  rwa [List.map_append, ← List.append_assoc]

/-- **What a lookup sends continues the stream.** -/
theorem sends (h : Matches records d n) {d' : Definitions} (hsends : d.Sends d') : Continues records d d' n := by
  induction hsends with
  | refl => exact ⟨[], (List.append_nil _).symm, by simpa using h⟩
  | string _ s ih => exact ih.trans (fun h => h.resolveString s)
  | location _ known ih => exact ih.trans (fun h => h.resolveLocation known)
  | symbol _ owner known ih => exact ih.trans (fun h => h.resolveSymbol owner known)
  | progress _ hmodule hurl numerator denominator ih =>
    exact ih.trans (fun h => h.progress hmodule hurl numerator denominator)

end Matches

/-! ## The output -/

namespace Output

variable {H : Host} {o : Output} {n : Nat} {r : Registry}

/-- The stream matches the definitions of the tables, and the caches hold what has been sent. -/
structure Sound (o : Output) (n : Nat) : Prop where
  stream : Matches o.records o.tables.resolver.toDefinitions n
  known : o.tables.Known []

theorem records_update (o : Output) (tables : SymbolTables) : o.records <+: (o.update tables).records :=
  List.prefix_append _ _

/-- **Tables that a call leads to** continue the stream. -/
theorem Sound.update (h : o.Sound n) {tables : SymbolTables} {frames : List Int}
    (hleads : o.tables.Leads [] tables frames) : (o.update tables).Sound n ∧ tables.Known frames := by
  have hknown := hleads.known h.known
  obtain ⟨new, hnew, hmatches⟩ := h.stream.sends hleads.sends
  refine ⟨⟨?_, ⟨hknown.entries, hknown.invalid, fun id hid => by cases hid⟩⟩, hknown⟩
  show Matches (o.records ++ (tables.resolver.output.drop o.tables.resolver.output.length).map _) _ n
  rw [hnew, List.drop_left]
  exact hmatches

theorem Sound.sendBuffer (h : o.Sound n) {record : Record} (hplain : record.Plain) (hdefined : Defined o.records record) :
    (o.sendBuffer record).Sound n := ⟨h.stream.plain hplain hdefined, h.known⟩

/-- The id of a string that has been sent. -/
def KnowsString (o : Output) (id : Int32) : Prop := id = -1 ∨ id ∈ o.records.filterMap Record.string?

theorem KnowsString.mono {o' : Output} {id : Int32} (h : o.KnowsString id) (hgrows : o.records <+: o'.records) :
    o'.KnowsString id := h.imp_right (fun hid => (hgrows.filterMap _).subset hid)

/-- **A string that is resolved is known.** -/
theorem Sound.resolveString (h : o.Sound n) (string : QByteArray) :
    (o.resolveString string).1.Sound n ∧ (o.resolveString string).1.KnowsString (o.resolveString string).2 ∧
      o.records <+: (o.resolveString string).1.records := by
  have hsound := (h.update (SymbolTables.leads_resolveString o.tables string [])).1
  exact ⟨hsound, hsound.stream.knowsString (Definitions.knowsString_resolveString _ string), o.records_update _⟩

/-- The ids of the attributes are those of their definitions. -/
def KnowsAttributes (r : Registry) (n : Nat) : Prop :=
  ∀ id internalId, r.attributeIds.find id = some internalId → ∃ i < n, internalId = Int32.ofNat i

theorem KnowsAttributes.attributesId (h : KnowsAttributes r n) (hsound : o.Sound n) (id : UInt64) :
    r.attributesId id = -1 ∨ r.attributesId id ∈ o.records.filterMap Record.attributes? := by
  unfold Registry.attributesId
  cases hid : r.attributeIds.find id with
  | none => exact .inl rfl
  | some internalId =>
    obtain ⟨i, hi, rfl⟩ := h id internalId hid
    rw [hsound.stream.attributes]
    exact .inr (mem_numbers hi)

theorem lookupString_known (h : o.Sound n) (string : QByteArray) :
    o.KnowsString (o.tables.resolver.lookupString string) := by
  unfold Definitions.lookupString
  cases hlookup : o.tables.resolver.strings.lookup string with
  | none => exact .inl rfl
  | some i =>
    obtain ⟨s, hs, -⟩ := Interner.get?_of_lookup hlookup
    have := h.stream.knowsString (.inr ⟨s, hs⟩)
    rwa [Int32.ofInt_eq_ofNat] at this

/-! ## The calls -/

/-- The task event mentions what has been sent. -/
def KnowsTask (o : Output) (e : TaskEvent) : Prop := ∀ id ∈ (Record.taskEvent e).stringIds, o.KnowsString id

theorem KnowsTask.mono {o' : Output} {e : TaskEvent} (h : o.KnowsTask e) (hgrows : o.records <+: o'.records) :
    o'.KnowsTask e := fun id hid => (h id hid).mono hgrows

theorem sampleRecord_plain (d : Definitions) (sample : PerfRecordSample) (info : UnwindInfo) :
    (r.sampleRecord d sample info).Plain := by
  unfold Registry.sampleRecord
  dsimp only
  split <;> exact ⟨rfl, rfl, rfl⟩

/-- The fields of a trace point sample are under the ids of strings that have been sent. -/
theorem traceData_known (h : o.Sound n) (fields : List FormatField) : ∀ id ∈ ((fields.foldl
    (fun traceData field => QHash.insert traceData (o.tables.resolver.lookupString field.name) field) []).entries).map
      Prod.fst, o.KnowsString id := by
  have hentries : ∀ (traceData : QHash Int32 FormatField) p, p ∈ traceData.entries → p ∈ traceData := by
    intro traceData
    induction traceData with
    | nil => exact fun _ hp => by cases hp
    | cons q traceData ih =>
      intro p hp
      rcases List.mem_cons.1 hp with rfl | hp
      · exact List.mem_cons_self
      · exact List.mem_cons_of_mem _ (ih p (List.mem_of_mem_filter hp))
  have hfold : ∀ (fields : List FormatField) (traceData : QHash Int32 FormatField),
      (∀ p ∈ traceData, o.KnowsString p.1) → ∀ p ∈ fields.foldl (fun traceData field =>
        QHash.insert traceData (o.tables.resolver.lookupString field.name) field) traceData, o.KnowsString p.1 := by
    intro fields
    induction fields with
    | nil => exact fun _ hknown => hknown
    | cons field fields ih =>
      intro traceData hknown
      refine ih _ (fun p hp => ?_)
      rcases List.mem_cons.1 hp with rfl | hp
      · exact lookupString_known h field.name
      · exact hknown p hp
  intro id hid
  obtain ⟨p, hp, rfl⟩ := List.mem_map.1 hid
  exact hfold fields [] (fun _ hp => by cases hp) p (hentries _ p hp)

theorem sampleValues_known (h : o.Sound n) (hr : KnowsAttributes r n) (sample : PerfRecordSample) :
    ∀ id ∈ (r.sampleValues sample).map Prod.fst, id = -1 ∨ id ∈ o.records.filterMap Record.attributes? := by
  unfold Registry.sampleValues
  intro id hid
  split at hid
  · rw [List.mem_singleton.1 hid]
    exact hr.attributesId h _
  · rw [List.map_map] at hid
    obtain ⟨f, -, rfl⟩ := List.mem_map.1 hid
    exact hr.attributesId h _

/-- **The record of a sample mentions what has been sent.** -/
theorem sampleRecord_defined (h : o.Sound n) (hr : KnowsAttributes r n) (sample : PerfRecordSample) {info : UnwindInfo}
    (hframes : o.tables.Known info.frames) :
    Defined o.records (r.sampleRecord o.tables.resolver.toDefinitions sample info) := by
  have hlocations : ∀ id ∈ info.frames.map Int32.ofInt, id = -1 ∨ id ∈ o.records.filterMap Record.location? := by
    intro id hid
    obtain ⟨frame, hframe, rfl⟩ := List.mem_map.1 hid
    exact h.stream.knowsLocation (hframes.frames frame hframe)
  have hvalues := sampleValues_known h hr sample
  unfold Registry.sampleRecord
  dsimp only
  split
  · exact ⟨traceData_known h _, hlocations, hvalues⟩
  · exact ⟨fun _ hid => absurd hid List.not_mem_nil, hlocations, hvalues⟩

theorem Sound.analyze (h : o.Sound n) (hr : KnowsAttributes r n) (sample : PerfRecordSample) :
    (o.analyze H r sample).Sound n ∧ o.records <+: (o.analyze H r sample).records := by
  obtain ⟨hsound, hframes⟩ := h.update (SymbolTables.analyze_leads H sample o.tables)
  unfold Output.analyze
  generalize o.tables.analyze H sample = result at hsound hframes ⊢
  obtain ⟨tables, info⟩ := result
  exact ⟨hsound.sendBuffer (sampleRecord_plain _ sample info) (sampleRecord_defined hsound hr sample hframes),
    (o.records_update tables).trans (List.prefix_append _ _)⟩

/-- **The calls of a flush** keep the stream in order. -/
theorem Sound.exec {tasks : List TaskEvent} (h : o.Sound n) (hr : KnowsAttributes r n)
    (htasks : ∀ e ∈ tasks, o.KnowsTask e) {x : Call} (hx : x.Flushed tasks) :
    (o.exec H r x).Sound n ∧ o.records <+: (o.exec H r x).records := by
  cases x with
  | registerElf mmap buildId =>
    exact ⟨(h.update (SymbolTables.leads_registerElf H o.tables mmap buildId [])).1, o.records_update _⟩
  | initAfterFork fork parentPid =>
    exact ⟨(h.update (SymbolTables.leads_initAfterFork o.tables fork.pid parentPid [])).1, o.records_update _⟩
  | dropSymbolTable exit =>
    exact ⟨(h.update (SymbolTables.leads_dropSymbolTable o.tables exit.pid [])).1, o.records_update _⟩
  | sendTaskEvent e =>
    have hdefined : Defined o.records (.taskEvent e) :=
      ⟨htasks e hx, fun _ hid => absurd hid List.not_mem_nil, fun _ hid => absurd hid List.not_mem_nil⟩
    exact ⟨h.sendBuffer ⟨rfl, rfl, rfl⟩ hdefined, List.prefix_append _ _⟩
  | analyze sample => exact h.analyze hr sample
  | sendTimeOrderViolation mmapTime lastFlushMaxTime =>
    have hdefined : Defined o.records (.timeOrderViolation mmapTime lastFlushMaxTime) := .of_no_ids rfl rfl rfl
    exact ⟨h.sendBuffer ⟨rfl, rfl, rfl⟩ hdefined, List.prefix_append _ _⟩
  | sendAttributes id attributes name => cases hx
  | sendEventFormat id format => cases hx
  | sendFeatures features => cases hx

theorem Sound.sendAttributes (h : o.Sound n) (attributes : PerfEventAttributes) (name : QByteArray) :
    (o.sendAttributes (Int32.ofNat n) attributes name).Sound (n + 1) ∧
      o.records <+: (o.sendAttributes (Int32.ofNat n) attributes name).records := by
  obtain ⟨hsound, hname, hgrows⟩ := h.resolveString name
  unfold Output.sendAttributes
  generalize o.resolveString name = result at hsound hname hgrows ⊢
  obtain ⟨o', attrNameId⟩ := result
  dsimp only at hsound hname hgrows ⊢
  refine ⟨⟨⟨?_, ?_, ?_, ?_⟩, hsound.known⟩, hgrows.trans (List.prefix_append _ _)⟩
  · rw [Output.sendBuffer, List.filterMap_append, hsound.stream.strings]
    exact List.append_nil _
  · rw [Output.sendBuffer, List.filterMap_append, hsound.stream.locations]
    exact List.append_nil _
  · rw [Output.sendBuffer, List.filterMap_append, hsound.stream.attributes, numbers_succ]
    rfl
  · refine History.always_snoc.2 ⟨hsound.stream.references, ⟨fun id hid => ?_,
      fun _ hid => absurd hid List.not_mem_nil, fun _ hid => absurd hid List.not_mem_nil⟩⟩
    rw [List.mem_singleton.1 hid]
    exact hname

theorem Sound.resolveNames (h : o.Sound n) (fields : List FormatField) :
    (fields.foldl (fun o field => (Output.resolveString o field.name).1) o).Sound n ∧
      o.records <+: (fields.foldl (fun o field => (Output.resolveString o field.name).1) o).records := by
  induction fields generalizing o with
  | nil => exact ⟨h, List.prefix_refl _⟩
  | cons field fields ih =>
    obtain ⟨hsound, -, hgrows⟩ := h.resolveString field.name
    obtain ⟨hsound', hgrows'⟩ := ih hsound
    exact ⟨hsound', hgrows.trans hgrows'⟩

theorem Sound.sendEventFormat (h : o.Sound n) (id : Int32) (format : EventFormat) :
    (o.sendEventFormat id format).Sound n ∧ o.records <+: (o.sendEventFormat id format).records := by
  obtain ⟨hsystem, hsystemId, hgrows⟩ := h.resolveString format.system
  unfold Output.sendEventFormat
  generalize o.resolveString format.system = result at hsystem hsystemId hgrows ⊢
  obtain ⟨o₁, systemId⟩ := result
  obtain ⟨hname, hnameId, hgrows'⟩ := hsystem.resolveString format.name
  dsimp only at hgrows hsystemId ⊢
  generalize o₁.resolveString format.name = result at hname hnameId hgrows' ⊢
  obtain ⟨o₂, nameId⟩ := result
  dsimp only at hname hnameId hgrows' ⊢
  obtain ⟨hsound, hgrows''⟩ := hname.resolveNames (format.commonFields ++ format.fields)
  generalize List.foldl _ o₂ _ = o₃ at hsound hgrows'' ⊢
  have hdefined : Defined o₃.records (.tracePointFormat id systemId nameId format.flags) := by
    refine ⟨fun i hi => ?_, fun _ hi => absurd hi List.not_mem_nil, fun _ hi => absurd hi List.not_mem_nil⟩
    simp only [Record.stringIds, List.mem_cons, List.not_mem_nil, or_false] at hi
    rcases hi with rfl | rfl
    · exact hsystemId.mono (hgrows'.trans hgrows'')
    · exact hnameId.mono hgrows''
  exact ⟨hsound.sendBuffer ⟨rfl, rfl, rfl⟩ hdefined,
    ((hgrows.trans hgrows').trans hgrows'').trans (List.prefix_append _ _)⟩

theorem Sound.sendFeatures (h : o.Sound n) (features : PerfFeatures) :
    (o.sendBuffer (.featuresDefinition features)).Sound n :=
  h.sendBuffer ⟨rfl, rfl, rfl⟩ (.of_no_ids rfl rfl rfl)

theorem KnowsAttributes.insertAll {n : Nat} {internalId : Int32} (hid : ∃ i < n, internalId = Int32.ofNat i) :
    ∀ (ids : List UInt64) {r : Registry}, KnowsAttributes r n → KnowsAttributes
      { r with attributeIds := ids.foldl (fun h id => h.insert id internalId) r.attributeIds } n
  | [], _, h => h
  | id :: ids, r, h => by
    refine KnowsAttributes.insertAll hid ids (r := { r with attributeIds := r.attributeIds.insert id internalId })
      (fun id' internalId' hfind => ?_)
    rw [QHash.find_insert] at hfind
    split at hfind
    · rw [← Option.some.inj hfind]
      exact hid
    · exact h id' internalId' hfind

end Output

/-! ## A run -/

namespace PerfUnwind

/-- **What holds between operations**: the stream is in order, and the buffer and the registry hold ids of the stream. -/
structure Announced (u : PerfUnwind Output) : Prop where
  stats : u.stats.enabled = false
  sound : u.back.Sound u.registry.attributes.length
  attributes : Output.KnowsAttributes u.registry u.registry.attributes.length
  tasks : ∀ e ∈ u.taskEventsBuffer, u.back.KnowsTask e

/-- A run.  The files and libdwfl may answer each operation in another way. -/
def runHosts (u : PerfUnwind Output) (ops : List (Host × Op)) : PerfUnwind Output :=
  ops.foldl (fun u op => u.apply (Output.backend op.1) op.2) u

namespace Announced

variable {H : Host} {u : PerfUnwind Output}

theorem of_core (h : u.Announced) {v : PerfUnwind Output} (hcore : v.core = u.core) (hregistry : v.registry = u.registry)
    (hstats : v.stats = u.stats) : v.Announced := by
  have hback : v.back = u.back := congrArg Core.back hcore
  have htasks : v.taskEventsBuffer = u.taskEventsBuffer := congrArg Core.tasks hcore
  refine ⟨?_, ?_, ?_, ?_⟩
  · rw [hstats]; exact h.stats
  · rw [hback, hregistry]; exact h.sound
  · rw [hregistry]; exact h.attributes
  · rw [hback, htasks]; exact h.tasks

theorem setMaxEventBufferSize (h : u.Announced) (size : UInt32) : (u.setMaxEventBufferSize size).Announced :=
  h.of_core (core_setMaxEventBufferSize u size) (registry_setMaxEventBufferSize u size)
    (setMaxEventBufferSize_keeps u size).1

theorem setTargetEventBufferSize (h : u.Announced) (size : UInt32) : (u.setTargetEventBufferSize size).Announced :=
  h.of_core (core_setTargetEventBufferSize u size) (registry_setTargetEventBufferSize u size)
    (setTargetEventBufferSize_keeps u size).1

theorem flushEventBuffer (h : u.Announced) (desired : UInt32) :
    (u.flushEventBuffer (Output.backend H) desired).Announced := by
  have hcalls : ∀ (o : Output) (x : Call), x.Flushed u.taskEventsBuffer →
      o.Sound u.registry.attributes.length ∧ (∀ e ∈ u.taskEventsBuffer, o.KnowsTask e) →
      (o.exec H u.registry x).Sound u.registry.attributes.length ∧
        ∀ e ∈ u.taskEventsBuffer, (o.exec H u.registry x).KnowsTask e := by
    rintro o x hx ⟨hsound, htasks⟩
    obtain ⟨hsound', hgrows⟩ := hsound.exec (H := H) h.attributes htasks hx
    exact ⟨hsound', fun e he => (htasks e he).mono hgrows⟩
  obtain ⟨⟨hsound, htasks⟩, hsub⟩ :=
    back_flushEventBuffer (B := Output.backend H) hcalls h.stats desired ⟨h.sound, h.tasks⟩
  have hregistry := registry_flushEventBuffer (B := Output.backend H) h.stats desired
  refine ⟨?_, ?_, ?_, fun e he => htasks e (hsub he)⟩
  · rw [(flushEventBuffer_keeps h.stats desired).1]
    exact h.stats
  · rw [hregistry]
    exact hsound
  · rw [hregistry]
    exact h.attributes

/-- A task event that is buffered mentions what has been sent. -/
theorem enqueue (h : u.Announced) {event : Event} (hevent : ∀ e, event = .task e → u.back.KnowsTask e) :
    (u.enqueue event).Announced := by
  obtain ⟨hstats, -, hcore⟩ := enqueue_of_stats h.stats event
  have hregistry : (u.enqueue event).registry = u.registry := by
    unfold PerfUnwind.enqueue
    cases event <;> simp [h.stats, append]
  have hback : (u.enqueue event).back = u.back := by
    rw [show (u.enqueue event).back = (u.enqueue event).core.back from rfl, hcore]
    cases event <;> rfl
  have htasks : (u.enqueue event).taskEventsBuffer = (u.core.arrive event).tasks := congrArg Core.tasks hcore
  refine ⟨by rw [hstats]; exact h.stats, ?_, ?_, fun e he => ?_⟩
  · rw [hback, hregistry]
    exact h.sound
  · rw [hregistry]
    exact h.attributes
  · rw [hback]
    rw [htasks, Core.arrive_tasks] at he
    cases event with
    | task e' =>
      rcases List.mem_append.1 he with he | he
      · exact h.tasks e he
      · rw [List.mem_singleton.1 he]
        exact hevent e' rfl
    | mmap m => exact h.tasks e he
    | sample s => exact h.tasks e he

theorem bufferEvent (h : u.Announced) {event : Event} (hevent : ∀ e, event = .task e → u.back.KnowsTask e) :
    (u.bufferEvent (Output.backend H) event).Announced := by
  unfold PerfUnwind.bufferEvent
  dsimp only
  split
  · exact (h.enqueue hevent).flushEventBuffer _
  · exact h.enqueue hevent

theorem bufferTask (h : u.Announced) {e : TaskEvent} (he : (Record.taskEvent e).stringIds = []) :
    (u.bufferEvent (Output.backend H) (.task e)).Announced := by
  refine h.bufferEvent (fun e' heq => ?_)
  cases heq
  intro id hid
  rw [he] at hid
  cases hid

/-- The command is sent before its task event is buffered. -/
theorem comm (h : u.Announced) (comm : PerfRecordComm) : (u.comm (Output.backend H) comm).Announced := by
  obtain ⟨hsound, hid, hgrows⟩ := h.sound.resolveString comm.comm
  have hresolved : (u.resolveString (Output.backend H) comm.comm).1.Announced :=
    ⟨h.stats, hsound, h.attributes, fun e he => (h.tasks e he).mono hgrows⟩
  refine hresolved.bufferEvent (fun e he id hmem => ?_)
  cases he
  rw [List.mem_singleton.1 hmem]
  exact hid

theorem finishedRound (h : u.Announced) : (u.finishedRound (Output.backend H)).Announced := by
  have hround : (if u.stats.enabled then { u with stats := u.stats.finishedRound } else u) = u := by
    rw [h.stats]
    rfl
  unfold PerfUnwind.finishedRound
  dsimp only
  rw [hround]
  split
  · exact h.flushEventBuffer _
  · split
    · exact h.setTargetEventBufferSize 0
    · exact h

theorem addAttributes (h : u.Announced) (attributes : PerfEventAttributes) (name : QByteArray) (ids : List UInt64) :
    (u.addAttributes (Output.backend H) attributes name ids).Announced := by
  have hrevert : (if attributes.type = PerfEventAttributes.TYPE_TRACEPOINT ∧ u.targetEventBufferSize = 0
      then u.revertTargetEventBufferSize else u).Announced := by
    split
    · exact h.setTargetEventBufferSize _
    · exact h
  unfold PerfUnwind.addAttributes
  dsimp only
  generalize (if attributes.type = PerfEventAttributes.TYPE_TRACEPOINT ∧ u.targetEventBufferSize = 0
    then u.revertTargetEventBufferSize else u) = v at hrevert ⊢
  split
  · exact hrevert
  · obtain ⟨hsound, hgrows⟩ := hrevert.sound.sendAttributes attributes name
    have hlength : (v.registry.attributes ++ [attributes]).length = v.registry.attributes.length + 1 :=
      List.length_append ..
    refine ⟨hrevert.stats, ?_, ?_, fun e he => (hrevert.tasks e he).mono hgrows⟩
    · rw [← hlength] at hsound
      exact hsound
    · have hknows : Output.KnowsAttributes v.registry (v.registry.attributes ++ [attributes]).length := by
        intro id internalId hfind
        obtain ⟨i, hi, heq⟩ := hrevert.attributes id internalId hfind
        exact ⟨i, by rw [hlength]; exact Nat.lt_succ_of_lt hi, heq⟩
      have hnew : ∃ i < (v.registry.attributes ++ [attributes]).length,
          Int32.ofNat v.registry.attributes.length = Int32.ofNat i :=
        ⟨_, by rw [hlength]; exact Nat.lt_succ_self _, rfl⟩
      exact Output.KnowsAttributes.insertAll hnew _ hknows

theorem tracing (h : u.Announced) (tracingData : PerfTracingData) :
    (u.tracing (Output.backend H) tracingData).Announced := by
  refine List.foldlRecOn tracingData.eventFormats.entries _ (motive := PerfUnwind.Announced) ?_ (fun v hv p _ => ?_)
  · exact ⟨h.stats, h.sound, h.attributes, h.tasks⟩
  · obtain ⟨hsound, hgrows⟩ := hv.sound.sendEventFormat p.1 p.2
    exact ⟨hv.stats, hsound, hv.attributes, fun e he => (hv.tasks e he).mono hgrows⟩

theorem features (h : u.Announced) (features : PerfFeatures) : (u.features (Output.backend H) features).Announced := by
  have hattributes : (features.eventDescs.foldl
      (fun u desc => u.addAttributes (Output.backend H) desc.attrs desc.name desc.ids)
      (u.tracing (Output.backend H) features.tracingData)).Announced :=
    List.foldlRecOn features.eventDescs _ (h.tracing features.tracingData)
      (fun v hv desc _ => hv.addAttributes desc.attrs desc.name desc.ids)
  unfold PerfUnwind.features
  dsimp only
  generalize features.eventDescs.foldl _ _ = v at hattributes ⊢
  have hversion : (v.checkVersion features.version).Announced := by
    unfold checkVersion
    split
    · exact hattributes.setTargetEventBufferSize 0
    · exact hattributes
  exact ⟨hversion.stats, hversion.sound.sendFeatures features, hversion.attributes,
    fun e he => (hversion.tasks e he).mono (List.prefix_append _ _)⟩

/-- **An operation** keeps the stream in order. -/
theorem apply (h : u.Announced) (op : Op) : (u.apply (Output.backend H) op).Announced := by
  cases op with
  | registerElf mmap => exact h.bufferEvent (fun e he => by cases he)
  | comm comm => exact h.comm comm
  | lost lost => exact h.bufferTask rfl
  | sample sample => exact h.bufferEvent (fun e he => by cases he)
  | fork fork => exact h.bufferTask rfl
  | exit exit => exact h.bufferTask rfl
  | contextSwitch contextSwitch => exact h.bufferTask rfl
  | finishedRound => exact h.finishedRound
  | attr attr => exact h.addAttributes attr.attr attr.attr.name attr.ids
  | features features => exact h.features features
  | tracing tracingData => exact h.tracing tracingData
  | setMaxEventBufferSize size => exact h.setMaxEventBufferSize size
  | setTargetEventBufferSize size => exact h.setTargetEventBufferSize size
  | finalize => exact h.finishedRound.flushEventBuffer 0

/-- **A run** keeps it. -/
theorem runHosts : ∀ (ops : List (Host × Op)) {u : PerfUnwind Output}, u.Announced → (u.runHosts ops).Announced
  | [], _, h => h
  | (_, op) :: ops, _, h => runHosts ops (h.apply op)

theorem create (lastSize maxSize targetSize : UInt32) :
    (PerfUnwind.create ({} : Output) lastSize maxSize targetSize).Announced := by
  refine ⟨rfl, ⟨⟨rfl, rfl, rfl, History.always_nil⟩, ⟨?_, ?_, fun _ hid => by cases hid⟩⟩, ?_, fun _ he => by cases he⟩
  · exact fun path relAddr entry h => by cases h
  · exact fun pid ip entry h => by cases h
  · exact fun id internalId h => by cases h

end Announced

/-- **The receiver knows every id**: whatever the files and libdwfl answer, each operation of a run leaves a stream that
numbers its strings, locations and attributes in order and mentions none before its definition. -/
theorem run_wellDefined (lastSize maxSize targetSize : UInt32) (ops : List (Host × Op)) :
    WellDefined ((create ({} : Output) lastSize maxSize targetSize).runHosts ops).back.records :=
  ((Announced.create lastSize maxSize targetSize).runHosts ops).sound.stream.wellDefined

end PerfUnwind

end PerfParser
