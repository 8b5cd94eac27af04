import PerfParser.ClientTables
/-!
# ClientRuns — the client of a run

What the calls of the unwinder keep, a run keeps (`Keeps.runHosts`).  So the records of a run define what is in its tables,
in their order, and the client that accepts them has the same tables (`run_mirrored`).
-/
namespace PerfParser

open History (Always)
open Definitions (Sends)

/-! ## What all calls keep -/

/-- A call that defines no attributes. -/
def Call.DefinesNone : Call → Prop
  | sendAttributes .. => False
  | _ => True

theorem Call.Flushed.definesNone {tasks : List TaskEvent} : ∀ {x : Call}, x.Flushed tasks → x.DefinesNone
  | registerElf .., _ | initAfterFork .., _ | dropSymbolTable .., _ | sendTaskEvent .., _ | analyze .., _
  | sendTimeOrderViolation .., _ => trivial

/-- What holds of the back end and the attributes, whatever the unwinder calls. -/
structure Kept {σ : Type} (B : Backend σ) (P : List PerfEventAttributes → σ → Prop) : Prop where
  string : ∀ attributes b s, P attributes b → P attributes (B.resolveString b s).1
  call : ∀ r attributes b x, x.DefinesNone → P attributes b → P attributes (B.exec r b x)
  attributes : ∀ r attributes b new name, P attributes b →
    P (attributes ++ [new]) (B.exec r b (.sendAttributes (Int32.ofNat attributes.length) new name))

namespace PerfUnwind

section

variable {σ : Type} {B : Backend σ} {P : List PerfEventAttributes → σ → Prop}

/-- The back end keeps what it should, while there are no statistics. -/
structure Keeps (P : List PerfEventAttributes → σ → Prop) (u : PerfUnwind σ) : Prop where
  stats : u.stats.enabled = false
  back : P u.registry.attributes u.back

variable {u : PerfUnwind σ}

theorem Keeps.of_core (h : u.Keeps P) {v : PerfUnwind σ} (hcore : v.core = u.core) (hregistry : v.registry = u.registry)
    (hstats : v.stats = u.stats) : v.Keeps P := by
  have hback : v.back = u.back := congrArg Core.back hcore
  exact ⟨by rw [hstats]; exact h.stats, by rw [hback, hregistry]; exact h.back⟩

theorem Keeps.setMaxEventBufferSize (h : u.Keeps P) (size : UInt32) : (u.setMaxEventBufferSize size).Keeps P :=
  h.of_core (core_setMaxEventBufferSize u size) (registry_setMaxEventBufferSize u size)
    (setMaxEventBufferSize_keeps u size).1

theorem Keeps.setTargetEventBufferSize (h : u.Keeps P) (size : UInt32) : (u.setTargetEventBufferSize size).Keeps P :=
  h.of_core (core_setTargetEventBufferSize u size) (registry_setTargetEventBufferSize u size)
    (setTargetEventBufferSize_keeps u size).1

theorem Keeps.enqueue (h : u.Keeps P) (event : Event) : (u.enqueue event).Keeps P := by
  obtain ⟨hstats, -, hcore⟩ := enqueue_of_stats h.stats event
  have hregistry : (u.enqueue event).registry = u.registry := by
    unfold PerfUnwind.enqueue
    cases event <;> simp [h.stats, append]
  have hback : (u.enqueue event).back = u.back := by
    rw [show (u.enqueue event).back = (u.enqueue event).core.back from rfl, hcore]
    cases event <;> rfl
  exact ⟨by rw [hstats]; exact h.stats, by rw [hback, hregistry]; exact h.back⟩

variable (hB : Kept B P)

include hB

theorem Keeps.flushEventBuffer (h : u.Keeps P) (desired : UInt32) : (u.flushEventBuffer B desired).Keeps P := by
  have hback := (back_flushEventBuffer (B := B) (P := P u.registry.attributes)
    (fun b x hx => hB.call u.registry _ b x hx.definesNone) h.stats desired h.back).1
  refine ⟨?_, ?_⟩
  · rw [(flushEventBuffer_keeps h.stats desired).1]
    exact h.stats
  · rw [registry_flushEventBuffer h.stats desired]
    exact hback

theorem Keeps.bufferEvent (h : u.Keeps P) (event : Event) : (u.bufferEvent B event).Keeps P := by
  unfold PerfUnwind.bufferEvent
  dsimp only
  split
  · exact (h.enqueue event).flushEventBuffer hB _
  · exact h.enqueue event

theorem Keeps.finishedRound (h : u.Keeps P) : (u.finishedRound B).Keeps P := by
  have hround : (if u.stats.enabled then { u with stats := u.stats.finishedRound } else u) = u := by
    rw [h.stats]
    rfl
  unfold PerfUnwind.finishedRound
  dsimp only
  rw [hround]
  split
  · exact h.flushEventBuffer hB _
  · split
    · exact h.setTargetEventBufferSize 0
    · exact h

theorem Keeps.addAttributes (h : u.Keeps P) (attributes : PerfEventAttributes) (name : QByteArray) (ids : List UInt64) :
    (u.addAttributes B attributes name ids).Keeps P := by
  have hrevert : (if attributes.type = PerfEventAttributes.TYPE_TRACEPOINT ∧ u.targetEventBufferSize = 0
      then u.revertTargetEventBufferSize else u).Keeps P := by
    split
    · exact h.setTargetEventBufferSize _
    · exact h
  unfold PerfUnwind.addAttributes
  dsimp only
  generalize (if attributes.type = PerfEventAttributes.TYPE_TRACEPOINT ∧ u.targetEventBufferSize = 0
    then u.revertTargetEventBufferSize else u) = v at hrevert ⊢
  split
  · exact hrevert
  · exact ⟨hrevert.stats, hB.attributes _ _ _ attributes name hrevert.back⟩

theorem Keeps.tracing (h : u.Keeps P) (tracingData : PerfTracingData) : (u.tracing B tracingData).Keeps P :=
  List.foldlRecOn tracingData.eventFormats.entries _ (motive := PerfUnwind.Keeps P) ⟨h.stats, h.back⟩
    (fun _ hv _ _ => ⟨hv.stats, hB.call _ _ _ _ trivial hv.back⟩)

theorem Keeps.features (h : u.Keeps P) (features : PerfFeatures) : (u.features B features).Keeps P := by
  have hattributes : (features.eventDescs.foldl (fun u desc => u.addAttributes B desc.attrs desc.name desc.ids)
      (u.tracing B features.tracingData)).Keeps P :=
    List.foldlRecOn features.eventDescs _ (h.tracing hB features.tracingData)
      (fun _ hv desc _ => hv.addAttributes hB desc.attrs desc.name desc.ids)
  unfold PerfUnwind.features
  dsimp only
  generalize features.eventDescs.foldl _ _ = v at hattributes ⊢
  have hversion : (v.checkVersion features.version).Keeps P := by
    unfold checkVersion
    split
    · exact hattributes.setTargetEventBufferSize 0
    · exact hattributes
  exact ⟨hversion.stats, hB.call _ _ _ (.sendFeatures features) trivial hversion.back⟩

/-- **An operation** keeps what its calls keep. -/
theorem Keeps.apply (h : u.Keeps P) (op : Op) : (u.apply B op).Keeps P := by
  cases op with
  | comm comm =>
    have hresolved : (u.resolveString B comm.comm).1.Keeps P := ⟨h.stats, hB.string _ _ comm.comm h.back⟩
    exact hresolved.bufferEvent hB _
  | finishedRound => exact h.finishedRound hB
  | attr attr => exact h.addAttributes hB attr.attr attr.attr.name attr.ids
  | features features => exact h.features hB features
  | tracing tracingData => exact h.tracing hB tracingData
  | setMaxEventBufferSize size => exact h.setMaxEventBufferSize size
  | setTargetEventBufferSize size => exact h.setTargetEventBufferSize size
  | finalize => exact (h.finishedRound hB).flushEventBuffer hB 0
  | _ => exact h.bufferEvent hB _

end

/-- **What all calls keep, a run keeps.** -/
theorem Keeps.runHosts {P : List PerfEventAttributes → Output → Prop} (hB : ∀ H, Kept (Output.backend H) P) :
    ∀ (ops : List (Host × Op)) {u : PerfUnwind Output}, u.Keeps P → (u.runHosts ops).Keeps P
  | [], _, h => h
  | (H, op) :: ops, _, h => runHosts hB ops (h.apply (hB H) op)

end PerfUnwind

/-! ## What has been sent is what is in the tables -/

namespace Definition

def string? : Definition → Option QByteArray
  | .string _ s => some s
  | _ => none

def location? : Definition → Option Location
  | .location _ l => some l
  | _ => none

def symbol? : Definition → Option (Int × Symbol)
  | .symbol id s => some (id, s)
  | _ => none

end Definition

theorem filterMap_snoc {α β : Type} (f : α → Option β) (l : List α) (a : α) :
    (l ++ [a]).filterMap f = l.filterMap f ++ (f a).toList := by
  rw [List.filterMap_append]
  cases h : f a with
  | none => rw [List.filterMap_cons_none h]; rfl
  | some b => rw [List.filterMap_cons_some h]; rfl

/-- The definitions that were sent make up the tables. -/
structure Replayed (d : Definitions) : Prop where
  strings : d.output.filterMap Definition.string? = d.strings.entries
  nonempty : ∀ s ∈ d.strings.entries, s ≠ []
  locations : d.output.filterMap Definition.location? = d.locations.entries
  symbols : QHash.insertAll (d.output.filterMap Definition.symbol?) = d.symbols
  owners : ∀ p ∈ d.output.filterMap Definition.symbol?, d.KnowsLocation p.1

namespace Replayed

variable {d : Definitions}

theorem empty : Replayed {} :=
  ⟨rfl, fun _ hs => absurd hs List.not_mem_nil, rfl, rfl, fun _ hp => absurd hp List.not_mem_nil⟩

/-- One definition more, in the tables as in what was sent. -/
theorem next (h : Replayed d) {d' : Definitions} {x : Definition} (houtput : d'.output = d.output ++ [x])
    (hstrings : d'.strings.entries = d.strings.entries ++ x.string?.toList) (hx : ∀ s, x.string? = some s → s ≠ [])
    (hlocations : d'.locations.entries = d.locations.entries ++ x.location?.toList)
    (hsymbols : d'.symbols = x.symbol?.toList.foldl (fun symbols p => symbols.insert p.1 p.2) d.symbols)
    (hknows : ∀ {id}, d.KnowsLocation id → d'.KnowsLocation id)
    (howner : ∀ p, x.symbol? = some p → d.KnowsLocation p.1) : Replayed d' where
  strings := by rw [houtput, filterMap_snoc, h.strings, hstrings]
  nonempty := fun s hs => by
    rw [hstrings] at hs
    exact (List.mem_append.1 hs).elim (h.nonempty s) fun hs => hx s (Option.mem_toList.1 hs)
  locations := by rw [houtput, filterMap_snoc, h.locations, hlocations]
  symbols := by rw [houtput, filterMap_snoc, hsymbols, ← h.symbols]; exact List.foldl_append ..
  owners := fun p hp => by
    rw [houtput, filterMap_snoc] at hp
    exact hknows ((List.mem_append.1 hp).elim (h.owners p) fun hp => howner p (Option.mem_toList.1 hp))

theorem string (h : Replayed d) (s : QByteArray) : Replayed (d.resolveString s).2 := by
  unfold Definitions.resolveString
  split
  · exact h
  · rename_i hempty
    cases hlookup : d.strings.lookup s with
    | some i =>
      rw [Interner.resolve_of_some hlookup]
      exact h
    | none =>
      rw [Interner.resolve_of_none hlookup]
      refine h.next (x := .string d.strings.entries.length s) rfl rfl (fun t ht => ?_) (List.append_nil _).symm rfl id
        fun p hp => by cases hp
      rw [← Option.some.inj ht]
      exact fun hs => hempty (List.isEmpty_iff.2 hs)

theorem location (h : Replayed d) (l : Location) : Replayed (d.resolveLocation l).2 := by
  have hknows : ∀ {id}, d.KnowsLocation id → (d.resolveLocation l).2.KnowsLocation id := fun hid =>
    hid.imp_right fun ⟨l', hl'⟩ => ⟨l', (Interner.le_resolve d.locations l).get? hl'⟩
  unfold Definitions.resolveLocation at hknows ⊢
  cases hlookup : d.locations.lookup l with
  | some i =>
    rw [Interner.resolve_of_some hlookup]
    exact h
  | none =>
    rw [Interner.resolve_of_none hlookup] at hknows ⊢
    exact h.next (x := .location d.locations.entries.length l) rfl (List.append_nil _).symm (fun _ hs => by cases hs)
      rfl rfl hknows fun p hp => by cases hp

theorem symbol (h : Replayed d) {id : Int} (hid : d.KnowsLocation id) (symbol : Symbol) :
    Replayed (d.resolveSymbol id symbol) :=
  h.next (x := .symbol id symbol) rfl (List.append_nil _).symm (fun _ hs => by cases hs) (List.append_nil _).symm rfl
    (fun hknows => hknows) fun p hp => by rw [← Option.some.inj hp]; exact hid

theorem progress (h : Replayed d) (module url : Int) (numerator denominator : Int64) :
    Replayed (d.sendDebugInfoDownloadProgress module url numerator denominator) :=
  h.next (x := .debugInfoDownloadProgress module url numerator denominator) rfl (List.append_nil _).symm
    (fun _ hs => by cases hs) (List.append_nil _).symm rfl (fun hknows => hknows) fun p hp => by cases hp

/-- **Lookups keep the tables and what they have sent the same.** -/
theorem sends (h : Replayed d) {d' : Definitions} (hsends : d.Sends d') : Replayed d' := by
  induction hsends with
  | refl => exact h
  | string _ s ih => exact ih.string s
  | location _ _ ih => exact ih.location _
  | symbol _ owner _ ih => exact ih.symbol owner _
  | progress _ _ _ numerator denominator ih => exact ih.progress _ _ numerator denominator

end Replayed

theorem Definitions.Sends.output_prefix {d d' : Definitions} (h : d.Sends d') : d.output <+: d'.output := by
  induction h with
  | refl => exact List.prefix_refl _
  | @string d' _ s ih =>
    refine ih.trans ?_
    unfold Definitions.resolveString
    split
    · exact List.prefix_refl _
    · dsimp only
      split
      · exact List.prefix_refl _
      · exact List.prefix_append _ _
  | @location d' _ l _ ih =>
    refine ih.trans ?_
    unfold Definitions.resolveLocation
    dsimp only
    split
    · exact List.prefix_refl _
    · exact List.prefix_append _ _
  | symbol _ _ _ ih => exact ih.trans (List.prefix_append _ _)
  | progress _ _ _ _ _ ih => exact ih.trans (List.prefix_append _ _)

/-! ## The output of a run -/

namespace Record

def definition? : Record → Option Definition
  | definition d => some d
  | _ => none

/-- The attributes that are defined, apart from their name. -/
def attributesValue? : Record → Option (UInt32 × UInt64 × Bool × UInt64)
  | attributesDefinition _ type config _ usesFrequency frequenyOrPeriod =>
    some (type, config, usesFrequency, frequenyOrPeriod)
  | _ => none

/-- The attributes that are defined, as the receiver has them. -/
def attributesEvent? : Record → Option PerfParserTestClient.AttributeEvent
  | attributesDefinition _ type config attrNameId usesFrequency frequenyOrPeriod =>
    some { type, name := attrNameId, config, usesFrequency, frequencyOrPeriod := frequenyOrPeriod }
  | _ => none

def isSample : Record → Bool
  | sample _ | tracePointSample .. => true
  | _ => false

end Record

/-- The attributes as they are sent, apart from their name. -/
def PerfEventAttributes.value (a : PerfEventAttributes) : UInt32 × UInt64 × Bool × UInt64 :=
  (a.type, a.config, a.usesFrequency, a.frequenyOrPeriod)

namespace Output

/-- The stream defines what is in the tables, and the attributes. -/
structure Faithful (attributes : List PerfEventAttributes) (o : Output) : Prop where
  output : o.records.filterMap Record.definition? = o.tables.resolver.output
  replayed : Replayed o.tables.resolver.toDefinitions
  attributes : o.records.filterMap Record.attributesValue? = attributes.map PerfEventAttributes.value

variable {H : Host} {o : Output} {attributes : List PerfEventAttributes} {r : Registry}

theorem Faithful.update (h : o.Faithful attributes) {tables : SymbolTables}
    (hsends : o.tables.resolver.toDefinitions.Sends tables.resolver.toDefinitions) :
    (o.update tables).Faithful attributes := by
  have hdefinitions : ∀ l : List Definition, (l.map Record.definition).filterMap Record.definition? = l := fun l => by
    rw [List.filterMap_map]
    exact List.filterMap_some
  have hvalues : ∀ l : List Definition, (l.map Record.definition).filterMap Record.attributesValue? = [] := fun l => by
    rw [List.filterMap_map]
    exact List.filterMap_eq_nil_iff.2 fun _ _ => rfl
  obtain ⟨new, hnew⟩ := hsends.output_prefix
  refine ⟨?_, h.replayed.sends hsends, ?_⟩
  · rw [Output.update, List.filterMap_append, h.output, ← hnew, List.drop_left, hdefinitions]
  · rw [Output.update, List.filterMap_append, h.attributes, hvalues, List.append_nil]

/-- A record that defines nothing of the tables. -/
theorem Faithful.sendBuffer (h : o.Faithful attributes) {record : Record} (hdefinition : record.definition? = none)
    (hvalue : record.attributesValue? = none) : (o.sendBuffer record).Faithful attributes where
  output := by rw [Output.sendBuffer, filterMap_snoc, hdefinition, h.output]; exact List.append_nil _
  replayed := h.replayed
  attributes := by rw [Output.sendBuffer, filterMap_snoc, hvalue, h.attributes]; exact List.append_nil _

theorem Faithful.resolveString (h : o.Faithful attributes) (string : QByteArray) :
    (o.resolveString string).1.Faithful attributes :=
  h.update (SymbolTables.leads_resolveString o.tables string []).sends

theorem Faithful.analyze (h : o.Faithful attributes) (sample : PerfRecordSample) :
    (o.analyze H r sample).Faithful attributes := by
  refine (h.update (SymbolTables.analyze_leads H sample o.tables).sends).sendBuffer ?_ ?_
  all_goals
    unfold Registry.sampleRecord
    dsimp only
    split <;> rfl

theorem Faithful.sendEventFormat (h : o.Faithful attributes) (id : Int32) (format : EventFormat) :
    (o.sendEventFormat id format).Faithful attributes :=
  (List.foldlRecOn (format.commonFields ++ format.fields) _ (motive := Output.Faithful attributes)
    ((h.resolveString format.system).resolveString format.name)
    fun _ h field _ => h.resolveString field.name).sendBuffer rfl rfl

theorem Faithful.sendAttributes (h : o.Faithful attributes) (id : Int32) (new : PerfEventAttributes) (name : QByteArray) :
    (o.sendAttributes id new name).Faithful (attributes ++ [new]) := by
  have hname := h.resolveString name
  refine ⟨?_, hname.replayed, ?_⟩
  · exact (filterMap_snoc ..).trans ((List.append_nil _).trans hname.output)
  · rw [List.map_append]
    exact (filterMap_snoc ..).trans (congrArg (· ++ [new.value]) hname.attributes)

theorem Faithful.exec (h : o.Faithful attributes) {x : Call} (hx : x.DefinesNone) :
    (o.exec H r x).Faithful attributes := by
  cases x with
  | registerElf mmap buildId => exact h.update (SymbolTables.leads_registerElf H o.tables mmap buildId []).sends
  | initAfterFork fork parentPid =>
    exact h.update (SymbolTables.leads_initAfterFork o.tables fork.pid parentPid []).sends
  | dropSymbolTable exit => exact h.update (SymbolTables.leads_dropSymbolTable o.tables exit.pid []).sends
  | analyze sample => exact h.analyze sample
  | sendEventFormat id format => exact h.sendEventFormat id format
  | sendAttributes id attributes name => cases hx
  | _ => exact h.sendBuffer rfl rfl

theorem kept (H : Host) : Kept (Output.backend H) Faithful where
  string := fun _ _ s h => h.resolveString s
  call := fun _ _ _ _ hx h => h.exec hx
  attributes := fun _ _ _ new name h => h.sendAttributes _ new name

end Output

/-- **What a run has sent is what is in its tables.** -/
theorem PerfUnwind.faithful_runHosts (lastSize maxSize targetSize : UInt32) (ops : List (Host × Op)) :
    ((PerfUnwind.create ({} : Output) lastSize maxSize targetSize).runHosts ops).Keeps Output.Faithful :=
  Keeps.runHosts Output.kept ops ⟨rfl, ⟨rfl, .empty, rfl⟩⟩

/-! ## The client of a run -/

open PerfParserTestClient hiding Event

/-! The entries of records are those of their definitions. -/

theorem filterMap_definitions {β γ : Type} {f : Record → Option (β × γ)} {g : Definition → Option γ}
    (hdefinition : ∀ d, (f (.definition d)).map Prod.snd = g d) (hother : ∀ r : Record, r.definition? = none → f r = none)
    (records : List Record) :
    (records.filterMap f).map Prod.snd = (records.filterMap Record.definition?).filterMap g := by
  rw [List.map_filterMap, List.filterMap_filterMap]
  refine List.filterMap_congr fun r _ => ?_
  cases hr : r.definition? with
  | none => rw [hother r hr]; rfl
  | some d =>
    cases r with
    | definition d' =>
      obtain rfl : d' = d := Option.some.inj hr
      exact hdefinition d'
    | _ => cases hr

namespace Output.Faithful

variable {o : Output} {attributes : List PerfEventAttributes} (h : o.Faithful attributes)

include h

theorem strings : (o.records.filterMap Record.stringEntry?).map Prod.snd = o.tables.resolver.strings.entries := by
  rw [filterMap_definitions (g := Definition.string?) (fun d => by cases d <;> rfl) (fun r hr => by
    cases r with
    | definition d => cases hr
    | _ => rfl), h.output, h.replayed.strings]

theorem locations : (o.records.filterMap Record.locationEntry?).map Prod.snd = o.tables.resolver.locations.entries := by
  rw [filterMap_definitions (g := Definition.location?) (fun d => by cases d <;> rfl) (fun r hr => by
    cases r with
    | definition d => cases hr
    | _ => rfl), h.output, h.replayed.locations]

theorem symbols : o.records.filterMap Record.symbolEntry? =
    (o.tables.resolver.output.filterMap Definition.symbol?).map fun p => (Int32.ofInt p.1, p.2) := by
  rw [← h.output, List.filterMap_filterMap, List.map_filterMap]
  refine List.filterMap_congr fun r _ => ?_
  cases r with
  | definition d => cases d <;> rfl
  | _ => rfl

theorem sendable (hdefined : WellDefined o.records) (hlength : o.records.length ≤ 2 ^ 31) : Sendable o.records where
  wellDefined := hdefined
  nonempty := fun p hp => h.replayed.nonempty p.2 (by rw [← h.strings]; exact List.mem_map_of_mem hp)
  length := hlength

end Output.Faithful

/-- What the receiver has of a sample.  Under the id of each field of a trace point is what is read of the raw data for it. -/
inductive Wire.Delivers (W : Wire) (rounds : Nat) : Record → SampleEvent → Prop
  | sample (s : SampleRecord) : Delivers W rounds (.sample s) (.of s [])
  | tracePointSample (s : SampleRecord) (traceData : QHash Int32 FormatField) (rawData : QByteArray)
      (tracePointData : QHash Int32 QVariant)
      (h : ∀ id, tracePointData.find id =
        (traceData.find id).bind fun field => (readTraceData rounds rawData field W.byteSwap).1.map field.toVariant) :
      Delivers W rounds (.tracePointSample s traceData rawData) (.of s tracePointData)

/-- The tables of the client are those of the unwinder, and it has the attributes and samples that were sent. -/
structure Mirrors (W : Wire) (rounds : Nat) (c : PerfParserTestClient) (attributes : List PerfEventAttributes) (o : Output) :
    Prop where
  strings : c.strings = o.tables.resolver.strings.entries
  locations : c.locations = o.tables.resolver.locations.entries.map LocationEvent.of
  symbols : ∀ id : Int, -1 ≤ id → id < 2 ^ 31 →
    c.symbols.find (Int32.ofInt id) = (o.tables.resolver.symbols.find id).map SymbolEvent.of
  attributes : c.attributes.map (fun a => (a.type, a.config, a.usesFrequency, a.frequencyOrPeriod)) =
    attributes.map PerfEventAttributes.value
  attributesSent : c.attributes = o.records.filterMap Record.attributesEvent?
  samples : List.Forall₂ (W.Delivers rounds) (o.records.filter Record.isSample) c.samples

namespace Wire

variable {W : Wire} {rounds : Nat}

theorem event_attributes {r : Record} {e : PerfParserTestClient.Event} (h : W.event rounds r = some e) :
    e.attributes?.map Prod.snd = r.attributesEvent? := by
  cases r with
  | definition d => cases d <;> rw [← Option.some.inj h] <;> rfl
  | taskEvent t =>
    obtain ⟨pid, tid, time, cpu, type⟩ := t
    rw [← Option.some.inj h]
    cases type <;> rfl
  | tracePointSample s traceData rawData =>
    obtain ⟨values, -, rfl⟩ := Option.map_eq_some_iff.1 h
    rfl
  | _ => rw [← Option.some.inj h]; rfl

/-- The trace data of a sample are what is read of them, in whatever order they are sent. -/
theorem find_traceVariants {traceData : QHash Int32 FormatField} {rawData : QByteArray} {values : QHash Int32 QVariant}
    (h : W.traceVariants rounds traceData rawData = some values) (id : Int32) :
    (QHash.insertAll (W.iterate values.entries)).find id =
      (traceData.find id).bind fun field => (readTraceData rounds rawData field W.byteSwap).1.map field.toVariant := by
  rw [QHash.find_insertAll_entries (W.iterate_perm values.entries)]
  refine QHash.find_mapM id (Eq.trans (congrArg (traceData.mapM ·) (funext fun p => ?_)) h)
  rw [Option.map_map]
  rfl

theorem event_sample {r : Record} {e : PerfParserTestClient.Event} (h : W.event rounds r = some e) :
    (r.isSample → ∃ s, e.sample? = some s ∧ W.Delivers rounds r s) ∧ (¬r.isSample → e.sample? = none) := by
  cases r with
  | definition d => cases d <;> rw [← Option.some.inj h] <;> exact ⟨fun hs => absurd hs Bool.false_ne_true, fun _ => rfl⟩
  | taskEvent t =>
    obtain ⟨pid, tid, time, cpu, type⟩ := t
    rw [← Option.some.inj h]
    cases type <;> exact ⟨fun hs => absurd hs Bool.false_ne_true, fun _ => rfl⟩
  | sample s =>
    rw [← Option.some.inj h]
    exact ⟨fun _ => ⟨_, rfl, .sample s⟩, fun hs => absurd rfl hs⟩
  | tracePointSample s traceData rawData =>
    obtain ⟨values, hvalues, rfl⟩ := Option.map_eq_some_iff.1 h
    exact ⟨fun _ => ⟨_, rfl, .tracePointSample s traceData rawData _ (find_traceVariants hvalues)⟩,
      fun hs => absurd rfl hs⟩
  | _ =>
    rw [← Option.some.inj h]
    exact ⟨fun hs => absurd hs Bool.false_ne_true, fun _ => rfl⟩

/-- **The samples that are read are those that were sent**, in their order. -/
theorem samples_events : ∀ {sent : List Message} {events : List PerfParserTestClient.Event},
    sent.mapM (W.messageEvent rounds) = some events →
      List.Forall₂ (W.Delivers rounds) ((sent.filterMap Message.record?).filter Record.isSample)
        (events.filterMap PerfParserTestClient.Event.sample?)
  | [], _, h => by
    rw [← Option.some.inj h]
    exact .nil
  | m :: sent, _, h => by
    rw [List.mapM_cons] at h
    obtain ⟨e, he, h⟩ := Option.bind_eq_some_iff.1 h
    obtain ⟨events, hevents, h⟩ := Option.bind_eq_some_iff.1 h
    have hrest := samples_events hevents
    rw [← Option.some.inj h]
    cases m with
    | record r =>
      rw [List.filterMap_cons_some (f := Message.record?) (a := .record r) rfl]
      obtain ⟨hsample, hother⟩ := event_sample he
      by_cases hr : r.isSample
      · obtain ⟨s, hs, hdelivers⟩ := hsample hr
        rw [List.filter_cons_of_pos hr, List.filterMap_cons_some hs]
        exact .cons hdelivers hrest
      · rw [List.filter_cons_of_neg hr, List.filterMap_cons_none (hother hr)]
        exact hrest
    | _ =>
      rw [← Option.some.inj he]
      exact hrest

end Wire

/-- The ids that are known are told apart in 32 bits. -/
theorem ofInt_inj {m n : Int} (hm : -1 ≤ m) (hm' : m < 2 ^ 31) (hn : -1 ≤ n) (hn' : n < 2 ^ 31)
    (h : Int32.ofInt m = Int32.ofInt n) : m = n := by
  have hint := congrArg Int32.toInt h
  rwa [Int32.toInt_ofInt_of_le (by omega) (by omega), Int32.toInt_ofInt_of_le (by omega) (by omega)] at hint

/-- **The client has what the unwinder has.** -/
theorem Output.Faithful.mirrors {o : Output} {attributes : List PerfEventAttributes} (h : o.Faithful attributes)
    {W : Wire} {rounds : Nat} {sent : List Message} (hsent : sent.filterMap Message.record? = o.records)
    {events : List PerfParserTestClient.Event} (hevents : sent.mapM (W.messageEvent rounds) = some events)
    (hlength : o.records.length ≤ 2 ^ 31) : Mirrors W rounds (received events) attributes o := by
  have hreceived := W.received hevents
  rw [hsent] at hreceived
  have hattributes : (received events).attributes = o.records.filterMap Record.attributesEvent? := by
    rw [attributes_received, List.map_filterMap, ← hsent]
    exact Wire.filterMap_records (fun he => Wire.event_attributes he) (fun _ => rfl) (fun _ => rfl) hevents
  refine ⟨hreceived.strings.trans h.strings, hreceived.locations.trans (congrArg _ h.locations), fun id hid hid' => ?_, ?_,
    hattributes, ?_⟩
  · rw [hreceived.symbols, h.symbols, List.map_map]
    refine (QHash.find_insertAll_map (f := Int32.ofInt) SymbolEvent.of fun p hp heq => ?_).trans ?_
    · have hcount : o.tables.resolver.locations.entries.length ≤ 2 ^ 31 := by
        rw [← h.locations, List.length_map]
        exact (List.length_filterMap_le _ _).trans hlength
      rcases h.replayed.owners p hp with hnone | ⟨l, hl⟩
      · rw [hnone] at heq ⊢
        exact ofInt_inj (by decide) (by decide) hid hid' heq
      · obtain ⟨i, hi, hlt⟩ := Interner.get?_lt hl
        exact ofInt_inj (by omega) (by omega) hid hid' heq
    · rw [h.replayed.symbols]
  · rw [hattributes, List.map_filterMap, ← h.attributes]
    exact List.filterMap_congr fun r _ => by cases r <;> rfl
  · rw [samples_received, ← hsent]
    exact Wire.samples_events hevents

namespace PerfUnwind

section

variable (W : Wire) (rounds : Nat) (lastSize maxSize targetSize : UInt32) (ops : List (Host × Op))

/-- **The client accepts the output of a run exactly where each record is complete** and the progress increases, wherever
this and the errors about files stand between the records. -/
theorem run_accepted {sent : List Message} {messages : List QByteArray}
    (hsent : sent.filterMap Message.record? =
      ((create ({} : Output) lastSize maxSize targetSize).runHosts ops).back.records)
    (h : sent.mapM (W.message rounds) = some messages) (hlength : ∀ message ∈ messages, message.length < 2 ^ 31)
    (hcount : ((create ({} : Output) lastSize maxSize targetSize).runHosts ops).back.records.length ≤ 2 ^ 31) :
    (extractTrace W.version (W.header ++ Wire.framing.frames messages)).isSome ↔
      Always Complete ((create ({} : Output) lastSize maxSize targetSize).runHosts ops).back.records ∧
        Rising ((sent.filterMap Message.percent?).map floatOfDouble) := by
  have hfaithful := (faithful_runHosts lastSize maxSize targetSize ops).back
  have hdefined := ((Announced.create lastSize maxSize targetSize).runHosts ops).sound.stream.wellDefined
  have hsendable := hfaithful.sendable hdefined hcount
  rw [← hsent] at hsendable ⊢
  obtain ⟨events, hevents, houtput⟩ := W.extractTrace_output rounds h hlength
  rw [houtput, ← Wire.always_checks_iff hevents hsendable, ← Wire.percents_events hevents, Option.isSome_iff_exists]
  constructor
  · rintro ⟨c, hc⟩
    exact ((foldlM_apply_iff events c).1 hc).1
  · exact fun hchecks => ⟨_, (foldlM_apply_iff events _).2 ⟨hchecks, rfl⟩⟩

/-- A machine on which a process has a function of its own. -/
def jitHost : Host := { noFiles with readPerfMap := fun _ => [{ start := 0x1000, length := 0x100, name := [114, 117, 110] }] }

/-- A trace point with one field, and a process with a name that reaches it in its function. -/
def tracedOps : List (Host × Op) :=
  [(jitHost, .tracing { eventFormats := [(7, { system := [115], name := [110], fields := [{ name := [120], size := 4 }] })] }),
    (jitHost, .attr { attr := { type := 2, config := 7 }, ids := [1] }),
    (jitHost, .comm { pid := 5, tid := 5, comm := [115, 104] }),
    (jitHost, .sample { sampleId := { pid := 5, tid := 5, id := 1 }, ip := 0x1030, callchain := [0x1030],
                        rawData := [42, 0, 0, 0] }),
    (jitHost, .finalize)]

def tracedOutput : Output := ((create ({} : Output) 0 0 0).runHosts tracedOps).back

/-- The progress before and behind the records, and a file that is missing between them. -/
def tracedSent : List Message :=
  .progress 0 :: (tracedOutput.records.take 8).map .record ++
    .missingElfFile (.ofString "/bin/sh") :: (tracedOutput.records.drop 8).map .record ++ [.progress 0x3FF0000000000000]

def tracedMessages : List QByteArray := (tracedSent.mapM (Wire.plain.message 8)).getD []

theorem traced_sent : tracedSent.filterMap Message.record? = tracedOutput.records := by decide +kernel

theorem traced_messages : tracedSent.mapM (Wire.plain.message 8) = some tracedMessages := by decide +kernel

theorem run_accepted_traced : Always Complete tracedOutput.records ∧
    Rising ((tracedSent.filterMap Message.percent?).map floatOfDouble) :=
  (run_accepted .plain 8 0 0 0 tracedOps traced_sent traced_messages (by decide +kernel) (by decide +kernel)).1
    (by decide +kernel)

/-- **The client of a run has the tables of the unwinder**, and the attributes and samples in the order in which they were
sent. -/
theorem run_mirrored {sent : List Message} {messages : List QByteArray}
    (hsent : sent.filterMap Message.record? =
      ((create ({} : Output) lastSize maxSize targetSize).runHosts ops).back.records)
    (h : sent.mapM (W.message rounds) = some messages) (hlength : ∀ message ∈ messages, message.length < 2 ^ 31)
    (hcount : ((create ({} : Output) lastSize maxSize targetSize).runHosts ops).back.records.length ≤ 2 ^ 31)
    {c : PerfParserTestClient} (hc : extractTrace W.version (W.header ++ Wire.framing.frames messages) = some c) :
    Mirrors W rounds c ((create ({} : Output) lastSize maxSize targetSize).runHosts ops).registry.attributes
      ((create ({} : Output) lastSize maxSize targetSize).runHosts ops).back := by
  have hfaithful := (faithful_runHosts lastSize maxSize targetSize ops).back
  obtain ⟨events, hevents, houtput⟩ := W.extractTrace_output rounds h hlength
  rw [houtput] at hc
  rw [((foldlM_apply_iff events c).1 hc).2]
  exact hfaithful.mirrors hsent hevents hcount

theorem run_mirrored_traced :
    Mirrors .plain 8 ((extractTrace 1 (Wire.plain.header ++ Wire.framing.frames tracedMessages)).getD {})
      ((create ({} : Output) 0 0 0).runHosts tracedOps).registry.attributes tracedOutput :=
  run_mirrored .plain 8 0 0 0 tracedOps traced_sent traced_messages (by decide +kernel) (by decide +kernel)
    (by decide +kernel)

end

end PerfUnwind

/-! ## Callers -/

namespace PerfParserTestClient

/-- Each location is called by none or by one before it. -/
def CallersBefore (c : PerfParserTestClient) : Prop := ∀ id l, at? c.locations id = some l →
  l.parentLocationId = -1 ∨ 0 ≤ l.parentLocationId ∧ l.parentLocationId < id

theorem at?_append {α : Type} {l : List α} {a b : α} {id : Int32} (h : at? (l ++ [a]) id = some b) :
    at? l id = some b ∨ b = a ∧ id.toInt = l.length := by
  unfold at? at h ⊢
  split at h
  · cases h
  · rename_i hneg
    rw [if_neg hneg]
    rcases Nat.lt_trichotomy id.toNatClampNeg l.length with hlt | heq | hgt
    · rw [List.getElem?_append_left hlt] at h
      exact .inl h
    · rw [heq, List.getElem?_concat_length] at h
      refine .inr ⟨(Option.some.inj h).symm, ?_⟩
      rw [Int32.toInt_eq_toNatClampNeg (Int32.not_lt.1 hneg), heq]
    · rw [List.getElem?_eq_none (by rw [List.length_append]; exact hgt)] at h
      cases h

theorem lt_of_at? {α : Type} {l : List α} {b : α} {id : Int32} (h : at? l id = some b) :
    0 ≤ id ∧ id.toInt < l.length := by
  unfold at? at h
  split at h
  · cases h
  · rename_i hneg
    refine ⟨Int32.not_lt.1 hneg, ?_⟩
    rw [Int32.toInt_eq_toNatClampNeg (Int32.not_lt.1 hneg)]
    exact Int.ofNat_lt.2 (List.getElem?_eq_some_iff.1 h).1

theorem CallersBefore.apply {c c' : PerfParserTestClient} {e : Event} (h : c.apply e = some c')
    (hc : c.CallersBefore) : c'.CallersBefore := by
  obtain ⟨hchecks, rfl⟩ := (apply_eq_some_iff c e c').1 h
  cases e with
  | locationDefinition id location =>
    intro i l hl
    rcases at?_append hl with hl | ⟨rfl, hi⟩
    · exact hc i l hl
    · refine hchecks.2.1.imp_right fun hparent => ?_
      obtain ⟨l', hl', -⟩ := Option.any_eq_true _ _ |>.1 hparent
      obtain ⟨hpos, hlt⟩ := lt_of_at? hl'
      rw [← hi] at hlt
      exact ⟨hpos, Int32.lt_iff_toInt_lt.2 hlt⟩
  | _ => exact hc

theorem CallersBefore.extraction {x x' : Extraction} {e : Event} (h : x.apply e = some x')
    (hx : x.client.CallersBefore) : x'.client.CallersBefore := by
  obtain ⟨hchecks, rfl⟩ := (Extraction.apply_eq_some_iff x e x').1 h
  exact hx.apply ((apply_eq_some_iff x.client e _).2 ⟨hchecks.client, rfl⟩)

section Callers

variable {c : PerfParserTestClient}

/-- A location that is not there has no caller. -/
theorem CallersBefore.location (hc : c.CallersBefore) (id : Int32) : (c.location id).parentLocationId = -1 ∨
    (0 ≤ (c.location id).parentLocationId ∧ (c.location id).parentLocationId < id) ∧
      id.toInt < c.locations.length := by
  unfold PerfParserTestClient.location
  cases hl : at? c.locations id with
  | none => exact .inl rfl
  | some l => exact (hc id l hl).imp_right fun hparent => ⟨hparent, (lt_of_at? hl).2⟩

/-- The loop ends within as many rounds as there are locations before. -/
theorem CallersBefore.callers (hc : c.CallersBefore) : ∀ {n : Nat} (id : Int32), id.toInt + 2 ≤ n → 2 ≤ n →
    ∃ ids, c.callers n id = some ids ∧ ids.Pairwise (fun i j => j < i) ∧ ∀ i ∈ ids, i ≤ id
  | 0, _, _, h => absurd h (by decide)
  | n + 1, id, hid, hn => by
    by_cases hnone : id = -1
    · exact ⟨[], if_pos hnone, .nil, fun i hi => absurd hi List.not_mem_nil⟩
    · rw [PerfParserTestClient.callers, if_neg hnone]
      rcases hc.location id with hparent | ⟨⟨hpos, hlt⟩, -⟩
      · obtain ⟨n, rfl⟩ : ∃ m, n = m + 1 := ⟨n - 1, by omega⟩
        rw [hparent, PerfParserTestClient.callers, if_pos rfl]
        exact ⟨[id], rfl, List.pairwise_singleton _ _, fun i hi => by rw [List.mem_singleton.1 hi]; exact Int32.le_refl _⟩
      · have hpos' : 0 ≤ (c.location id).parentLocationId.toInt := Int32.le_iff_toInt_le.1 hpos
        have hlt' := Int32.lt_iff_toInt_lt.1 hlt
        obtain ⟨ids, hids, hsorted, hle⟩ := hc.callers (n := n) (c.location id).parentLocationId (by omega) (by omega)
        refine ⟨id :: ids, by rw [hids]; rfl, List.pairwise_cons.2 ⟨fun i hi => ?_, hsorted⟩, fun i hi => ?_⟩
        · exact Int32.lt_of_le_of_lt (hle i hi) hlt
        · rcases List.mem_cons.1 hi with rfl | hi
          · exact Int32.le_refl _
          · exact Int32.le_of_lt (Int32.lt_of_le_of_lt (hle i hi) hlt)

end Callers

/-- **What the client accepts, it can print**: the callers of every location of a trace that it accepts come to an end,
whatever the device holds, and each is defined before the one that it calls. -/
theorem extractTrace_callers {version : Int32} {device : QByteArray} {c : PerfParserTestClient}
    (h : extractTrace version device = some c) (frame : Int32) :
    ∃ ids, c.printedFrame (c.locations.length + 2) frame = some ids ∧ ids.Pairwise fun i j => j < i := by
  have hc : c.CallersBefore := by
    unfold extractTrace at h
    split at h
    · cases h
    · obtain ⟨x, hx, rfl⟩ := Option.map_eq_some_iff.1 h
      refine Wire.framing.receiveLoop_invariant Extraction.handle (I := fun x => x.client.CallersBefore)
        (fun x p x' hstep hI => ?_) hx fun id l hl => ?_
      · unfold Extraction.handle at hstep
        dsimp only at hstep
        split at hstep
        · exact hI.extraction hstep
        · cases hstep
      · unfold at? at hl
        split at hl <;> cases hl
  rcases hc.location frame with hparent | ⟨⟨hpos, hlt⟩, hframe⟩
  · rw [printedFrame, hparent, PerfParserTestClient.callers, if_pos rfl]
    exact ⟨[frame], rfl, List.pairwise_singleton _ _⟩
  · have hlt' := Int32.lt_iff_toInt_lt.1 hlt
    obtain ⟨ids, hids, hsorted, hle⟩ := hc.callers (n := c.locations.length + 2)
      (c.location frame).parentLocationId (by omega) (by omega)
    rw [printedFrame, hids]
    exact ⟨frame :: ids, rfl, List.pairwise_cons.2 ⟨fun i hi => Int32.lt_of_le_of_lt (hle i hi) hlt, hsorted⟩⟩

/-- Two locations of a process, of which the first one calls the second. -/
def twoLocations : QByteArray :=
  Wire.plain.header ++ Wire.framing.frames
    [[3, 0, 0, 0, 0] ++ Wire.location ⟨16, 0, -1, 5, -1, -1, -1⟩, [3, 0, 0, 0, 1] ++ Wire.location ⟨8, 0, -1, 5, -1, -1, 0⟩]

theorem extractTrace_callers_two : ∃ ids,
    ((extractTrace 1 twoLocations).getD {}).printedFrame 4 1 = some ids ∧ ids.Pairwise fun i j => j < i :=
  extractTrace_callers (show extractTrace 1 twoLocations = some ((extractTrace 1 twoLocations).getD {}) by decide +kernel) 1

end PerfParserTestClient

end PerfParser
