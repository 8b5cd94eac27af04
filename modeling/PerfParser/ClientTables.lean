import PerfParser.WireReads
/-!
# ClientTables — the tables of the client are those of the unwinder

The client accepts a well defined stream unless a record has no id where one is wanted (`Complete`) or the progress that
is sent between the records does not increase (`Rising`), and that is all it can object to.  Of every run of the unwinder
it then has the strings, locations and symbols that the unwinder has, and the callers of each location end.
-/
namespace PerfParser

open History (Always)

namespace PerfParserTestClient

/-! ## Events without their checks -/

/-- What the checks of a message ask of the tables. -/
def Checks (c : PerfParserTestClient) : Event → Prop
  | .command e => c.checkString e.name
  | .locationDefinition id location =>
    (location.file = -1 ∨ c.checkString location.file) ∧
      (location.parentLocationId = -1 ∨ c.checkLocation location.parentLocationId) ∧ isNext id c.locations
  | .symbolDefinition id symbol =>
    (symbol.name = -1 ∨ c.checkString symbol.name) ∧ (symbol.binary = -1 ∨ c.checkString symbol.binary) ∧
      id.toInt < c.locations.length
  | .attributesDefinition id attributes => c.checkString attributes.name ∧ isNext id c.attributes
  | .stringDefinition id _ => isNext id c.strings
  | .sample s =>
    (∀ id ∈ s.frames, c.checkLocation id) ∧ (∀ v ∈ s.values, c.checkAttribute v.1) ∧
      ∀ p ∈ s.tracePointData.entries, c.checkString p.1
  | .tracePointFormat id format =>
    c.checkString format.system ∧ c.checkString format.name ∧ ¬c.tracePointFormats.contains id
  | .threadStart _ | .threadEnd _ | .error _ | .progress _ | .skipped => True

/-- What a message adds to the tables. -/
def add (c : PerfParserTestClient) : Event → PerfParserTestClient
  | .threadStart e => { c with
      threadStarts := c.threadStarts ++ [e]
      commands := c.commands.insert e.pid ((c.commands.find e.ppid).getD {}) }
  | .threadEnd e => { c with threadEnds := c.threadEnds ++ [e] }
  | .command e => c.insertCommand e
  | .locationDefinition _ location => { c with locations := c.locations ++ [location] }
  | .symbolDefinition id symbol => { c with symbols := c.symbols.insert id symbol }
  | .attributesDefinition _ attributes => { c with attributes := c.attributes ++ [attributes] }
  | .stringDefinition _ string => { c with strings := c.strings ++ [string] }
  | .sample s => { c with samples := c.samples ++ [s] }
  | .tracePointFormat id format => { c with tracePointFormats := c.tracePointFormats.insert id format }
  | .error _ | .progress _ | .skipped => c

/-- The tables after some messages that pass their checks. -/
def received (events : List Event) : PerfParserTestClient := events.foldl add {}

theorem apply_eq_some_iff (c : PerfParserTestClient) (e : Event) (c' : PerfParserTestClient) :
    c.apply e = some c' ↔ c.Checks e ∧ c' = c.add e := by
  have hguard : ∀ {P : Prop} {_ : Decidable P} {d : PerfParserTestClient},
      (if P then some d else none) = some c' ↔ P ∧ c' = d := by
    intro P _ d
    by_cases hP : P
    · rw [if_pos hP, Option.some.injEq, and_iff_right hP, eq_comm]
    · rw [if_neg hP]
      exact iff_of_false (Option.some_ne_none c').symm fun h => hP h.1
  cases e with
  | threadStart | threadEnd | error | progress | skipped =>
    rw [apply, Option.some.injEq, Checks, true_and, eq_comm]
    rfl
  | sample s =>
    rw [apply, Checks, ← List.all_eq_true, ← List.all_eq_true, ← List.all_eq_true]
    exact hguard
  | _ => exact hguard

def Event.percent? : Event → Option (Option Int)
  | progress percent => some percent
  | _ => none

namespace Extraction

/-- What the checks of a message ask for. -/
structure Checks (x : Extraction) (e : Event) : Prop where
  client : x.client.Checks e
  progress : ∀ percent, e.percent? = some percent → greater percent x.progress

def add (x : Extraction) (e : Event) : Extraction where
  client := x.client.add e
  progress := e.percent?.getD x.progress

theorem apply_of_tables (x : Extraction) {e : Event} (h : e.percent? = none) :
    x.apply e = (x.client.apply e).map fun client => { x with client } := by
  cases e with
  | progress percent => cases h
  | _ => rfl

theorem apply_eq_some_iff (x : Extraction) (e : Event) (x' : Extraction) :
    x.apply e = some x' ↔ x.Checks e ∧ x' = x.add e := by
  cases he : e.percent? with
  | none =>
    rw [apply_of_tables x he, Option.map_eq_some_iff, add, he, Option.getD_none]
    constructor
    · rintro ⟨c, hc, rfl⟩
      obtain ⟨hchecks, rfl⟩ := (PerfParserTestClient.apply_eq_some_iff x.client e c).1 hc
      exact ⟨⟨hchecks, fun percent hpercent => by rw [he] at hpercent; cases hpercent⟩, rfl⟩
    · rintro ⟨hchecks, rfl⟩
      exact ⟨_, (PerfParserTestClient.apply_eq_some_iff x.client e _).2 ⟨hchecks.client, rfl⟩, rfl⟩
  | some percent =>
    cases e with
    | progress =>
      obtain rfl := Option.some.inj he
      rw [apply]
      split
      · rename_i hgreater
        rw [Option.some.injEq, eq_comm]
        exact (and_iff_right ⟨trivial, fun p hp => Option.some.inj hp ▸ hgreater⟩).symm
      · rename_i hgreater
        exact iff_of_false (Option.some_ne_none x').symm fun h => hgreater (h.1.progress _ rfl)
    | _ => cases he

variable (events : List Event)

theorem client_foldl_add : (events.foldl add {}).client = received events :=
  (List.foldl_hom client fun _ _ => rfl).symm

theorem progress_foldl_add : (events.foldl add {}).progress = (events.filterMap Event.percent?).getLastD minusOne := by
  have hlast : ∀ (l : List (Option Int)) (b : Option Int), l.foldl (fun _ p => p) b = l.getLastD b := fun l => by
    induction l with
    | nil => exact fun _ => rfl
    | cons p l ih => exact fun b => (ih p).trans (List.getLastD_cons ..).symm
  rw [← hlast]
  exact History.foldl_filterMap (p := progress) (fun x e => by cases e <;> rfl) events {}

end Extraction

/-- Each number is greater than the one before it, and the first one than `-1`. -/
def Rising (percents : List (Option Int)) : Prop := (minusOne :: percents).IsChain fun p q => greater q p

/-- **The client ends with all that it received**, if each message passes its checks when it comes. -/
theorem foldlM_apply_iff (events : List Event) (c : PerfParserTestClient) :
    (events.foldlM Extraction.apply {}).map Extraction.client = some c ↔
      (Always (fun pre e => (received pre).Checks e) events ∧ Rising (events.filterMap Event.percent?)) ∧
        c = received events := by
  have hchecks : Always (fun pre e => (pre.foldl Extraction.add {}).Checks e) events ↔
      Always (fun pre e => (received pre).Checks e) events ∧ Rising (events.filterMap Event.percent?) := by
    rw [Rising, ← History.always_getLastD_iff]
    constructor
    · intro h
      refine ⟨h.mono fun pre e _ _ hx => ?_, h.mono fun pre e _ _ hx => ?_⟩
      · rw [← Extraction.client_foldl_add]
        exact hx.client
      · rw [← Extraction.progress_foldl_add]
        exact hx.progress
    · rintro ⟨htables, hrising⟩ pre e post hl
      refine ⟨?_, ?_⟩
      · rw [Extraction.client_foldl_add]
        exact htables pre e post hl
      · rw [Extraction.progress_foldl_add]
        exact hrising pre e post hl
  rw [Option.map_eq_some_iff, ← hchecks, ← Extraction.client_foldl_add, @eq_comm _ c]
  constructor
  · rintro ⟨x, hx, rfl⟩
    obtain ⟨halways, rfl⟩ := (History.foldlM_eq_some_iff Extraction.apply_eq_some_iff {} events).1 hx
    exact ⟨halways, rfl⟩
  · rintro ⟨halways, rfl⟩
    exact ⟨_, (History.foldlM_eq_some_iff Extraction.apply_eq_some_iff {} events).2 ⟨halways, rfl⟩, rfl⟩

/-! The entries of the tables, each with its id. -/

def Event.string? : Event → Option (Int32 × QByteArray)
  | stringDefinition id string => some (id, string)
  | _ => none

def Event.location? : Event → Option (Int32 × LocationEvent)
  | locationDefinition id location => some (id, location)
  | _ => none

def Event.attributes? : Event → Option (Int32 × AttributeEvent)
  | attributesDefinition id attributes => some (id, attributes)
  | _ => none

def Event.symbol? : Event → Option (Int32 × SymbolEvent)
  | symbolDefinition id symbol => some (id, symbol)
  | _ => none

def Event.tracePointFormat? : Event → Option (Int32 × TracePointFormatEvent)
  | tracePointFormat id format => some (id, format)
  | _ => none

def Event.sample? : Event → Option SampleEvent
  | sample s => some s
  | _ => none

section Received

variable (events : List Event)

/-- A table that its definitions append to. -/
theorem appended {β γ : Type} {p : PerfParserTestClient → List γ} {f : Event → Option β} {g : β → γ} (h0 : p {} = [])
    (h : ∀ c e, p (c.add e) = (f e).elim (p c) fun b => p c ++ [g b]) :
    p (received events) = (events.filterMap f).map g := by
  have hfold := History.foldl_filterMap (k := fun l b => l ++ [g b]) h events {}
  rw [List.foldl_append_eq_append, h0, List.nil_append, ← List.flatMap_def, ← List.map_eq_flatMap] at hfold
  exact hfold

theorem strings_received : (received events).strings = (events.filterMap Event.string?).map Prod.snd :=
  appended events rfl fun _ e => by cases e <;> rfl

theorem locations_received : (received events).locations = (events.filterMap Event.location?).map Prod.snd :=
  appended events rfl fun _ e => by cases e <;> rfl

theorem attributes_received : (received events).attributes = (events.filterMap Event.attributes?).map Prod.snd :=
  appended events rfl fun _ e => by cases e <;> rfl

theorem samples_received : (received events).samples = events.filterMap Event.sample? := by
  rw [appended (p := samples) (f := Event.sample?) (g := id) events rfl fun _ e => by cases e <;> rfl, List.map_id]

theorem symbols_received : (received events).symbols = QHash.insertAll (events.filterMap Event.symbol?) :=
  History.foldl_filterMap (p := symbols) (fun _ e => by cases e <;> rfl) events {}

theorem tracePointFormats_received :
    (received events).tracePointFormats = QHash.insertAll (events.filterMap Event.tracePointFormat?) :=
  History.foldl_filterMap (p := tracePointFormats) (fun _ e => by cases e <;> rfl) events {}

end Received

end PerfParserTestClient

/-! ## Records -/

namespace Record

/-! What a record defines, with the id. -/

def stringEntry? : Record → Option (Int32 × QByteArray)
  | definition (.string id string) => some (Int32.ofInt id, string)
  | _ => none

def locationEntry? : Record → Option (Int32 × Location)
  | definition (.location id location) => some (Int32.ofInt id, location)
  | _ => none

def symbolEntry? : Record → Option (Int32 × Symbol)
  | definition (.symbol id symbol) => some (Int32.ofInt id, symbol)
  | _ => none

/-- The id of the definition with the id of the name. -/
def attributesName? : Record → Option (Int32 × Int32)
  | attributesDefinition id _ _ attrNameId _ _ => some (id, attrNameId)
  | _ => none

def tracePoint? : Record → Option Int32
  | tracePointFormat id .. => some id
  | _ => none

end Record

/-- The id of a location that is of a process. -/
def OfProcess (pre : List Record) (id : Int32) : Prop := ∃ l, (id, l) ∈ pre.filterMap Record.locationEntry? ∧ l.pid ≠ 0

/-- The record has an id wherever the receiver wants one, of a location with a process, and no second format of a trace
point. -/
def Complete (pre : List Record) : Record → Prop
  | .definition (.location _ l) =>
    Int32.ofInt l.parentLocationId = -1 ∨ OfProcess pre (Int32.ofInt l.parentLocationId)
  | .definition _ | .featuresDefinition _ | .timeOrderViolation .. => True
  | .taskEvent e => -1 ∉ (Record.taskEvent e).stringIds
  | .attributesDefinition _ _ _ attrNameId _ _ => attrNameId ≠ -1
  | .tracePointFormat id systemId nameId _ => systemId ≠ -1 ∧ nameId ≠ -1 ∧ id ∉ pre.filterMap Record.tracePoint?
  | .sample s => (∀ id ∈ s.frames, OfProcess pre id) ∧ ∀ v ∈ s.values, v.1 ≠ -1
  | .tracePointSample s traceData _ =>
    (∀ id ∈ s.frames, OfProcess pre id) ∧ (∀ v ∈ s.values, v.1 ≠ -1) ∧ ∀ p ∈ traceData.entries, p.1 ≠ -1

/-! ## Ids -/

theorem mem_numbers_iff {n : Nat} {id : Int32} : id ∈ numbers n ↔ ∃ i < n, Int32.ofNat i = id := by
  rw [numbers, List.mem_map]
  exact exists_congr fun i => and_congr_left' List.mem_range

theorem getElem?_numbers {n i : Nat} (hi : i < n) : (numbers n)[i]? = some (Int32.ofNat i) := by
  rw [numbers, List.getElem?_map, List.getElem?_range hi]
  rfl

/-- The first of some numbers are numbers. -/
theorem numbers_of_prefix {l : List Int32} {n : Nat} (h : l <+: numbers n) : l = numbers l.length := by
  have hlen : l.length ≤ n := by simpa using h.length_le
  have htake := List.prefix_iff_eq_take.1 h
  rwa [numbers, ← List.map_take, List.take_range, Nat.min_eq_left hlen] at htake

namespace PerfParserTestClient

/-- **An entry of a table is found under its id**, where the ids are numbers. -/
theorem at?_eq_some_iff {β : Type} {pairs : List (Int32 × β)} (h : pairs.map Prod.fst = numbers pairs.length)
    (hlen : pairs.length ≤ 2 ^ 31) {id : Int32} {b : β} : at? (pairs.map Prod.snd) id = some b ↔ (id, b) ∈ pairs := by
  have hfst : ∀ {i : Nat} {p}, pairs[i]? = some p → p.1 = Int32.ofNat i ∧ i < 2 ^ 31 := by
    intro i p hp
    have hi := (List.getElem?_eq_some_iff.1 hp).1
    have hmap := congrArg (fun l => l[i]?) h
    simp only [List.getElem?_map, hp, getElem?_numbers hi] at hmap
    exact ⟨Option.some.inj hmap, Nat.lt_of_lt_of_le hi hlen⟩
  unfold at?
  constructor
  · intro hat
    split at hat
    · cases hat
    · rename_i hneg
      rw [List.getElem?_map] at hat
      obtain ⟨p, hp, rfl⟩ := Option.map_eq_some_iff.1 hat
      obtain ⟨hid, hi⟩ := hfst hp
      rw [Int32.ofNat_toNatClampNeg id (Int32.not_lt.1 hneg)] at hid
      rw [← hid]
      exact List.mem_of_getElem? hp
  · intro hmem
    obtain ⟨i, hp⟩ := List.mem_iff_getElem?.1 hmem
    obtain ⟨hid, hi⟩ := hfst hp
    dsimp only at hid
    have hneg : ¬Int32.ofNat i < 0 := Int32.not_lt.2 (Int32.zero_le_ofNat_of_lt hi)
    rw [hid, if_neg hneg, Int32.toNatClampNeg_ofNat_of_lt hi, List.getElem?_map, hp]
    rfl

theorem at?_map {α β : Type} (f : α → β) (l : List α) (id : Int32) : at? (l.map f) id = (at? l id).map f := by
  unfold at?
  split
  · rfl
  · exact List.getElem?_map ..

end PerfParserTestClient

/-! ## Checks -/

open PerfParserTestClient

/-- A stream in order, whose strings are not empty, and no longer than its ids reach. -/
structure Sendable (records : List Record) : Prop where
  wellDefined : WellDefined records
  nonempty : ∀ p ∈ records.filterMap Record.stringEntry?, p.2 ≠ []
  length : records.length ≤ 2 ^ 31

theorem WellDefined.of_prefix {l l' : List Record} (h : WellDefined l') (hp : l <+: l') : WellDefined l where
  strings := numbers_of_prefix (by rw [← h.strings]; exact hp.filterMap _)
  locations := numbers_of_prefix (by rw [← h.locations]; exact hp.filterMap _)
  attributes := numbers_of_prefix (by rw [← h.attributes]; exact hp.filterMap _)
  references := h.references.of_prefix hp

theorem Sendable.of_prefix {l l' : List Record} (h : Sendable l') (hp : l <+: l') : Sendable l where
  wellDefined := h.wellDefined.of_prefix hp
  nonempty := fun p hmem => h.nonempty p ((hp.filterMap _).subset hmem)
  length := hp.length_le.trans h.length

theorem map_fst_stringEntry (records : List Record) :
    (records.filterMap Record.stringEntry?).map Prod.fst = records.filterMap Record.string? := by
  rw [List.map_filterMap]
  exact List.filterMap_congr fun r _ => by cases r with | definition d => cases d <;> rfl | _ => rfl

theorem map_fst_locationEntry (records : List Record) :
    (records.filterMap Record.locationEntry?).map Prod.fst = records.filterMap Record.location? := by
  rw [List.map_filterMap]
  exact List.filterMap_congr fun r _ => by cases r with | definition d => cases d <;> rfl | _ => rfl

theorem map_fst_attributesName (records : List Record) :
    (records.filterMap Record.attributesName?).map Prod.fst = records.filterMap Record.attributes? := by
  rw [List.map_filterMap]
  exact List.filterMap_congr fun r _ => by cases r <;> rfl

namespace Wire

variable {W : Wire} {rounds : Nat}

/-- What an event defines is what its record does. -/
theorem event_entries {r : Record} {e : PerfParserTestClient.Event} (h : W.event rounds r = some e) :
    e.string? = r.stringEntry? ∧
      e.location? = r.locationEntry?.map (fun p => (p.1, LocationEvent.of p.2)) ∧
      e.symbol? = r.symbolEntry?.map (fun p => (p.1, SymbolEvent.of p.2)) ∧
      e.attributes?.map (fun p => (p.1, p.2.name)) = r.attributesName? ∧
      e.tracePointFormat?.map Prod.fst = r.tracePoint? ∧ e.percent? = none := by
  cases r with
  | definition d =>
    cases d
    all_goals
      rw [← Option.some.inj h]
      exact ⟨rfl, rfl, rfl, rfl, rfl, rfl⟩
  | taskEvent t =>
    obtain ⟨pid, tid, time, cpu, type⟩ := t
    rw [← Option.some.inj h]
    cases type <;> exact ⟨rfl, rfl, rfl, rfl, rfl, rfl⟩
  | tracePointSample s traceData rawData =>
    obtain ⟨values, -, rfl⟩ := Option.map_eq_some_iff.1 h
    exact ⟨rfl, rfl, rfl, rfl, rfl, rfl⟩
  | _ =>
    rw [← Option.some.inj h]
    exact ⟨rfl, rfl, rfl, rfl, rfl, rfl⟩

theorem filterMap_events {β : Type} {f : PerfParserTestClient.Event → Option β} {g : Message → Option β}
    (hfg : ∀ {m e}, W.messageEvent rounds m = some e → f e = g m) : ∀ {sent : List Message} {events},
    sent.mapM (W.messageEvent rounds) = some events → events.filterMap f = sent.filterMap g
  | [], _, h => by
    rw [← Option.some.inj h]
    rfl
  | m :: sent, _, h => by
    rw [List.mapM_cons] at h
    obtain ⟨e, he, h⟩ := Option.bind_eq_some_iff.1 h
    obtain ⟨events, hevents, h⟩ := Option.bind_eq_some_iff.1 h
    rw [← Option.some.inj h, List.filterMap_cons, List.filterMap_cons, hfg he, filterMap_events hfg hevents]

/-- What comes of the records alone. -/
theorem filterMap_records {β : Type} {f : PerfParserTestClient.Event → Option β} {g : Record → Option β}
    (hfg : ∀ {r e}, W.event rounds r = some e → f e = g r) (hprogress : ∀ percent, f (.progress percent) = none)
    (herror : ∀ code, f (.error code) = none) {sent : List Message} {events}
    (h : sent.mapM (W.messageEvent rounds) = some events) :
    events.filterMap f = (sent.filterMap Message.record?).filterMap g := by
  rw [List.filterMap_filterMap, filterMap_events (fun {m e} he => ?_) h]
  cases m with
  | record r => exact hfg he
  | progress percent => rw [← Option.some.inj he, hprogress]; rfl
  | missingElfFile | invalidKallsyms => rw [← Option.some.inj he, herror]; rfl

/-- The numbers that are read are those that were sent. -/
theorem percents_events {sent : List Message} {events} (h : sent.mapM (W.messageEvent rounds) = some events) :
    events.filterMap PerfParserTestClient.Event.percent? = (sent.filterMap Message.percent?).map floatOfDouble := by
  rw [List.map_filterMap, filterMap_events (fun {m e} he => ?_) h]
  cases m with
  | record r =>
    have hnone : e.percent? = none := (event_entries he).2.2.2.2.2
    rw [hnone]
    rfl
  | _ => rw [← Option.some.inj he]; rfl

/-- The trace data that are sent have the keys that they are read for. -/
theorem mem_keys_traceVariants {traceData : QHash Int32 FormatField} {rawData : QByteArray} {values : QHash Int32 QVariant}
    (h : W.traceVariants rounds traceData rawData = some values) (id : Int32) :
    id ∈ (QHash.insertAll (W.iterate values.entries)).entries.map Prod.fst ↔ id ∈ traceData.entries.map Prod.fst := by
  have hkeys : ∀ {l : List (Int32 × FormatField)} {l' : List (Int32 × QVariant)},
      l.mapM (fun p => (readTraceData rounds rawData p.2 W.byteSwap).1.map fun value => (p.1, p.2.toVariant value)) =
        some l' → l'.map Prod.fst = l.map Prod.fst := by
    intro l
    induction l with
    | nil =>
      intro l' h
      rw [← Option.some.inj h]
      rfl
    | cons p l ih =>
      intro l' h
      rw [List.mapM_cons] at h
      obtain ⟨v, hv, h⟩ := Option.bind_eq_some_iff.1 h
      obtain ⟨vs, hvs, h⟩ := Option.bind_eq_some_iff.1 h
      obtain ⟨value, -, rfl⟩ := Option.map_eq_some_iff.1 hv
      rw [← Option.some.inj h, List.map_cons, List.map_cons, ih hvs]
  rw [QHash.mem_keys_insertAll, ((W.iterate_perm values.entries).map Prod.fst).mem_iff, QHash.mem_keys_entries,
    QHash.mem_keys_entries]
  have hvalues : values.map Prod.fst = traceData.map Prod.fst := hkeys h
  rw [hvalues]

end Wire

/-- The tables of the client after some records. -/
structure Received (pre : List Record) (c : PerfParserTestClient) : Prop where
  strings : c.strings = (pre.filterMap Record.stringEntry?).map Prod.snd
  locations : c.locations = ((pre.filterMap Record.locationEntry?).map Prod.snd).map LocationEvent.of
  attributes : c.attributes.map AttributeEvent.name = (pre.filterMap Record.attributesName?).map Prod.snd
  symbols : c.symbols = QHash.insertAll ((pre.filterMap Record.symbolEntry?).map fun p => (p.1, SymbolEvent.of p.2))
  tracePointFormats : ∀ id, c.tracePointFormats.contains id ↔ id ∈ pre.filterMap Record.tracePoint?

theorem Wire.received {W : Wire} {rounds : Nat} {sent : List Message} {events : List PerfParserTestClient.Event}
    (h : sent.mapM (W.messageEvent rounds) = some events) :
    Received (sent.filterMap Message.record?) (PerfParserTestClient.received events) where
  strings := by
    rw [strings_received, filterMap_records (fun he => (event_entries he).1) (fun _ => rfl) (fun _ => rfl) h]
  locations := by
    rw [locations_received, filterMap_records (fun he => (event_entries he).2.1) (fun _ => rfl) (fun _ => rfl) h,
      ← List.map_filterMap, List.map_map, List.map_map]
    rfl
  attributes := by
    rw [attributes_received, List.map_map,
      ← filterMap_records (fun he => (event_entries he).2.2.2.1) (fun _ => rfl) (fun _ => rfl) h, ← List.map_filterMap,
      List.map_map]
    rfl
  symbols := by
    rw [symbols_received, filterMap_records (fun he => (event_entries he).2.2.1) (fun _ => rfl) (fun _ => rfl) h,
      ← List.map_filterMap]
  tracePointFormats := fun id => by
    rw [tracePointFormats_received,
      ← filterMap_records (fun he => (event_entries he).2.2.2.2.1) (fun _ => rfl) (fun _ => rfl) h,
      ← List.map_filterMap, QHash.insertAll, QHash.contains_foldl_insert]
    exact List.contains_iff_mem

/-- The next number. -/
theorem toInt_of_next {l : List Int32} {id : Int32} {n : Nat} (h : l ++ [id] = numbers (l ++ [id]).length)
    (hn : n = l.length) (hlen : n < 2 ^ 31) : id.toInt = n := by
  rw [List.length_append, List.length_singleton, numbers_succ] at h
  rw [(List.cons.inj (List.append_inj' h rfl).2).1, ← hn, Int32.toInt_ofNat_of_lt hlen]

/-- The next definition of a kind has the next id. -/
theorem isNext_of_next {pre : List Record} {β : Type} {table : List β} {f : Record → Option Int32} {r : Record} {id : Int32}
    (hlen : table.length = (pre.filterMap f).length) (hid : f r = some id)
    (hnumbers : (pre ++ [r]).filterMap f = numbers ((pre ++ [r]).filterMap f).length)
    (hlength : (pre ++ [r]).length ≤ 2 ^ 31) : isNext id table := by
  have hle := List.length_filterMap_le f pre
  rw [List.length_append, List.length_singleton] at hlength
  rw [List.filterMap_append, List.filterMap_cons_some hid] at hnumbers
  exact decide_eq_true (toInt_of_next hnumbers hlen (by omega))

namespace Received

variable {pre : List Record} {c : PerfParserTestClient} (hc : Received pre c) (h : Sendable pre)

include hc

theorem length_strings : c.strings.length = (pre.filterMap Record.string?).length := by
  rw [hc.strings, ← map_fst_stringEntry, List.length_map, List.length_map]

theorem length_locations : c.locations.length = (pre.filterMap Record.location?).length := by
  rw [hc.locations, ← map_fst_locationEntry, List.length_map, List.length_map, List.length_map]

theorem length_attributes : c.attributes.length = (pre.filterMap Record.attributes?).length := by
  rw [← map_fst_attributesName, ← List.length_map (f := AttributeEvent.name), hc.attributes, List.length_map,
    List.length_map]

include h

theorem at?_strings {id : Int32} {s : QByteArray} :
    at? c.strings id = some s ↔ (id, s) ∈ pre.filterMap Record.stringEntry? := by
  rw [hc.strings]
  refine at?_eq_some_iff ?_ ((List.length_filterMap_le _ _).trans h.length)
  rw [← List.length_map (f := Prod.fst), map_fst_stringEntry]
  exact h.wellDefined.strings

theorem at?_locations {id : Int32} {l : LocationEvent} :
    at? c.locations id = some l ↔ ∃ l', (id, l') ∈ pre.filterMap Record.locationEntry? ∧ LocationEvent.of l' = l := by
  rw [hc.locations, at?_map, Option.map_eq_some_iff]
  refine exists_congr fun l' => and_congr_left' ?_
  refine at?_eq_some_iff ?_ ((List.length_filterMap_le _ _).trans h.length)
  rw [← List.length_map (f := Prod.fst), map_fst_locationEntry]
  exact h.wellDefined.locations

theorem at?_attributes {id name : Int32} :
    (at? c.attributes id).map AttributeEvent.name = some name ↔ (id, name) ∈ pre.filterMap Record.attributesName? := by
  rw [← at?_map, hc.attributes]
  refine at?_eq_some_iff ?_ ((List.length_filterMap_le _ _).trans h.length)
  rw [← List.length_map (f := Prod.fst), map_fst_attributesName]
  exact h.wellDefined.attributes

/-- A string that is mentioned is there, unless none is. -/
theorem checkString_iff {id : Int32} (hid : id = -1 ∨ id ∈ pre.filterMap Record.string?) :
    c.checkString id ↔ id ≠ -1 := by
  unfold checkString
  constructor
  · rintro hcheck rfl
    cases hcheck
  · intro hne
    rw [← map_fst_stringEntry] at hid
    obtain ⟨⟨_, s⟩, hmem, rfl⟩ := List.mem_map.1 (hid.resolve_left hne)
    rw [(hc.at?_strings h).2 hmem, Option.any_some, Bool.not_eq_true', List.isEmpty_eq_false_iff]
    exact h.nonempty _ hmem

theorem checkLocation_iff {id : Int32} : c.checkLocation id ↔ OfProcess pre id := by
  unfold checkLocation OfProcess
  rw [Option.any_eq_true]
  constructor
  · rintro ⟨l, hl, hpid⟩
    obtain ⟨l', hmem, rfl⟩ := (hc.at?_locations h).1 hl
    exact ⟨l', hmem, bne_iff_ne.1 hpid⟩
  · rintro ⟨l, hmem, hpid⟩
    exact ⟨_, (hc.at?_locations h).2 ⟨l, hmem, rfl⟩, bne_iff_ne.2 hpid⟩

/-- The attributes that are mentioned are there, with a name. -/
theorem checkAttribute_iff (hcomplete : Always Complete pre) {id : Int32}
    (hid : id = -1 ∨ id ∈ pre.filterMap Record.attributes?) : c.checkAttribute id ↔ id ≠ -1 := by
  unfold checkAttribute
  constructor
  · rintro hcheck rfl
    cases hcheck
  · intro hne
    rw [← map_fst_attributesName] at hid
    obtain ⟨⟨_, name⟩, hmem, rfl⟩ := List.mem_map.1 (hid.resolve_left hne)
    obtain ⟨r, hr, hname⟩ := List.mem_filterMap.1 hmem
    obtain ⟨before, after, rfl⟩ := List.append_of_mem hr
    obtain ⟨a, ha, rfl⟩ := Option.map_eq_some_iff.1 ((hc.at?_attributes h).2 hmem)
    rw [ha, Option.any_some]
    cases r with
    | attributesDefinition id type config attrNameId usesFrequency frequenyOrPeriod =>
      obtain ⟨rfl, heq⟩ := Prod.mk.inj (Option.some.inj hname)
      have hdefined := (h.wellDefined.references before _ after rfl).strings attrNameId List.mem_cons_self
      rw [← heq, hc.checkString_iff h]
      · exact hcomplete before _ after rfl
      · exact hdefined.imp_right fun hmem => ((List.prefix_append before _).filterMap _).subset hmem
    | _ => cases hname

/-- A location that is mentioned is there, unless none is. -/
theorem toInt_lt_of_known {id : Int32} (hid : id = -1 ∨ id ∈ pre.filterMap Record.location?) :
    id.toInt < c.locations.length := by
  rcases hid with rfl | hid
  · exact Int.lt_of_lt_of_le (by decide : (-1 : Int32).toInt < 0) (Int.natCast_nonneg _)
  · rw [h.wellDefined.locations] at hid
    obtain ⟨i, hi, rfl⟩ := mem_numbers_iff.1 hid
    have hle := (List.length_filterMap_le Record.location? pre).trans h.length
    rw [Int32.toInt_ofNat_of_lt (Nat.lt_of_lt_of_le hi hle), hc.length_locations]
    exact Int.ofNat_lt.2 hi

/-- What a sample is checked for. -/
theorem checks_sample_iff (s : SampleRecord) (hcomplete : Always Complete pre)
    (hattributes : ∀ id ∈ s.values.map Prod.fst, id = -1 ∨ id ∈ pre.filterMap Record.attributes?)
    (data : QHash Int32 QVariant) (hstrings : ∀ p ∈ data.entries, p.1 = -1 ∨ p.1 ∈ pre.filterMap Record.string?) :
    c.Checks (.sample (.of s data)) ↔ (∀ id ∈ s.frames, OfProcess pre id) ∧ (∀ v ∈ s.values, v.1 ≠ -1) ∧
      ∀ p ∈ data.entries, p.1 ≠ -1 := by
  refine and_congr (forall₂_congr fun id _ => hc.checkLocation_iff h) (and_congr (forall₂_congr fun v hv => ?_)
    (forall₂_congr fun p hp => hc.checkString_iff h (hstrings p hp)))
  exact hc.checkAttribute_iff h hcomplete (hattributes v.1 (List.mem_map_of_mem hv))

/-- **What the client asks of a message** is that its record is complete. -/
theorem checks_iff {W : Wire} {rounds : Nat} {r : Record} {e : PerfParserTestClient.Event}
    (he : W.event rounds r = some e) (hr : Sendable (pre ++ [r])) (hcomplete : Always Complete pre) :
    c.Checks e ↔ Complete pre r := by
  have hdefined : Defined pre r := hr.wellDefined.references pre r [] rfl
  have hstring : ∀ id ∈ r.stringIds, c.checkString id ↔ id ≠ -1 :=
    fun id hid => hc.checkString_iff h (hdefined.strings id hid)
  have hfile : ∀ id ∈ r.stringIds, id = -1 ∨ c.checkString id := fun id hid =>
    or_iff_not_imp_left.2 (hstring id hid).2
  have hattributes : ∀ id ∈ r.attributesIds, c.checkAttribute id ↔ id ≠ -1 :=
    fun id hid => hc.checkAttribute_iff h hcomplete (hdefined.attributes id hid)
  cases r with
  | definition d =>
    cases d with
    | string id string =>
      rw [← Option.some.inj he]
      exact iff_of_true (isNext_of_next hc.length_strings rfl hr.wellDefined.strings hr.length) trivial
    | location id l =>
      have hnext : isNext (Int32.ofInt id) c.locations :=
        isNext_of_next hc.length_locations rfl hr.wellDefined.locations hr.length
      have hparent : c.checkLocation (Int32.ofInt l.parentLocationId) ↔ OfProcess pre (Int32.ofInt l.parentLocationId) :=
        hc.checkLocation_iff h
      rw [← Option.some.inj he]
      exact (and_iff_right (hfile _ List.mem_cons_self)).trans ((and_iff_left hnext).trans (or_congr_right hparent))
    | symbol id symbol =>
      rw [← Option.some.inj he]
      refine iff_of_true ⟨hfile _ (by simp [Record.stringIds, SymbolEvent.of]),
        hfile _ (by simp [Record.stringIds, SymbolEvent.of]), ?_⟩ trivial
      exact hc.toInt_lt_of_known h (hdefined.locations _ List.mem_cons_self)
    | debugInfoDownloadProgress module url numerator denominator =>
      rw [← Option.some.inj he]
      exact iff_of_true trivial trivial
  | taskEvent t =>
    obtain ⟨pid, tid, time, cpu, type⟩ := t
    rw [← Option.some.inj he]
    cases type with
    | command commId =>
      rw [Complete, Record.stringIds, List.mem_singleton, eq_comm]
      exact hstring commId List.mem_cons_self
    | _ => exact iff_of_true trivial List.not_mem_nil
  | attributesDefinition id type config attrNameId usesFrequency frequenyOrPeriod =>
    have hnext : isNext id c.attributes :=
      isNext_of_next hc.length_attributes rfl hr.wellDefined.attributes hr.length
    rw [← Option.some.inj he, Checks, and_iff_left hnext]
    exact hstring attrNameId List.mem_cons_self
  | tracePointFormat id systemId nameId flags =>
    rw [← Option.some.inj he, Checks, Complete, hstring systemId List.mem_cons_self,
      hstring nameId (List.mem_cons_of_mem _ List.mem_cons_self), hc.tracePointFormats]
  | featuresDefinition features =>
    rw [← Option.some.inj he]
    exact iff_of_true trivial trivial
  | timeOrderViolation mmapTime lastFlushMaxTime =>
    rw [← Option.some.inj he]
    exact iff_of_true trivial trivial
  | sample s =>
    rw [← Option.some.inj he, hc.checks_sample_iff h s hcomplete hdefined.attributes [] fun p hp => by cases hp]
    exact and_congr_right' (and_iff_left fun p hp => by cases hp)
  | tracePointSample s traceData rawData =>
    obtain ⟨values, hvalues, rfl⟩ := Option.map_eq_some_iff.1 he
    have hkeys := W.mem_keys_traceVariants hvalues
    rw [hc.checks_sample_iff h s hcomplete hdefined.attributes _ fun p hp =>
      hdefined.strings p.1 ((hkeys p.1).1 (List.mem_map_of_mem hp))]
    refine and_congr_right' (and_congr_right' ?_)
    rw [← List.forall_mem_map (f := Prod.fst) (P := fun id => id ≠ -1),
      ← List.forall_mem_map (f := Prod.fst) (P := fun id => id ≠ -1)]
    exact forall_congr' fun id => imp_congr_left (hkeys id)

end Received

namespace Wire

variable {W : Wire} {rounds : Nat}

/-- **What the client asks of the tables** is that each record is complete. -/
theorem always_checks_iff {sent : List Message} : ∀ {events : List PerfParserTestClient.Event},
    sent.mapM (W.messageEvent rounds) = some events → Sendable (sent.filterMap Message.record?) →
      (Always (fun pre e => (PerfParserTestClient.received pre).Checks e) events ↔
        Always Complete (sent.filterMap Message.record?)) := by
  induction sent using List.reverseRecOn with
  | nil =>
    intro events h _
    rw [← Option.some.inj h]
    exact iff_of_true History.always_nil History.always_nil
  | append_singleton sent m ih =>
    intro events h hsendable
    rw [List.mapM_append] at h
    obtain ⟨before, hbefore, h⟩ := Option.bind_eq_some_iff.1 h
    obtain ⟨last, hlast, h⟩ := Option.bind_eq_some_iff.1 h
    rw [List.mapM_cons] at hlast
    obtain ⟨e, he, hlast⟩ := Option.bind_eq_some_iff.1 hlast
    obtain rfl : [e] = last := Option.some.inj hlast
    have hpre := hsendable.of_prefix ((List.prefix_append sent [m]).filterMap _)
    rw [← Option.some.inj h, History.always_snoc, ih hbefore hpre]
    have hother : m.record? = none → (PerfParserTestClient.received before).Checks e →
        (Always Complete (sent.filterMap Message.record?) ∧ (PerfParserTestClient.received before).Checks e ↔
          Always Complete ((sent ++ [m]).filterMap Message.record?)) := fun hnone hchecks => by
      rw [List.filterMap_append, List.filterMap_cons_none hnone, List.filterMap_nil, List.append_nil]
      exact and_iff_left hchecks
    cases m with
    | record r =>
      have hsnoc : (sent ++ [Message.record r]).filterMap Message.record? = sent.filterMap Message.record? ++ [r] :=
        List.filterMap_append
      rw [hsnoc] at hsendable ⊢
      rw [History.always_snoc]
      exact and_congr_right fun hcomplete => (Wire.received hbefore).checks_iff hpre he hsendable hcomplete
    | _ => exact hother rfl (by rw [← Option.some.inj he]; trivial)

end Wire

end PerfParser
