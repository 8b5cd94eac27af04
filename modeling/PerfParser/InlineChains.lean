import PerfParser.SymbolDefinitions
import PerfParser.SymbolNames
/-!
# InlineChains — where an inline chain is found again

For an address in inlined functions `lookupFrame` asks for the location of the innermost one, and parses the chain where
no symbol is attached to it.  It asks for a location without a relative address, and what is parsed has that of the
frame: so the next address finds the chain only where that is 0, or where the first address has found it itself.  A
location that is known keeps the parent it got first, whatever chain the address is in now (`lookupFrame_inlined_iff`).
-/
namespace PerfParser

/-- Where the debug information has an address in its sources. -/
def CuDie.source (cudie : CuDie) (address : UInt64) : SourceLocation :=
  (cudie.sourceLocation (address - cudie.bias)).getD { file := [], line := 0, column := 0 }

/-- A record of a location or of a symbol. -/
def Definition.isChain : Definition → Bool
  | .location _ _ | .symbol _ _ => true
  | .string _ _ | .debugInfoDownloadProgress _ _ _ _ => false

namespace Definitions

variable {d d' d'' : Definitions} {s : QByteArray}

/-! ## Strings -/

/-- The string has an id, or needs none. -/
def HasString (d : Definitions) (s : QByteArray) : Prop := s.isEmpty = true ∨ ∃ i, d.strings.lookup s = some i

theorem resolveString_fst (d : Definitions) (s : QByteArray) :
    (d.resolveString s).1 = if s.isEmpty then -1 else (d.strings.resolve s).1 := by
  unfold resolveString
  split <;> rfl

/-- **A string keeps its id.** -/
theorem HasString.resolveString_eq (h : d.HasString s) (hle : d.strings.Le d'.strings) :
    (d'.resolveString s).1 = (d.resolveString s).1 := by
  rw [resolveString_fst, resolveString_fst]
  rcases h with h | ⟨i, h⟩
  · rw [if_pos h, if_pos h]
  · rw [Interner.resolve_of_some h, Interner.resolve_of_some (hle.lookup h)]

theorem HasString.mono (h : d.HasString s) (hle : d.strings.Le d'.strings) : d'.HasString s :=
  h.imp_right (fun ⟨i, h⟩ => ⟨i, hle.lookup h⟩)

theorem resolveString_spec (d : Definitions) (s : QByteArray) :
    (d.resolveString s).2.HasString s ∧ ((d.resolveString s).2.resolveString s).1 = (d.resolveString s).1 := by
  cases hs : s.isEmpty with
  | true =>
    rw [resolveString_fst, resolveString_fst, if_pos hs, if_pos hs]
    exact ⟨.inl hs, rfl⟩
  | false =>
    obtain ⟨i, hi, hlookup⟩ := Interner.lookup_resolve d.strings s
    have hstrings : (d.resolveString s).2.strings = (d.strings.resolve s).2 := by
      unfold resolveString
      rw [if_neg (ne_true_of_eq_false hs)]
    refine ⟨.inr ⟨i, by rw [hstrings, hlookup]⟩, ?_⟩
    rw [resolveString_fst, resolveString_fst, if_neg (ne_true_of_eq_false hs),
      if_neg (ne_true_of_eq_false hs), hstrings, Interner.resolve_of_some hlookup, hi]

/-! ## What is sent -/

/-- The records of locations and of symbols that have been sent since. -/
def chainSince (d d' : Definitions) : List Definition := (d'.output.drop d.output.length).filter Definition.isChain

theorem chainSince_of_append (records : List Definition) (h : d'.output = d.output ++ records) :
    d.chainSince d' = records.filter Definition.isChain := by
  rw [chainSince, h, List.drop_left]

theorem output_resolveString (d : Definitions) (s : QByteArray) :
    ∃ records, (d.resolveString s).2.output = d.output ++ records ∧ records.filter Definition.isChain = [] := by
  unfold resolveString
  split
  · exact ⟨[], (List.append_nil _).symm, rfl⟩
  · dsimp only
    split
    · exact ⟨[], (List.append_nil _).symm, rfl⟩
    · exact ⟨_, rfl, rfl⟩

theorem output_resolveLocation (d : Definitions) (l : Location) : d.output <+: (d.resolveLocation l).2.output := by
  unfold resolveLocation
  dsimp only
  split
  · exact List.prefix_refl _
  · exact List.prefix_append _ _

theorem Sends.output_le (h : d.Sends d') : d.output <+: d'.output := by
  induction h with
  | refl => exact List.prefix_refl _
  | string _ s ih =>
    obtain ⟨records, hrecords, -⟩ := output_resolveString _ s
    exact ih.trans ⟨records, hrecords.symm⟩
  | location _ _ ih => exact ih.trans (output_resolveLocation _ _)
  | symbol _ _ _ ih => exact ih.trans (List.prefix_append _ _)
  | progress _ _ _ _ _ ih => exact ih.trans (List.prefix_append _ _)

theorem chainSince_trans (h : d.Sends d') (h' : d'.Sends d'') :
    d.chainSince d'' = d.chainSince d' ++ d'.chainSince d'' := by
  obtain ⟨records, hrecords⟩ := h.output_le
  obtain ⟨records', hrecords'⟩ := h'.output_le
  rw [chainSince_of_append _ hrecords.symm, chainSince_of_append _ hrecords'.symm, ← List.filter_append]
  exact chainSince_of_append _ (by rw [← hrecords', ← hrecords, List.append_assoc])

theorem chainSince_ne_nil_of_right (h : d.Sends d') (h' : d'.Sends d'') (hne : d'.chainSince d'' ≠ []) :
    d.chainSince d'' ≠ [] := by
  rw [chainSince_trans h h']
  exact List.append_ne_nil_of_right_ne_nil _ hne

theorem chainSince_ne_nil_of_left (h : d.output <+: d'.output) (h' : d'.output <+: d''.output)
    (hne : d.chainSince d' ≠ []) : d.chainSince d'' ≠ [] := by
  obtain ⟨records, hrecords⟩ := h
  obtain ⟨records', hrecords'⟩ := h'
  rw [chainSince_of_append _ hrecords.symm] at hne
  rw [chainSince_of_append (records ++ records') (by rw [← hrecords', ← hrecords, List.append_assoc]),
    List.filter_append]
  exact List.append_ne_nil_of_left_ne_nil hne _

theorem chainSince_resolveLocation (h : d.output <+: d'.output) {l : Location} (hl : d'.lookupLocation l = -1) :
    d.chainSince (d'.resolveLocation l).2 ≠ [] := by
  obtain ⟨records, hrecords⟩ := h
  have hnone : d'.locations.lookup l = none := by
    unfold lookupLocation at hl
    split at hl
    · omega
    · assumption
  have houtput : (d'.resolveLocation l).2.output =
      d.output ++ (records ++ [.location (d'.locations.resolve l).1 l]) := by
    rw [← List.append_assoc, hrecords]
    unfold resolveLocation
    dsimp only
    rw [hnone]
    rfl
  rw [chainSince_of_append _ houtput, List.filter_append]
  exact List.append_ne_nil_of_right_ne_nil _ (List.cons_ne_nil _ _)

theorem chainSince_resolveSymbol (h : d.Sends d') (id : Int) (symbol : Symbol) :
    d.chainSince (d'.resolveSymbol id symbol) ≠ [] := by
  obtain ⟨records, hrecords⟩ := h.output_le
  rw [chainSince_of_append (records ++ [.symbol id symbol]) (by
    rw [← List.append_assoc, hrecords]
    rfl), List.filter_append]
  exact List.append_ne_nil_of_right_ne_nil _ (List.cons_ne_nil _ _)

theorem hasSymbol_resolveSymbol (d : Definitions) (id : Int) (symbol : Symbol) :
    (d.resolveSymbol id symbol).hasSymbol id = true := by
  show ((d.symbols.insert id symbol).find id).isSome = true
  rw [QHash.find_insert_self]
  rfl

theorem Sends.hasSymbol (h : d.Sends d') {id : Int} (hid : d.hasSymbol id = true) : d'.hasSymbol id = true := by
  induction h with
  | refl => exact hid
  | string _ s ih => rwa [Definitions.hasSymbol, resolveString_symbols]
  | location _ _ ih => exact ih
  | @symbol d' _ id' symbol _ _ ih =>
    show (d'.symbols.insert id' symbol).contains id = true
    rw [QHash.contains, QHash.find_insert]
    split
    · rfl
    · exact ih
  | progress _ _ _ _ _ ih => exact ih

theorem Sends.files (h : ({} : Definitions).Sends d) : ∀ l ∈ d.locations.entries, d.KnowsString l.file := by
  induction h with
  | refl => exact fun l hl => (List.not_mem_nil hl).elim
  | @string d' h s ih =>
    intro l hl
    rw [locations_resolveString] at hl
    exact (Sends.refl.string s).knowsString (ih l hl)
  | location h known ih =>
    intro l hl
    rcases Interner.mem_resolve hl with hl | rfl
    · exact ih l hl
    · exact known.file
  | symbol _ _ _ ih => exact ih
  | progress _ _ _ _ _ ih => exact ih

/-! Strings and progress alone. -/

/-- No location and no symbol has been sent. -/
structure Silent (d d' : Definitions) : Prop where
  strings : d.strings.Le d'.strings
  locations : d'.locations = d.locations
  symbols : d'.symbols = d.symbols
  records : ∃ records, d'.output = d.output ++ records ∧ records.filter Definition.isChain = []

theorem Silent.refl (d : Definitions) : d.Silent d := ⟨.refl _, rfl, rfl, [], (List.append_nil _).symm, rfl⟩

theorem Silent.trans (h : d.Silent d') (h' : d'.Silent d'') : d.Silent d'' := by
  obtain ⟨records, hrecords, hnone⟩ := h.records
  obtain ⟨records', hrecords', hnone'⟩ := h'.records
  refine ⟨h.strings.trans h'.strings, h'.locations.trans h.locations, h'.symbols.trans h.symbols, records ++ records',
    ?_, ?_⟩
  · rw [hrecords', hrecords, List.append_assoc]
  · rw [List.filter_append, hnone, hnone']
    rfl

theorem Silent.knowsString (h : d.Silent d') {id : Int} (hid : d.KnowsString id) : d'.KnowsString id :=
  hid.imp_right (fun ⟨s, hs⟩ => ⟨s, h.strings.get? hs⟩)

theorem Silent.chainSince (h : d.Silent d') : d.chainSince d' = [] := by
  obtain ⟨records, hrecords, hnone⟩ := h.records
  rw [chainSince_of_append _ hrecords, hnone]

theorem Silent.chainSince_eq (h : d.Silent d') (hle : d'.output <+: d''.output) :
    d.chainSince d'' = d'.chainSince d'' := by
  obtain ⟨records, hrecords, hnone⟩ := h.records
  obtain ⟨records', hrecords'⟩ := hle
  rw [chainSince_of_append _ hrecords'.symm, chainSince_of_append (records ++ records') (by
    rw [← hrecords', hrecords, List.append_assoc]), List.filter_append, hnone, List.nil_append]

theorem silent_resolveString (d : Definitions) (s : QByteArray) : d.Silent (d.resolveString s).2 :=
  ⟨strings_le_resolveString d s, locations_resolveString d s, resolveString_symbols d s, output_resolveString d s⟩

theorem silent_downloadProgress (d : Definitions) (module : Int) (download : Download) :
    d.Silent (d.downloadProgress module download) :=
  (silent_resolveString d download.url).trans ⟨.refl _, rfl, rfl, _, rfl, rfl⟩

theorem silent_findDebugInfo (d : Definitions) (search : DebugInfoSearch) : d.Silent (d.findDebugInfo search) := by
  have hdownloads : ∀ (downloads : List Download) (module : Int) (d : Definitions),
      d.Silent (downloads.foldl (downloadProgress module) d) := by
    intro downloads module
    induction downloads with
    | nil => exact Silent.refl
    | cons download downloads ih => exact fun d => (d.silent_downloadProgress module download).trans (ih _)
  exact (silent_resolveString d search.moduleName).trans (hdownloads _ _ _)

theorem silent_findAllDebugInfo (d : Definitions) (sources : SymbolSources) : d.Silent (d.findAllDebugInfo sources) := by
  have hsearches : ∀ (searches : List DebugInfoSearch) (d : Definitions), d.Silent (searches.foldl findDebugInfo d) := by
    intro searches
    induction searches with
    | nil => exact Silent.refl
    | cons search searches ih => exact fun d => (d.silent_findDebugInfo search).trans (ih _)
  exact hsearches _ d

/-! ## Functions -/

/-- The location of a function of a process, with a relative address. -/
def functionAt (d : Definitions) (bias : UInt64) (pid : Int32) (relAddr : UInt64) (die : Die) : Location where
  address := die.entry.getD 0 + bias
  relAddr := relAddr
  file := (d.resolveString die.declFile).1
  pid := pid.toUInt32
  line := die.declLine.getD 0
  column := die.declColumn.getD 0

/-- A symbol is attached to the location that `lookupFrame` asks for. -/
def HasFunction (d : Definitions) (bias : UInt64) (pid : Int32) (die : Die) : Prop :=
  d.hasSymbol (d.lookupLocation (d.functionAt bias pid 0 die)) = true

instance (d : Definitions) (bias : UInt64) (pid : Int32) (die : Die) : Decidable (d.HasFunction bias pid die) :=
  inferInstanceAs (Decidable (_ = _))

/-- The id is that of a function's location, with a symbol. -/
structure Attached (d : Definitions) (bias : UInt64) (pid : Int32) (relAddr : UInt64) (die : Die) (id : Int) : Prop where
  file : d.HasString die.declFile
  location : ∃ l, d.locations.get? id = some l ∧ l.key = d.functionAt bias pid relAddr die
  symbol : d.hasSymbol id = true

variable {bias : UInt64} {pid : Int32} {relAddr : UInt64} {die : Die} {id : Int}

theorem functionAt_of_le (h : d.HasString die.declFile) (hle : d.strings.Le d'.strings) :
    d'.functionAt bias pid relAddr die = d.functionAt bias pid relAddr die := by
  rw [functionAt, functionAt, h.resolveString_eq hle]

theorem functionAt_resolveLocation (d : Definitions) (l : Location) :
    (d.resolveLocation l).2.functionAt bias pid relAddr die = d.functionAt bias pid relAddr die := by
  rw [functionAt, resolveString_fst, functionAt, resolveString_fst]
  rfl

theorem functionAt_resolveSymbol (d : Definitions) (id : Int) (symbol : Symbol) :
    (d.resolveSymbol id symbol).functionAt bias pid relAddr die = d.functionAt bias pid relAddr die := by
  rw [functionAt, resolveString_fst, functionAt, resolveString_fst]
  rfl

theorem Attached.sends (h : d.Attached bias pid relAddr die id) (hsends : d.Sends d') :
    d'.Attached bias pid relAddr die id := by
  obtain ⟨l, hl, hkey⟩ := h.location
  exact ⟨h.file.mono hsends.strings_le, ⟨l, hsends.locations_le.get? hl, by
    rw [hkey, functionAt_of_le h.file hsends.strings_le]⟩, hsends.hasSymbol h.symbol⟩

/-- An id is that of one function with one relative address. -/
theorem Attached.relAddr_eq {relAddr' : UInt64} (h : d.Attached bias pid relAddr die id)
    (h' : d.Attached bias pid relAddr' die id) : relAddr = relAddr' := by
  obtain ⟨l, hl, hkey⟩ := h.location
  obtain ⟨l', hl', hkey'⟩ := h'.location
  rw [hl, Option.some.injEq] at hl'
  subst hl'
  exact congrArg Location.relAddr (hkey.symm.trans hkey')

theorem Attached.id_eq {id' : Int} (h : d.Attached bias pid relAddr die id) (h' : d.Attached bias pid relAddr die id') :
    id = id' := by
  obtain ⟨l, hl, hkey⟩ := h.location
  obtain ⟨l', hl', hkey'⟩ := h'.location
  exact Interner.get?_inj hl hl' (hkey.trans hkey'.symm)

theorem Attached.ne_none (h : d.Attached bias pid relAddr die id) : id ≠ -1 := by
  obtain ⟨l, hl, -⟩ := h.location
  obtain ⟨i, hi, -⟩ := Interner.get?_lt hl
  omega

theorem Attached.lookupLocation_eq (h : d.Attached bias pid 0 die id) :
    d.lookupLocation (d.functionAt bias pid 0 die) = id := by
  obtain ⟨l, hl, hkey⟩ := h.location
  obtain ⟨i, rfl, -⟩ := Interner.get?_lt hl
  rw [lookupLocation, Interner.lookup_of_get? hl (b := d.functionAt bias pid 0 die) hkey]

theorem Attached.hasFunction (h : d.Attached bias pid 0 die id) : d.HasFunction bias pid die := by
  rw [HasFunction, h.lookupLocation_eq]
  exact h.symbol

/-- A new file is that of no location yet. -/
theorem not_knowsString_new (hle : d.strings.Le d'.strings) (h : ¬d.HasString s) :
    ¬d.KnowsString (d'.resolveString s).1 := by
  have hs : ¬s.isEmpty = true := fun hs => h (.inl hs)
  rw [resolveString_fst, if_neg hs]
  rintro (hid | ⟨s', hs'⟩)
  · have hnonneg := Interner.resolve_nonneg d'.strings s
    omega
  · obtain ⟨b, hb, hkey⟩ := Interner.get?_resolve d'.strings s
    have hsame := ((hle.trans (Interner.le_resolve _ _)).get? hs').symm.trans hb
    rw [Option.some.injEq] at hsame
    subst hsame
    obtain ⟨i, hi, -⟩ := Interner.get?_lt hs'
    rw [hi] at hs'
    exact h (.inr ⟨i, Interner.lookup_of_get? hs' hkey⟩)

theorem get?_lookupLocation {l : Location} (h : d.lookupLocation l = id) (hid : id ≠ -1) :
    ∃ l', d.locations.get? id = some l' ∧ l'.key = l.key := by
  unfold lookupLocation at h
  split at h
  · rename_i i hlookup
    rw [← h]
    exact Interner.get?_of_lookup hlookup
  · exact absurd h.symm hid

theorem lookupLocation_unknown (hfiles : ∀ l ∈ d.locations.entries, d.KnowsString l.file) {l : Location}
    (hl : ¬d.KnowsString l.file) : d.lookupLocation l = -1 := by
  have hnone : d.locations.lookup l = none := Interner.lookup_eq_none.2 (fun b hb hkey => by
    refine hl ?_
    rw [show l.file = b.file from (congrArg Location.file hkey).symm]
    exact hfiles b hb)
  rw [lookupLocation, hnone]

/-- A location in a file. -/
def locationIn (d : Definitions) (l : Location) (file : QByteArray) : Location :=
  { l with file := (d.resolveString file).1 }

theorem locationIn_of_le {l : Location} (h : d.HasString s) (hle : d.strings.Le d'.strings) :
    d'.locationIn l s = d.locationIn l s := by
  rw [locationIn, locationIn, h.resolveString_eq hle]

/-- **Where nothing but strings has been sent, the same location is found**, whenever the file gets its id. -/
theorem Silent.lookupLocation_locationIn (h : d.Silent d') (hfiles : ∀ l ∈ d.locations.entries, d.KnowsString l.file)
    (l : Location) (s : QByteArray) :
    d'.lookupLocation (d'.locationIn l s) = d.lookupLocation (d.locationIn l s) := by
  by_cases hs : d.HasString s
  · rw [locationIn_of_le hs h.strings, lookupLocation, lookupLocation, h.locations]
  · have hold := lookupLocation_unknown hfiles (l := d.locationIn l s) (not_knowsString_new (.refl _) hs)
    have hnew := lookupLocation_unknown hfiles (l := d'.locationIn l s) (not_knowsString_new h.strings hs)
    rw [hold, lookupLocation, h.locations]
    exact hnew

theorem Silent.lookupLocation_eq (h : d.Silent d') (hfiles : ∀ l ∈ d.locations.entries, d.KnowsString l.file) :
    d'.lookupLocation (d'.functionAt bias pid relAddr die) = d.lookupLocation (d.functionAt bias pid relAddr die) :=
  h.lookupLocation_locationIn hfiles (functionAt {} bias pid relAddr die) die.declFile

theorem Silent.hasFunction_iff (h : d.Silent d') (hfiles : ∀ l ∈ d.locations.entries, d.KnowsString l.file) :
    d'.HasFunction bias pid die ↔ d.HasFunction bias pid die := by
  rw [HasFunction, HasFunction, h.lookupLocation_eq hfiles, Definitions.hasSymbol, Definitions.hasSymbol, h.symbols]

/-! ## Addresses -/

/-- The parent of the location with an id. -/
def parentOf (d : Definitions) (id : Int) : Option Int := (d.locations.get? id).map Location.parentLocationId

/-- The parent of a location, where it is known. -/
def parentAt (d : Definitions) (l : Location) : Option Int := d.parentOf (d.lookupLocation l)

theorem parentOf_of_get? {l : Location} (h : d.locations.get? id = some l) : d.parentOf id = some l.parentLocationId := by
  rw [parentOf, h]
  rfl

theorem parentAt_of_none {l : Location} (h : d.lookupLocation l = -1) : d.parentAt l = none := by
  rw [parentAt, h]
  rfl

theorem parentAt_of_get? {l l' : Location} (hl : d.locations.get? id = some l') (hkey : l'.key = l.key) :
    d.parentAt l = some l'.parentLocationId := by
  obtain ⟨i, rfl, -⟩ := Interner.get?_lt hl
  rw [parentAt, lookupLocation, Interner.lookup_of_get? hl hkey]
  exact parentOf_of_get? hl

/-- **A location that is known keeps its parent**, whatever parent is asked for. -/
theorem get?_resolveLocation_parent (d : Definitions) (l : Location) :
    ∃ l', (d.resolveLocation l).2.locations.get? (d.resolveLocation l).1 = some l' ∧ l'.key = l.key ∧
      l'.parentLocationId = (d.parentAt l).getD l.parentLocationId := by
  cases h : d.locations.lookup l with
  | none =>
    have hnew : ∀ b ∈ d.locations.entries, b.key ≠ l.key := Interner.lookup_eq_none.1 h
    have hnone : d.lookupLocation l = -1 := by rw [lookupLocation, h]
    refine ⟨l, Interner.get?_resolve_new hnew, rfl, ?_⟩
    rw [parentAt_of_none hnone]
    rfl
  | some i =>
    obtain ⟨l', hl', hkey⟩ := Interner.get?_of_lookup h
    refine ⟨l', ?_, hkey, ?_⟩
    · show (d.locations.resolve l).2.get? (d.locations.resolve l).1 = _
      rw [Interner.resolve_of_some h]
      exact hl'
    · rw [parentAt_of_get? hl' hkey]
      rfl

theorem mem_resolveLocation {l b : Location} (h : b ∈ (d.resolveLocation l).2.locations.entries) :
    b ∈ d.locations.entries ∨ b = l := Interner.mem_resolve h

theorem locations_resolveSymbol (d : Definitions) (id : Int) (symbol : Symbol) :
    (d.resolveSymbol id symbol).locations = d.locations := rfl

/-- The location of an address, in the line that the debug information has for it. -/
def addressAt (d : Definitions) (cudie : CuDie) (pid : Int32) (relAddr address : UInt64) : Location :=
  d.locationIn { address := address, relAddr := relAddr, pid := pid.toUInt32, line := (cudie.source address).line,
                 column := (cudie.source address).column } (cudie.source address).file

theorem lookupLocation_of_key {l l' : Location} (h : l.key = l'.key) : d.lookupLocation l = d.lookupLocation l' := by
  rw [lookupLocation, lookupLocation, Interner.lookup, Interner.lookup, h]

theorem parentAt_of_key {l l' : Location} (h : l.key = l'.key) : d.parentAt l = d.parentAt l' := by
  rw [parentAt, lookupLocation_of_key h, parentAt]

theorem Silent.parentAt_addressAt (h : d.Silent d') (hfiles : ∀ l ∈ d.locations.entries, d.KnowsString l.file)
    (cudie : CuDie) (pid : Int32) (relAddr address : UInt64) :
    d'.parentAt (d'.addressAt cudie pid relAddr address) = d.parentAt (d.addressAt cudie pid relAddr address) := by
  rw [parentAt, addressAt, h.lookupLocation_locationIn hfiles, parentOf, h.locations]
  rfl

/-- **A location that nothing has been sent for is new**, where what has been sent is at other addresses. -/
theorem lookupLocation_addressAt (hsilent : d.Silent d') (hfiles : ∀ l ∈ d.locations.entries, d.KnowsString l.file)
    {cudie : CuDie} {pid : Int32} {relAddr address : UInt64} (hfile : d'.HasString (cudie.source address).file)
    (hnone : d.lookupLocation (d.addressAt cudie pid relAddr address) = -1) (hstrings : d'.strings.Le d''.strings)
    (hlocations : ∀ l ∈ d''.locations.entries, l ∈ d'.locations.entries ∨ l.address ≠ address) :
    d''.lookupLocation (d''.addressAt cudie pid relAddr address) = -1 := by
  have hnone' : d'.lookupLocation (d'.addressAt cudie pid relAddr address) = -1 :=
    (hsilent.lookupLocation_locationIn hfiles _ _).trans hnone
  rw [addressAt, locationIn_of_le hfile hstrings, ← addressAt]
  by_contra hne
  obtain ⟨l, hl, hkey⟩ := get?_lookupLocation rfl hne
  rcases hlocations l (Interner.mem_of_get? hl) with hmem | haddress
  · obtain ⟨i, hi⟩ := Interner.get?_of_mem hmem
    rw [lookupLocation, Interner.lookup_of_get? hi hkey] at hnone'
    dsimp only at hnone'
    omega
  · exact haddress (congrArg Location.address hkey)

end Definitions

open Definitions (Sends Silent)

/-! ## Parsing a chain -/

section Parse

variable {x : SymbolContext} {d : Definitions} (bias : UInt64) (die : Die)

/-- What is parsed has the relative address of the frame. -/
theorem insertSubprogram_attached {inlineCallLocationId : Int}
    (hcall : d.KnowsLocation inlineCallLocationId) (isInline : Bool) :
    (insertSubprogram x d die (bias + die.entry.getD 0) inlineCallLocationId isInline).2.Attached bias x.pid x.relAddr die
        (insertSubprogram x d die (bias + die.entry.getD 0) inlineCallLocationId isInline).1 ∧
      d.chainSince (insertSubprogram x d die (bias + die.entry.getD 0) inlineCallLocationId isInline).2 ≠ [] := by
  obtain ⟨hfile, hsame⟩ := d.resolveString_spec die.declFile
  unfold insertSubprogram
  dsimp only
  generalize hd₁ : (d.resolveString die.declFile).2 = d₁ at hfile hsame
  generalize hl :
    ({ address := bias + die.entry.getD 0, relAddr := x.relAddr, file := (d.resolveString die.declFile).1,
       pid := x.pid.toUInt32, line := die.declLine.getD 0, column := die.declColumn.getD 0,
       parentLocationId := inlineCallLocationId } : Location) = l
  have hsends : d.Sends d₁ := hd₁ ▸ Sends.refl.string die.declFile
  have hknown : d₁.LocationKnown l := by
    subst hd₁ hl
    exact ⟨d.knowsString_resolveString die.declFile, hsends.knowsLocation hcall⟩
  have hlocation : d₁.Sends (d₁.resolveLocation l).2 := Sends.refl.location hknown
  obtain ⟨l', hget, hkey⟩ := d₁.get?_resolveLocation l
  generalize (d₁.resolveLocation l).2 = d₂ at hlocation hget
  generalize (d₁.resolveLocation l).1 = id at hget
  have hname : d₂.Sends (d₂.resolveString die.name).2 := Sends.refl.string die.name
  generalize (d₂.resolveString die.name).2 = d₃ at hname
  have hafter := hlocation.trans hname
  refine ⟨⟨hfile.mono hafter.strings_le, ⟨l', hname.locations_le.get? hget, ?_⟩, ?_⟩, ?_⟩
  · rw [hkey, Definitions.functionAt_resolveSymbol, Definitions.functionAt_of_le hfile hafter.strings_le,
      Definitions.functionAt, hsame, ← hl, UInt64.add_comm bias]
    rfl
  · exact d₃.hasSymbol_resolveSymbol id _
  · exact Definitions.chainSince_resolveSymbol (hsends.trans hafter) id _

theorem parseDie_attached (hx : x.Known d) {parentLocationId : Int} (hparent : d.KnowsLocation parentLocationId) :
    (parseDie x d die (bias + die.entry.getD 0) parentLocationId).2.Attached bias x.pid x.relAddr die
        (parseDie x d die (bias + die.entry.getD 0) parentLocationId).1 ∧
      d.chainSince (parseDie x d die (bias + die.entry.getD 0) parentLocationId).2 ≠ [] := by
  unfold parseDie
  split
  · have hfile := Sends.refl.string (d := d) die.callFile
    obtain ⟨hcall, hcallId⟩ := hfile.resolveLocation
      (l := { address := bias + die.entry.getD 0, file := (d.resolveString die.callFile).1, pid := x.pid.toUInt32,
              line := die.callLine.getD (-1), column := die.callColumn.getD (-1), parentLocationId := parentLocationId })
      ⟨d.knowsString_resolveString die.callFile, hfile.knowsLocation hparent⟩
    obtain ⟨hattached, hsent⟩ := insertSubprogram_attached bias die hcallId true
    have hinsert := (insertSubprogram_sends (hx.sends hcall) die (bias + die.entry.getD 0) hcallId true).1
    exact ⟨hattached, Definitions.chainSince_ne_nil_of_right hcall hinsert hsent⟩
  · exact insertSubprogram_attached bias die d.knowsLocation_none false

/-- The last scope's location is the one that is returned. -/
theorem parseDwarf_attached : ∀ (dies : List Die) {d : Definitions} {parentLocationId : Int}, x.Known d →
    d.KnowsLocation parentLocationId →
    (parseDwarf x bias d parentLocationId (dies ++ [die])).2.Attached bias x.pid x.relAddr die
        (parseDwarf x bias d parentLocationId (dies ++ [die])).1 ∧
      d.chainSince (parseDwarf x bias d parentLocationId (dies ++ [die])).2 ≠ []
  | [], d, parentLocationId, hx, hparent => by
    obtain ⟨hattached, hsent⟩ := parseDie_attached bias die hx hparent
    rw [List.nil_append, parseDwarf]
    dsimp only
    rw [parseDwarf, if_pos hattached.ne_none]
    exact ⟨hattached, hsent⟩
  | die' :: dies, d, parentLocationId, hx, hparent => by
    obtain ⟨hattached, -⟩ := parseDie_attached bias die' hx hparent
    obtain ⟨hsends, hid⟩ := parseDie_sends hx die' (bias + die'.entry.getD 0) hparent
    obtain ⟨hlast, hsent⟩ := parseDwarf_attached dies (hx.sends hsends) hid
    have hrest := (parseDwarf_sends bias (dies ++ [die]) (hx.sends hsends) hid).1
    rw [List.cons_append, parseDwarf]
    dsimp only
    rw [if_pos hattached.ne_none]
    exact ⟨hlast, Definitions.chainSince_ne_nil_of_right hsends hrest hsent⟩

/-! The locations of a chain are at the entries of its functions. -/

theorem insertSubprogram_locations (entry : UInt64) (inlineCallLocationId : Int) (isInline : Bool) :
    ∀ l ∈ (insertSubprogram x d die entry inlineCallLocationId isInline).2.locations.entries,
      l ∈ d.locations.entries ∨ l.address = entry := by
  intro l hl
  unfold insertSubprogram at hl
  dsimp only at hl
  rw [Definitions.locations_resolveSymbol, Definitions.locations_resolveString] at hl
  rcases Definitions.mem_resolveLocation hl with hl | rfl
  · rw [Definitions.locations_resolveString] at hl
    exact .inl hl
  · exact .inr rfl

theorem parseDie_locations (entry : UInt64) (parentLocationId : Int) :
    ∀ l ∈ (parseDie x d die entry parentLocationId).2.locations.entries,
      l ∈ d.locations.entries ∨ l.address = entry := by
  intro l hl
  unfold parseDie at hl
  split at hl
  · dsimp only at hl
    rcases insertSubprogram_locations die entry _ true l hl with hl | hl
    · rcases Definitions.mem_resolveLocation hl with hl | rfl
      · rw [Definitions.locations_resolveString] at hl
        exact .inl hl
      · exact .inr rfl
    · exact .inr hl
  · exact insertSubprogram_locations die entry (-1) false l hl

theorem parseDwarf_locations : ∀ (dies : List Die) (d : Definitions) (parentLocationId : Int),
    ∀ l ∈ (parseDwarf x bias d parentLocationId dies).2.locations.entries,
      l ∈ d.locations.entries ∨ ∃ die ∈ dies, l.address = bias + die.entry.getD 0
  | [], _, _, _, hl => .inl hl
  | die :: dies, d, parentLocationId, l, hl => by
    rcases parseDwarf_locations dies _ _ l hl with hl | ⟨die', hdie', haddress⟩
    · exact (parseDie_locations die _ parentLocationId l hl).imp_right (fun h => ⟨die, List.mem_cons_self, h⟩)
    · exact .inr ⟨die', List.mem_cons_of_mem _ hdie', haddress⟩

end Parse

/-! ## The innermost function -/

section Innermost

variable {x : SymbolContext} {d : Definitions} {l : Lookup} {functionLocation : Location} (bias : UInt64)
  {subprogram : SubprogramDie}

/-- The innermost of the scopes, or the subprogram. -/
def SubprogramDie.innermost (subprogram : SubprogramDie) : Die := subprogram.scopes.getLast?.getD subprogram.die

theorem SubprogramDie.scopes_eq (hscopes : subprogram.scopes ≠ []) :
    ∃ dies, subprogram.die :: subprogram.scopes = dies ++ [subprogram.innermost] := by
  refine ⟨subprogram.die :: subprogram.scopes.dropLast, ?_⟩
  rw [innermost, List.getLast?_eq_some_getLast hscopes, Option.getD_some, List.cons_append,
    List.dropLast_append_getLast hscopes]

/-- The lookup has no source for its function but the address. -/
structure Location.Bare (functionLocation : Location) (pid : Int32) : Prop where
  relAddr : functionLocation.relAddr = 0
  pid : functionLocation.pid = pid.toUInt32
  line : functionLocation.line = 0
  column : functionLocation.column = 0
  parent : functionLocation.parentLocationId = -1

theorem dieLocation_eq (hf : functionLocation.Bare x.pid) (d : Definitions) (die : Die) :
    dieLocation bias functionLocation (d.resolveString die.declFile).1 die = d.functionAt bias x.pid 0 die := by
  obtain ⟨address, relAddr, file, pid, line, column, parent⟩ := functionLocation
  obtain ⟨rfl, rfl, rfl, rfl, rfl⟩ := hf
  rfl

/-- Whether the chain is found, or parsed. -/
theorem setSubprogram_eq (hf : functionLocation.Bare x.pid) (hscopes : subprogram.scopes ≠ []) :
    l.setSubprogram x bias functionLocation (some subprogram) =
      let key := l.definitions.functionAt bias x.pid 0 subprogram.innermost
      let d := (l.definitions.resolveString subprogram.innermost.declFile).2
      let (parent, d) :=
        if l.definitions.HasFunction bias x.pid subprogram.innermost then (l.definitions.lookupLocation key, d)
        else parseDwarf x bias d (-1) (subprogram.die :: subprogram.scopes)
      ({ l with
          symname := subprogram.innermost.name
          definitions := d
          addressLocation := { l.addressLocation with parentLocationId := parent } }, key) := by
  have hlocation := dieLocation_eq bias hf l.definitions subprogram.innermost
  have hlookup : (l.definitions.resolveString subprogram.innermost.declFile).2.lookupLocation
      (l.definitions.functionAt bias x.pid 0 subprogram.innermost) =
        l.definitions.lookupLocation (l.definitions.functionAt bias x.pid 0 subprogram.innermost) := by
    rw [Definitions.lookupLocation, Definitions.locations_resolveString, Definitions.lookupLocation]
  unfold Lookup.setSubprogram
  dsimp only
  rw [show subprogram.scopes.getLast?.getD subprogram.die = subprogram.innermost from rfl, hlocation, hlookup,
    Definitions.hasSymbol, Definitions.resolveString_symbols, ← Definitions.hasSymbol]
  by_cases h : l.definitions.HasFunction bias x.pid subprogram.innermost
  · rw [if_neg (fun h' => h'.2 h), if_pos h]
  · rw [if_pos ⟨hscopes, h⟩, if_neg h]

/-- The function of an address in inlined ones, and the symbol of the function. -/
def Lookup.enter (x : SymbolContext) (bias : UInt64) (functionLocation : Location) (l : Lookup)
    (subprogram : SubprogramDie) (x' : SymbolContext) : Lookup :=
  let (l, functionLocation) := l.setSubprogram x bias functionLocation (some subprogram)
  (l.resolveFunction functionLocation).resolveSymbol x'

/-- A parent that has its symbol is left alone. -/
theorem resolveSymbol_resolveFunction_eq {d : Definitions} {id : Int} (hid : id ≠ -1) (hsymbol : d.hasSymbol id = true)
    (x : SymbolContext) (hparent : l.addressLocation.parentLocationId = id) (hd : l.definitions = d) :
    (l.resolveFunction functionLocation).resolveSymbol x = l := by
  subst hparent hd
  rw [Lookup.resolveFunction, if_neg hid, Lookup.resolveSymbol, if_pos hsymbol]

theorem output_resolveSymbol (l : Lookup) (x : SymbolContext) :
    l.definitions.output <+: (l.resolveSymbol x).definitions.output := by
  unfold Lookup.resolveSymbol
  split
  · exact List.prefix_refl _
  · obtain ⟨records, hrecords, -⟩ := Definitions.output_resolveString l.definitions l.symname
    exact List.IsPrefix.trans ⟨records, hrecords.symm⟩ (List.prefix_append _ _)

theorem resolveSymbol_attached {pid : Int32} {relAddr : UInt64} {die : Die} (hfile : l.definitions.HasString die.declFile)
    (hlocation : ∃ location, l.definitions.locations.get? l.addressLocation.parentLocationId = some location ∧
      location.key = l.definitions.functionAt bias pid relAddr die) (x : SymbolContext) :
    (l.resolveSymbol x).definitions.Attached bias pid relAddr die
      (l.resolveSymbol x).addressLocation.parentLocationId := by
  unfold Lookup.resolveSymbol
  split
  · rename_i hsymbol
    exact ⟨hfile, hlocation, hsymbol⟩
  · obtain ⟨location, hget, hkey⟩ := hlocation
    have hle := Definitions.strings_le_resolveString l.definitions l.symname
    refine ⟨hfile.mono hle, ⟨location, ?_, ?_⟩, Definitions.hasSymbol_resolveSymbol _ _ _⟩
    · show (l.definitions.resolveString l.symname).2.locations.get? _ = _
      rw [Definitions.locations_resolveString, hget]
    · dsimp only
      rw [hkey, Definitions.functionAt_resolveSymbol, Definitions.functionAt_of_le hfile hle]

/-- **The chain that is found**: nothing is sent for it, where its location is known. -/
theorem enter_found (hf : functionLocation.Bare x.pid) (hscopes : subprogram.scopes ≠ [])
    (h : l.definitions.HasFunction bias x.pid subprogram.innermost) (x' : SymbolContext) :
    (l.enter x bias functionLocation subprogram x').definitions.Attached bias x.pid 0 subprogram.innermost
        (l.enter x bias functionLocation subprogram x').addressLocation.parentLocationId ∧
      if l.definitions.lookupLocation (l.definitions.functionAt bias x.pid 0 subprogram.innermost) = -1 then
        l.definitions.chainSince (l.enter x bias functionLocation subprogram x').definitions ≠ []
      else l.definitions.Silent (l.enter x bias functionLocation subprogram x').definitions := by
  obtain ⟨hfile, hsame⟩ := l.definitions.resolveString_spec subprogram.innermost.declFile
  have hkey : (l.definitions.resolveString subprogram.innermost.declFile).2.functionAt bias x.pid 0 subprogram.innermost =
      l.definitions.functionAt bias x.pid 0 subprogram.innermost := by
    rw [Definitions.functionAt, hsame, Definitions.functionAt]
  have hsilent := l.definitions.silent_resolveString subprogram.innermost.declFile
  rw [Lookup.enter, setSubprogram_eq bias hf hscopes]
  dsimp only
  rw [if_pos h]
  dsimp only
  unfold Definitions.HasFunction at h
  generalize hid : l.definitions.lookupLocation (l.definitions.functionAt bias x.pid 0 subprogram.innermost) = id at h ⊢
  generalize (l.definitions.resolveString subprogram.innermost.declFile).2 = d at hfile hkey hsilent ⊢
  have hsymbol : d.hasSymbol id = true := by rwa [Definitions.hasSymbol, hsilent.symbols]
  by_cases hnone : id = -1
  · subst hnone
    rw [Lookup.resolveFunction, if_pos rfl, if_pos rfl]
    obtain ⟨location, hget, hkey'⟩ := d.get?_resolveLocation (l.definitions.functionAt bias x.pid 0 subprogram.innermost)
    constructor
    · refine resolveSymbol_attached bias hfile ⟨location, hget, ?_⟩ x'
      dsimp only
      rw [hkey', Definitions.functionAt_resolveLocation, hkey]
      rfl
    · obtain ⟨records, hrecords, -⟩ := hsilent.records
      have hprefix : l.definitions.output <+: d.output := ⟨records, hrecords.symm⟩
      have hlookup : d.lookupLocation (l.definitions.functionAt bias x.pid 0 subprogram.innermost) = -1 := by
        rw [Definitions.lookupLocation, hsilent.locations]
        exact hid
      have hsent : ∀ l' : Lookup, l'.definitions =
          (d.resolveLocation (l.definitions.functionAt bias x.pid 0 subprogram.innermost)).2 →
          l.definitions.chainSince (l'.resolveSymbol x').definitions ≠ [] := by
        intro l' hl'
        refine Definitions.chainSince_ne_nil_of_left ?_ (output_resolveSymbol l' x') ?_
        · rw [hl']
          exact hprefix.trans (Definitions.output_resolveLocation d _)
        · rw [hl']
          exact Definitions.chainSince_resolveLocation hprefix hlookup
      exact hsent _ rfl
  · rw [resolveSymbol_resolveFunction_eq hnone hsymbol x' rfl rfl, if_neg hnone]
    obtain ⟨location, hget, hkey'⟩ := Definitions.get?_lookupLocation hid hnone
    exact ⟨⟨hfile, ⟨location, by rw [hsilent.locations, hget], by rw [hkey', hkey]; rfl⟩, hsymbol⟩, hsilent⟩

/-- **The chain that is parsed**: it has the relative address of the frame, and its symbols are sent. -/
theorem enter_parsed (hx : x.Known l.definitions) (hf : functionLocation.Bare x.pid) (hscopes : subprogram.scopes ≠ [])
    (h : ¬l.definitions.HasFunction bias x.pid subprogram.innermost) (x' : SymbolContext) :
    (l.enter x bias functionLocation subprogram x').definitions.Attached bias x.pid x.relAddr subprogram.innermost
        (l.enter x bias functionLocation subprogram x').addressLocation.parentLocationId ∧
      l.definitions.Sends (l.enter x bias functionLocation subprogram x').definitions ∧
      l.definitions.chainSince (l.enter x bias functionLocation subprogram x').definitions ≠ [] := by
  obtain ⟨dies, hdies⟩ := SubprogramDie.scopes_eq hscopes
  have hfile := Sends.refl.string (d := l.definitions) subprogram.innermost.declFile
  obtain ⟨hattached, hsent⟩ := parseDwarf_attached (x := x) bias subprogram.innermost dies (hx.sends hfile)
    (Definitions.knowsLocation_none _)
  have hparse := (parseDwarf_sends bias (dies ++ [subprogram.innermost]) (hx.sends hfile)
    (Definitions.knowsLocation_none _)).1
  rw [Lookup.enter, setSubprogram_eq bias hf hscopes]
  dsimp only
  rw [if_neg h, hdies]
  rw [resolveSymbol_resolveFunction_eq hattached.ne_none hattached.symbol x' rfl rfl]
  exact ⟨hattached, hfile.trans hparse, Definitions.chainSince_ne_nil_of_right hfile hparse hsent⟩

/-- The location of the address is entered as it is, but for its parent. -/
theorem enter_address (x x' : SymbolContext) (functionLocation : Location) :
    (l.enter x bias functionLocation subprogram x').relAddr = l.relAddr ∧
      (l.enter x bias functionLocation subprogram x').addressLocation.key = l.addressLocation.key := by
  have hfunction : ∀ (l : Lookup) (functionLocation : Location),
      (l.resolveFunction functionLocation).relAddr = l.relAddr ∧
        (l.resolveFunction functionLocation).addressLocation.key = l.addressLocation.key := by
    intro l functionLocation
    unfold Lookup.resolveFunction
    split <;> exact ⟨rfl, rfl⟩
  unfold Lookup.enter
  dsimp only
  obtain ⟨haddress, -, hrelAddr⟩ := Lookups.frame_resolveSymbol ((l.setSubprogram x bias functionLocation
    (some subprogram)).1.resolveFunction (l.setSubprogram x bias functionLocation (some subprogram)).2) x'
  rw [haddress, hrelAddr, (hfunction _ _).1, (hfunction _ _).2]
  exact ⟨rfl, rfl⟩

theorem enter_grows (hx : x.Known l.definitions) (hf : functionLocation.Bare x.pid) (hscopes : subprogram.scopes ≠ [])
    (x' : SymbolContext) :
    l.definitions.strings.Le (l.enter x bias functionLocation subprogram x').definitions.strings ∧
      l.definitions.output <+: (l.enter x bias functionLocation subprogram x').definitions.output := by
  by_cases h : l.definitions.HasFunction bias x.pid subprogram.innermost
  · have hresolve : ∀ (d : Definitions) (l : Lookup) (functionLocation : Location), d.strings.Le l.definitions.strings →
        d.output <+: l.definitions.output →
        d.strings.Le ((l.resolveFunction functionLocation).resolveSymbol x').definitions.strings ∧
          d.output <+: ((l.resolveFunction functionLocation).resolveSymbol x').definitions.output := by
      intro d l functionLocation hstrings houtput
      have hfunction : d.strings.Le (l.resolveFunction functionLocation).definitions.strings ∧
          d.output <+: (l.resolveFunction functionLocation).definitions.output := by
        unfold Lookup.resolveFunction
        split
        · exact ⟨hstrings, houtput.trans (Definitions.output_resolveLocation _ _)⟩
        · exact ⟨hstrings, houtput⟩
      refine ⟨?_, hfunction.2.trans (output_resolveSymbol _ _)⟩
      unfold Lookup.resolveSymbol
      split
      · exact hfunction.1
      · exact hfunction.1.trans (Definitions.strings_le_resolveString _ _)
    have hfile := Sends.refl.string (d := l.definitions) subprogram.innermost.declFile
    rw [Lookup.enter, setSubprogram_eq bias hf hscopes]
    dsimp only
    rw [if_pos h]
    exact hresolve _ _ _ hfile.strings_le hfile.output_le
  · obtain ⟨-, hsends, -⟩ := enter_parsed bias hx hf hscopes h x'
    exact ⟨hsends.strings_le, hsends.output_le⟩

theorem innermost_mem : subprogram.innermost ∈ subprogram.die :: subprogram.scopes := by
  unfold SubprogramDie.innermost
  cases h : subprogram.scopes.getLast? with
  | none => exact List.mem_cons_self
  | some die => exact List.mem_cons_of_mem _ (List.mem_of_getLast? h)

theorem enter_locations (hf : functionLocation.Bare x.pid) (hscopes : subprogram.scopes ≠ []) (x' : SymbolContext) :
    ∀ b ∈ (l.enter x bias functionLocation subprogram x').definitions.locations.entries,
      b ∈ l.definitions.locations.entries ∨
        ∃ die ∈ subprogram.die :: subprogram.scopes, b.address = bias + die.entry.getD 0 := by
  have hsymbol : ∀ (l : Lookup), (l.resolveSymbol x').definitions.locations = l.definitions.locations := by
    intro l
    unfold Lookup.resolveSymbol
    split
    · rfl
    · dsimp only
      rw [Definitions.locations_resolveSymbol, Definitions.locations_resolveString]
  have hfunction : ∀ (l : Lookup) (functionLocation : Location),
      ∀ b ∈ (l.resolveFunction functionLocation).definitions.locations.entries,
        b ∈ l.definitions.locations.entries ∨ b = functionLocation := by
    intro l functionLocation b hb
    unfold Lookup.resolveFunction at hb
    split at hb
    · exact Definitions.mem_resolveLocation hb
    · exact .inl hb
  intro b hb
  rw [Lookup.enter, setSubprogram_eq bias hf hscopes] at hb
  dsimp only at hb
  rw [hsymbol] at hb
  rcases hfunction _ _ b hb with hb | rfl
  · dsimp only at hb
    split at hb
    · rw [Definitions.locations_resolveString] at hb
      exact .inl hb
    · rcases parseDwarf_locations bias _ _ _ b hb with hb | hb
      · rw [Definitions.locations_resolveString] at hb
        exact .inl hb
      · exact .inr hb
  · exact .inr ⟨subprogram.innermost, innermost_mem, UInt64.add_comm _ _⟩

end Innermost

/-! ## Lookups -/

/-- The symbol of a module that `lookupFrame` finds for an address. -/
def symbolAt (sources : SymbolSources) (mod : Module) (elf : ElfInfo) (addressCache : PerfAddressCache)
    (address : UInt64) : SymbolCacheEntry :=
  let addressCache :=
    if addressCache.hasSymbolCache elf.originalPath then addressCache
    else addressCache.setSymbolCache elf.originalPath
      (PerfAddressCache.extractSymbols mod.symbols elf.start sources.isArmArch)
  (addressCache.findSymbol sources.demangle elf.originalPath (address - elf.start)).1

/-- The relative address of a frame: the value of its symbol, and the offset in it. -/
def frameRelAddr (sources : SymbolSources) (mod : Module) (elf : ElfInfo) (addressCache : PerfAddressCache)
    (address : UInt64) : UInt64 :=
  let info := symbolAt sources mod elf addressCache address
  PerfAddressCache.alignedAddress (info.value + (address - elf.start - info.offset)) sources.isArmArch

/-- The branch with a module, for an address that has a symbol and debug information. -/
theorem lookupModule_of_symbol {sources : SymbolSources} {mod : Module} {elf : ElfInfo}
    {addressCache : PerfAddressCache} {l : Lookup} {cudie : CuDie}
    (h : (symbolAt sources mod elf addressCache l.addressLocation.address).isValid = true)
    (hcudie : mod.cuDie l.addressLocation.address = some cudie) (x : SymbolContext) :
    (lookupModule sources mod elf elf.start x addressCache l).1 =
      let info := symbolAt sources mod elf addressCache l.addressLocation.address
      let relAddr := frameRelAddr sources mod elf addressCache l.addressLocation.address
      let off := l.addressLocation.address - elf.start - info.offset
      let (l, functionLocation) :=
        lookupCuDie { x with offset := info.value, size := info.size, relAddr := relAddr } cudie
        { l.addressLocation with address := l.addressLocation.address - off }
        { l with symname := info.symname, start := info.value, size := info.size, relAddr := relAddr,
                 definitions := (l.definitions.findAllDebugInfo sources).findAllDebugInfo sources }
      l.resolveFunction functionLocation := by
  unfold symbolAt at h
  unfold lookupModule
  dsimp only at h ⊢
  rw [if_pos h, hcudie]
  rfl

theorem silent_resolveElf (d : Definitions) (elf : ElfInfo) : d.Silent (resolveElf d elf).2 := by
  unfold resolveElf
  split
  · exact ((d.silent_resolveString _).trans (Definitions.silent_resolveString _ _)).trans
      (Definitions.silent_resolveString _ _)
  · exact .refl d

theorem setSource_spec {l l' : Lookup} {cudie : CuDie} {pid : Int32} {address : UInt64}
    (h : l.setSource (cudie.sourceLocation (address - cudie.bias)) = l')
    (hl : l.addressLocation = { address := address, pid := pid.toUInt32 }) :
    l.definitions.Silent l'.definitions ∧ l'.definitions.HasString (cudie.source address).file ∧
      { l'.addressLocation with relAddr := l'.relAddr }.key =
        (l'.definitions.addressAt cudie pid l.relAddr address).key := by
  subst h
  unfold Definitions.addressAt Definitions.locationIn CuDie.source
  cases cudie.sourceLocation (address - cudie.bias) with
  | none => exact ⟨.refl _, .inl rfl, by rw [show l.setSource none = l from rfl, hl]; rfl⟩
  | some srcloc =>
    obtain ⟨hfile, hsame⟩ := l.definitions.resolveString_spec srcloc.file
    refine ⟨l.definitions.silent_resolveString srcloc.file, hfile, ?_⟩
    unfold Lookup.setSource
    dsimp only [Option.getD_some]
    rw [hl, hsame]

namespace PerfSymbolTable

variable (sources : SymbolSources) (module : PerfSymbolTable → UInt64 → ElfInfo → Option Module × PerfSymbolTable)

/-- An address of a process that `lookupFrame` finds in inlined functions: `findInlineScopes` has these scopes. -/
structure InScopes (r : Resolver) (t : PerfSymbolTable) (ip : UInt64) (pid : Int32) (mod : Module) (cudie : CuDie)
    (subprogram : SubprogramDie) : Prop where
  missed : (r.addressCache.find (t.elfs.findElf ip) ip t.invalidAddressCache).isValid = false
  reported : (module t ip (t.elfs.findElf ip)).1 = some mod
  pid : (module t ip (t.elfs.findElf ip)).2.pid = pid
  symbol : (symbolAt sources mod (t.elfs.findElf ip) r.addressCache
    (PerfAddressCache.symbolAddress ip sources.isArmArch)).isValid = true
  cuDie : mod.cuDie (PerfAddressCache.symbolAddress ip sources.isArmArch) = some cudie
  subprogram : cudie.subprogram (PerfAddressCache.symbolAddress ip sources.isArmArch - cudie.bias) = some subprogram

variable {sources module} {r : Resolver} {t : PerfSymbolTable} {ip : UInt64} {pid : Int32} {mod : Module} {cudie : CuDie}
  {subprogram : SubprogramDie}

/-- The relative address of the frame. -/
def frameAt (sources : SymbolSources) (r : Resolver) (t : PerfSymbolTable) (ip : UInt64) (mod : Module) : UInt64 :=
  frameRelAddr sources mod (t.elfs.findElf ip) r.addressCache (PerfAddressCache.symbolAddress ip sources.isArmArch)

/-- The location of the address, as the definitions have its file. -/
def ownLocation (sources : SymbolSources) (r : Resolver) (t : PerfSymbolTable) (ip : UInt64) (pid : Int32) (mod : Module)
    (cudie : CuDie) (d : Definitions) : Location :=
  d.addressAt cudie pid (frameAt sources r t ip mod) (PerfAddressCache.symbolAddress ip sources.isArmArch)

theorem InScopes.found_eq (h : InScopes sources module r t ip pid mod cudie subprogram) (isKernel : Bool) :
    ∃ (l : Lookup) (x x' : SymbolContext) (functionLocation : Location), r.toDefinitions.Silent l.definitions ∧
      x.pid = pid ∧ x.relAddr = frameAt sources r t ip mod ∧ x.Known l.definitions ∧ functionLocation.Bare pid ∧
      l.definitions.HasString (cudie.source (PerfAddressCache.symbolAddress ip sources.isArmArch)).file ∧
      { l.addressLocation with relAddr := l.relAddr }.key = (ownLocation sources r t ip pid mod cudie l.definitions).key ∧
      t.found sources module r ip isKernel = l.enter x cudie.bias functionLocation subprogram x' := by
  obtain ⟨-, hbinary, hpath, hactual⟩ := resolveElf_sends r.toDefinitions (t.elfs.findElf ip)
  have helf := silent_resolveElf r.toDefinitions (t.elfs.findElf ip)
  unfold found
  dsimp only
  rw [h.reported, h.pid]
  generalize (resolveElf r.toDefinitions (t.elfs.findElf ip)).2 = d at hbinary hpath hactual helf ⊢
  have hdebug := (d.silent_findAllDebugInfo sources).trans (Definitions.silent_findAllDebugInfo _ sources)
  unfold lookupSymbol
  dsimp only
  rw [lookupModule_of_symbol
    (l := { addressLocation := { address := PerfAddressCache.symbolAddress ip sources.isArmArch, pid := pid.toUInt32 }
            definitions := d }) h.symbol h.cuDie]
  dsimp only
  rw [lookupCuDie_eq]
  dsimp only
  rw [h.subprogram]
  generalize hl : Lookup.setSource _ _ = l
  obtain ⟨hsource, hfile, hkey⟩ := setSource_spec hl rfl
  have hsource := hdebug.trans hsource
  exact ⟨l, _, _, _, helf.trans hsource, rfl, rfl,
    ⟨hsource.knowsString hbinary, hsource.knowsString hpath, hsource.knowsString hactual⟩, ⟨rfl, rfl, rfl, rfl, rfl⟩,
    hfile, hkey, rfl⟩

/-- What a lookup in inlined functions finds and sends before the location of the address. -/
structure Found (sources : SymbolSources) (r : Resolver) (t : PerfSymbolTable) (ip : UInt64) (pid : Int32)
    (mod : Module) (cudie : CuDie) (subprogram : SubprogramDie) (l : Lookup) : Prop where
  hasFile : l.definitions.HasString (cudie.source (PerfAddressCache.symbolAddress ip sources.isArmArch)).file
  key : { l.addressLocation with relAddr := l.relAddr }.key = (ownLocation sources r t ip pid mod cudie l.definitions).key
  chain :
    if r.HasFunction cudie.bias pid subprogram.innermost then
      l.definitions.Attached cudie.bias pid 0 subprogram.innermost l.addressLocation.parentLocationId ∧
        if r.lookupLocation (r.functionAt cudie.bias pid 0 subprogram.innermost) = -1 then
          r.chainSince l.definitions ≠ []
        else r.toDefinitions.Silent l.definitions
    else
      l.definitions.Attached cudie.bias pid (frameAt sources r t ip mod) subprogram.innermost
          l.addressLocation.parentLocationId ∧
        r.chainSince l.definitions ≠ []
  fresh : r.lookupLocation (ownLocation sources r t ip pid mod cudie r.toDefinitions) = -1 →
    (∀ die ∈ subprogram.die :: subprogram.scopes,
      PerfAddressCache.symbolAddress ip sources.isArmArch ≠ cudie.bias + die.entry.getD 0) →
    l.definitions.lookupLocation (ownLocation sources r t ip pid mod cudie l.definitions) = -1

/-- **A lookup that finds the chain, and one that parses it.** -/
theorem InScopes.found_spec (h : InScopes sources module r t ip pid mod cudie subprogram)
    (hr : ({} : Definitions).Sends r.toDefinitions) (hscopes : subprogram.scopes ≠ []) (isKernel : Bool) :
    Found sources r t ip pid mod cudie subprogram (t.found sources module r ip isKernel) := by
  obtain ⟨l, x, x', functionLocation, hsilent, hpid, hrelAddr, hx, hf, hfile, hkey, hfound⟩ := h.found_eq isKernel
  rw [hfound]
  subst hpid
  have hiff : l.definitions.HasFunction cudie.bias x.pid subprogram.innermost ↔
      r.HasFunction cudie.bias x.pid subprogram.innermost := hsilent.hasFunction_iff hr.files
  obtain ⟨haddressRelAddr, haddress⟩ : (l.enter x cudie.bias functionLocation subprogram x').relAddr = l.relAddr ∧
      (l.enter x cudie.bias functionLocation subprogram x').addressLocation.key = l.addressLocation.key :=
    enter_address cudie.bias x x' functionLocation
  have hlocations := enter_locations (l := l) cudie.bias hf hscopes x'
  obtain ⟨hgrows, houtput⟩ := enter_grows cudie.bias hx hf hscopes x'
  refine ⟨hfile.mono hgrows, ?_, ?_, fun hnone hentries => ?_⟩
  · rw [haddressRelAddr, ownLocation, Definitions.addressAt, Definitions.locationIn_of_le hfile hgrows,
      ← Definitions.addressAt, ← ownLocation, ← hkey]
    exact congrArg (fun location : Location => { location with relAddr := l.relAddr }) haddress
  · split
    · rename_i hfunction
      obtain ⟨hattached, hquiet⟩ := enter_found cudie.bias hf hscopes (hiff.2 hfunction) x'
      refine ⟨hattached, ?_⟩
      rw [hsilent.lookupLocation_eq hr.files] at hquiet
      split
      · rename_i hnone
        rw [if_pos hnone] at hquiet
        rwa [hsilent.chainSince_eq houtput]
      · rename_i hne
        rw [if_neg hne] at hquiet
        exact hsilent.trans hquiet
    · rename_i hfunction
      obtain ⟨hattached, hparsed, hsent⟩ := enter_parsed cudie.bias hx hf hscopes (fun h => hfunction (hiff.1 h)) x'
      rw [← hrelAddr]
      refine ⟨hattached, ?_⟩
      rw [hsilent.chainSince_eq hparsed.output_le]
      exact hsent
  · refine Definitions.lookupLocation_addressAt hsilent hr.files hfile hnone hgrows (fun b hb => ?_)
    refine (hlocations b hb).imp_right (fun ⟨die, hdie, hb⟩ => ?_)
    rw [hb]
    exact (hentries die hdie).symm

/-- The chain of the first address is found for the second, by what has been sent before each of the two lookups: where
the locations of both addresses are new, if the first frame has no relative address or the function is known; else if the
function is known before the second and both locations have one parent then. -/
def FindsChain (sources : SymbolSources) (r₁ r₂ : Resolver) (t₁ t₂ : PerfSymbolTable) (ip₁ ip₂ : UInt64) (pid : Int32)
    (mod : Module) (cudie : CuDie) (subprogram : SubprogramDie) : Prop :=
  let own₁ := ownLocation sources r₁ t₁ ip₁ pid mod cudie
  let own₂ := ownLocation sources r₂ t₂ ip₂ pid mod cudie
  let known₂ := r₂.lookupLocation (r₂.functionAt cudie.bias pid 0 subprogram.innermost)
  if (r₁.lookupLocation (own₁ r₁.toDefinitions) = -1 ∧ ∀ die ∈ subprogram.die :: subprogram.scopes,
      PerfAddressCache.symbolAddress ip₁ sources.isArmArch ≠ cudie.bias + die.entry.getD 0) ∧
      r₂.lookupLocation (own₂ r₂.toDefinitions) = -1 then
    frameAt sources r₁ t₁ ip₁ mod = 0 ∨ r₁.HasFunction cudie.bias pid subprogram.innermost
  else
    r₂.HasFunction cudie.bias pid subprogram.innermost ∧ known₂ ≠ -1 ∧
      r₂.parentAt (own₁ r₂.toDefinitions) = some ((r₂.parentAt (own₂ r₂.toDefinitions)).getD known₂)

instance (sources : SymbolSources) (r₁ r₂ : Resolver) (t₁ t₂ : PerfSymbolTable) (ip₁ ip₂ : UInt64) (pid : Int32)
    (mod : Module) (cudie : CuDie) (subprogram : SubprogramDie) :
    Decidable (FindsChain sources r₁ r₂ t₁ t₂ ip₁ ip₂ pid mod cudie subprogram) :=
  inferInstanceAs (Decidable (ite (_ ∧ _) (_ ∨ _) (_ ∧ _ ∧ _)))

/-- The location that a lookup returns, and its parent. -/
theorem InScopes.returned (h : InScopes sources module r t ip pid mod cudie subprogram)
    (hr : ({} : Definitions).Sends r.toDefinitions) (hscopes : subprogram.scopes ≠ []) (isKernel : Bool) :
    let l := t.found sources module r ip isKernel
    let own := ownLocation sources r t ip pid mod cudie
    let result := t.lookupFrame sources module r ip isKernel
    ∃ l', result.2.1.locations.get? result.1.locationId = some l' ∧ l'.key = (own l.definitions).key ∧
      l'.parentLocationId = (l.definitions.parentAt (own l.definitions)).getD l.addressLocation.parentLocationId ∧
      l.definitions.strings.Le result.2.1.strings := by
  have hfound := h.found_spec hr hscopes isKernel
  obtain ⟨hentry, hdefinitions⟩ : (t.lookupFrame sources module r ip isKernel).1 =
      (t.found sources module r ip isKernel).entry ∧ _ := lookupFrame_found sources module h.missed
  dsimp only
  generalize t.found sources module r ip isKernel = l at hfound hentry hdefinitions ⊢
  obtain ⟨l', hget, hkey, hparent⟩ :=
    l.definitions.get?_resolveLocation_parent { l.addressLocation with relAddr := l.relAddr }
  refine ⟨l', ?_, hkey.trans hfound.key, ?_, ?_⟩
  · rw [hentry]
    exact (congrArg (fun d : Definitions => d.locations.get? l.entry.locationId) hdefinitions).trans hget
  · rw [hparent, Definitions.parentAt_of_key hfound.key]
  · rw [show (t.lookupFrame sources module r ip isKernel).2.1.strings = _ from
      congrArg Definitions.strings hdefinitions]
    exact .refl _

/-- What has been found is sent for the chain, or is found without sending anything. -/
theorem Found.quiet {l : Lookup} (h : Found sources r t ip pid mod cudie subprogram l)
    (hr : ({} : Definitions).Sends r.toDefinitions) (hquiet : r.chainSince l.definitions = []) :
    r.HasFunction cudie.bias pid subprogram.innermost ∧
      r.lookupLocation (r.functionAt cudie.bias pid 0 subprogram.innermost) ≠ -1 ∧
      r.toDefinitions.Silent l.definitions ∧
      l.addressLocation.parentLocationId = r.lookupLocation (r.functionAt cudie.bias pid 0 subprogram.innermost) := by
  have hchain := h.chain
  split at hchain
  · rename_i hfunction
    obtain ⟨hattached, hsilent⟩ := hchain
    split at hsilent
    · exact absurd hquiet hsilent
    · rename_i hne
      refine ⟨hfunction, hne, hsilent, ?_⟩
      rw [← hattached.lookupLocation_eq, hsilent.lookupLocation_eq hr.files]
  · exact absurd hquiet hchain.2

theorem Found.quiet_of_known {l : Lookup} (h : Found sources r t ip pid mod cudie subprogram l)
    (hfunction : r.HasFunction cudie.bias pid subprogram.innermost)
    (hne : r.lookupLocation (r.functionAt cudie.bias pid 0 subprogram.innermost) ≠ -1) :
    r.chainSince l.definitions = [] := by
  have hchain := h.chain
  rw [if_pos hfunction, if_neg hne] at hchain
  exact hchain.2.chainSince

/-- **The chain of the first address is found for the second**, where both locations are new, **exactly where the first
frame has no relative address, or the function was known before.** -/
theorem Found.inlined_iff {r₁ r₂ : Resolver} {t₁ t₂ : PerfSymbolTable} {ip₁ ip₂ : UInt64} {l₁ l₂ : Lookup}
    (h₁ : Found sources r₁ t₁ ip₁ pid mod cudie subprogram l₁) (h₂ : Found sources r₂ t₂ ip₂ pid mod cudie subprogram l₂)
    (hlater : l₁.definitions.Sends r₂.toDefinitions) (hsends₂ : r₂.toDefinitions.Sends l₂.definitions) :
    (l₂.addressLocation.parentLocationId = l₁.addressLocation.parentLocationId ∧ r₂.chainSince l₂.definitions = []) ↔
      frameAt sources r₁ t₁ ip₁ mod = 0 ∨ r₁.HasFunction cudie.bias pid subprogram.innermost := by
  have hspec₁ := h₁.chain
  have hspec₂ := h₂.chain
  generalize frameAt sources r₁ t₁ ip₁ mod = relAddr at hspec₁ ⊢
  constructor
  · rintro ⟨hparent, hquiet⟩
    by_contra hcond
    obtain ⟨hrelAddr, hfunction⟩ := not_or.1 hcond
    rw [if_neg hfunction] at hspec₁
    have hattached := hspec₁.1.sends hlater
    split at hspec₂
    · -- a location without a relative address is not the one that was parsed
      rw [hparent] at hspec₂
      exact hrelAddr ((hattached.sends hsends₂).relAddr_eq hspec₂.1)
    · exact hspec₂.2 hquiet
  · intro hcond
    have hattached : r₂.Attached cudie.bias pid 0 subprogram.innermost l₁.addressLocation.parentLocationId := by
      split at hspec₁
      · exact hspec₁.1.sends hlater
      · rename_i hfunction
        rw [hcond.resolve_right hfunction] at hspec₁
        exact hspec₁.1.sends hlater
    have hknown := hattached.lookupLocation_eq
    refine ⟨?_, h₂.quiet_of_known hattached.hasFunction (hknown ▸ hattached.ne_none)⟩
    rw [if_pos hattached.hasFunction] at hspec₂
    exact hspec₂.1.id_eq (hattached.sends hsends₂)

/-- **The chain of the first address is found for the second exactly where `FindsChain` holds**: the locations that the
two lookups return have one parent, and nothing is sent for the chain again. -/
theorem lookupFrame_inlined_iff {r₁ r₂ : Resolver} {t₁ t₂ : PerfSymbolTable} {ip₁ ip₂ : UInt64}
    {isKernel₁ isKernel₂ : Bool}
    (hr : ({} : Definitions).Sends r₁.toDefinitions) (h₁ : InScopes sources module r₁ t₁ ip₁ pid mod cudie subprogram)
    (hbetween : (t₁.lookupFrame sources module r₁ ip₁ isKernel₁).2.1.toDefinitions.Sends r₂.toDefinitions)
    (h₂ : InScopes sources module r₂ t₂ ip₂ pid mod cudie subprogram) (hscopes : subprogram.scopes ≠ []) :
    let first := t₁.lookupFrame sources module r₁ ip₁ isKernel₁
    let second := t₂.lookupFrame sources module r₂ ip₂ isKernel₂
    (second.2.1.parentOf second.1.locationId = first.2.1.parentOf first.1.locationId ∧
      r₂.chainSince (t₂.found sources module r₂ ip₂ isKernel₂).definitions = []) ↔
      FindsChain sources r₁ r₂ t₁ t₂ ip₁ ip₂ pid mod cudie subprogram := by
  have hmissed : r₁.Sends (t₁.lookupFrame sources module r₁ ip₁ isKernel₁).2.1.toDefinitions :=
    (lookupFrame_miss h₁.missed).sends
  have hr₂ := (hr.trans hmissed).trans hbetween
  have hfound₁ := h₁.found_spec hr hscopes isKernel₁
  have hfound₂ := h₂.found_spec hr₂ hscopes isKernel₂
  obtain ⟨l₁', hget₁, hkey₁, hparent₁, hstrings₁⟩ := h₁.returned hr hscopes isKernel₁
  obtain ⟨l₂', hget₂, hkey₂, hparent₂, -⟩ := h₂.returned hr₂ hscopes isKernel₂
  dsimp only at hget₁ hget₂ hkey₁ hkey₂ hparent₁ hparent₂ hstrings₁ ⊢
  have hlater : (t₁.found sources module r₁ ip₁ isKernel₁).definitions.Sends r₂.toDefinitions := by
    have hknown := (found_sound sources module r₁ t₁ ip₁ isKernel₁).known
    rw [(lookupFrame_found sources module h₁.missed).2] at hbetween
    exact (Sends.refl.location (l := { (t₁.found sources module r₁ ip₁ isKernel₁).addressLocation with
      relAddr := (t₁.found sources module r₁ ip₁ isKernel₁).relAddr }) ⟨hknown.file, hknown.parent⟩).trans hbetween
  have hsends₂ := found_sends sources module r₂ t₂ ip₂ isKernel₂
  have hget₁' := hbetween.locations_le.get? hget₁
  rw [Definitions.parentOf_of_get? hget₂, Definitions.parentOf_of_get? hget₁, Option.some.injEq]
  generalize t₁.found sources module r₁ ip₁ isKernel₁ = l₁ at *
  generalize t₂.found sources module r₂ ip₂ isKernel₂ = l₂ at *
  have hquiet₂ : r₂.chainSince l₂.definitions = [] → l₂'.parentLocationId =
      (r₂.parentAt (ownLocation sources r₂ t₂ ip₂ pid mod cudie r₂.toDefinitions)).getD
        (r₂.lookupLocation (r₂.functionAt cudie.bias pid 0 subprogram.innermost)) := by
    intro hquiet
    obtain ⟨-, -, hsilent, hparent⟩ := hfound₂.quiet hr₂ hquiet
    rw [hparent₂, hparent]
    exact congrArg (fun parent => Option.getD parent _) (hsilent.parentAt_addressAt hr₂.files _ _ _ _)
  unfold FindsChain
  dsimp only
  split
  · rename_i hnew
    obtain ⟨⟨hnone₁, hentries⟩, hnone₂⟩ := hnew
    rw [Definitions.parentAt_of_none (hfound₁.fresh hnone₁ hentries), Option.getD_none] at hparent₁
    rw [Definitions.parentAt_of_none hnone₂, Option.getD_none] at hquiet₂
    rw [hparent₁, ← hfound₁.inlined_iff hfound₂ hlater hsends₂]
    exact and_congr_left (fun hquiet => by rw [hquiet₂ hquiet, (hfound₂.quiet hr₂ hquiet).2.2.2])
  · have hown₁ : r₂.parentAt (ownLocation sources r₁ t₁ ip₁ pid mod cudie r₂.toDefinitions) =
        some l₁'.parentLocationId :=
      Definitions.parentAt_of_get? hget₁' (hkey₁.trans (congrArg Location.key
        (Definitions.locationIn_of_le hfound₁.hasFile hlater.strings_le).symm))
    rw [hown₁, Option.some.injEq]
    constructor
    · rintro ⟨hparent, hquiet⟩
      obtain ⟨hfunction, hne, -, -⟩ := hfound₂.quiet hr₂ hquiet
      exact ⟨hfunction, hne, hparent ▸ hquiet₂ hquiet⟩
    · rintro ⟨hfunction, hne, hparent⟩
      have hquiet := hfound₂.quiet_of_known hfunction hne
      exact ⟨(hquiet₂ hquiet).trans hparent.symm, hquiet⟩

/-! A file with one symbol, all of it in a function that is inlined in another. -/

def inlinedSubprogram : SubprogramDie where
  die :=
    { name := QByteArray.ofString "main", entry := some 0, declFile := QByteArray.ofString "/a.c", declLine := some 9 }
  scopes :=
    [{ isInlined := true, name := QByteArray.ofString "step", entry := some 0x20, declFile := QByteArray.ofString "/a.c",
       declLine := some 3, callFile := QByteArray.ofString "/a.c", callLine := some 11 }]

def inlinedUnit (bias : UInt64) : CuDie where
  bias := bias
  sourceLocation := fun _ => none
  subprogram := fun _ => some inlinedSubprogram

def inlinedModule (start : UInt64) : Module where
  symbols := [{ symAddr := start, value := 0, size := 0x1000, name := QByteArray.ofString "main" }]
  cuDie := fun _ => some (inlinedUnit start)

def inlinedFile : Host :=
  { PerfUnwind.noFiles with
    findFile := fun path fileName _ => { isFile := true, absoluteFilePath := path, fileName := fileName }
    isElf := fun _ => true
    addrModule := fun dwfl addr => dwfl.find? (fun m => m.start ≤ addr ∧ addr < m.stop)
    reportElf := fun _ info => some
      { name := info.originalFileName, path := info.originalPath, start := info.addr, stop := info.addr + info.length }
    symbolsOf := fun m => inlinedModule m.start }

/-- The process that maps it. -/
def inlinedTable : PerfSymbolTable :=
  registerElf inlinedFile { pid := 1 }
    { pid := 1, tid := 1, addr := 0x1000, len := 0x1000, filename := QByteArray.ofString "/a" } []

/-- The resolver and the table after the first address. -/
def inlinedNext (ip : UInt64) : Resolver × PerfSymbolTable :=
  (inlinedTable.lookupFrame inlinedFile.sources (PerfSymbolTable.module inlinedFile) {} ip false).2

theorem inlined_first (ip : UInt64) (h : ip = 0x1000 ∨ ip = 0x1030) :
    InScopes inlinedFile.sources (PerfSymbolTable.module inlinedFile) {} inlinedTable ip 1 (inlinedModule 0x1000)
      (inlinedUnit 0x1000) inlinedSubprogram := by
  rcases h with rfl | rfl
  · exact ⟨by decide, rfl, rfl, by decide, rfl, rfl⟩
  · exact ⟨by decide, rfl, rfl, by decide, rfl, rfl⟩

theorem inlined_second (ip : UInt64) (h : ip = 0x1000 ∨ ip = 0x1030) :
    InScopes inlinedFile.sources (PerfSymbolTable.module inlinedFile) (inlinedNext ip).1 (inlinedNext ip).2 0x1040 1
      (inlinedModule 0x1000) (inlinedUnit 0x1000) inlinedSubprogram := by
  rcases h with rfl | rfl
  · exact ⟨by decide, rfl, rfl, by decide, rfl, rfl⟩
  · exact ⟨by decide, rfl, rfl, by decide, rfl, rfl⟩

/-- The start of the file has no relative address. -/
theorem lookupFrame_inlined_start :
    let first := inlinedTable.lookupFrame inlinedFile.sources (PerfSymbolTable.module inlinedFile) {} 0x1000 false
    let second := (inlinedNext 0x1000).2.lookupFrame inlinedFile.sources (PerfSymbolTable.module inlinedFile)
      (inlinedNext 0x1000).1 0x1040 false
    second.2.1.parentOf second.1.locationId = first.2.1.parentOf first.1.locationId ∧
      (inlinedNext 0x1000).1.chainSince
        ((inlinedNext 0x1000).2.found inlinedFile.sources (PerfSymbolTable.module inlinedFile)
          (inlinedNext 0x1000).1 0x1040 false).definitions = [] :=
  (lookupFrame_inlined_iff .refl (inlined_first _ (.inl rfl)) .refl (inlined_second _ (.inl rfl))
    (List.cons_ne_nil _ _)).2 (by decide)

/-- **A chain that has been parsed is parsed again.** -/
theorem not_inlined_cached : ¬∀ (H : Host) (r₁ r₂ : Resolver) (t₁ t₂ : PerfSymbolTable) (ip₁ ip₂ : UInt64)
    (isKernel : Bool) (pid : Int32) (mod : Module) (cudie : CuDie) (subprogram : SubprogramDie),
    ({} : Definitions).Sends r₁.toDefinitions →
    InScopes H.sources (PerfSymbolTable.module H) r₁ t₁ ip₁ pid mod cudie subprogram →
    (t₁.lookupFrame H.sources (PerfSymbolTable.module H) r₁ ip₁ isKernel).2 = (r₂, t₂) →
    InScopes H.sources (PerfSymbolTable.module H) r₂ t₂ ip₂ pid mod cudie subprogram → subprogram.scopes ≠ [] →
    let first := t₁.lookupFrame H.sources (PerfSymbolTable.module H) r₁ ip₁ isKernel
    let second := t₂.lookupFrame H.sources (PerfSymbolTable.module H) r₂ ip₂ isKernel
    second.2.1.parentOf second.1.locationId = first.2.1.parentOf first.1.locationId ∧
      r₂.chainSince (t₂.found H.sources (PerfSymbolTable.module H) r₂ ip₂ isKernel).definitions = [] := by
  intro h
  have hcached := (h inlinedFile {} (inlinedNext 0x1030).1 inlinedTable (inlinedNext 0x1030).2 0x1030 0x1040 false 1
    (inlinedModule 0x1000) (inlinedUnit 0x1000) inlinedSubprogram .refl (inlined_first _ (.inr rfl)) rfl
    (inlined_second _ (.inr rfl)) (List.cons_ne_nil _ _)).1
  revert hcached
  decide

end PerfSymbolTable

end PerfParser
