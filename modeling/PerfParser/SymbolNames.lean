import PerfParser.SymbolTable
/-!
# SymbolNames — the names of locations without a module

A lookup without a module reports the name of the symbol attached to its function's location.  Both locations of a
lookup are interned with those of all others, and a symbol is attached only once: so the name is right exactly where no
earlier lookup has taken the locations for something else (`named_iff_consistent`).
-/
namespace PerfParser

open History (Always)

namespace Definitions

/-- The string with an id, `-1` the empty one. -/
def stringOf (d : Definitions) (id : Int) : Option QByteArray := if id = -1 then some [] else d.strings.get? id

/-- The name of the symbol attached to a location. -/
def nameAt (d : Definitions) (locationId : Int) : Option QByteArray :=
  (d.symbols.find locationId).bind (fun symbol => d.stringOf symbol.name)

/-- The name that is reported for a frame: that of its parent location. -/
def nameOf (d : Definitions) (locationId : Int) : Option QByteArray :=
  (d.locations.get? locationId).bind (fun location => d.nameAt location.parentLocationId)

/-- What later lookups leave alone. -/
structure Le (d d' : Definitions) : Prop where
  strings : d.strings.Le d'.strings
  locations : d.locations.Le d'.locations
  symbols : ∀ id symbol, d.symbols.find id = some symbol → d'.symbols.find id = some symbol

theorem Le.refl (d : Definitions) : d.Le d := ⟨.refl _, .refl _, fun _ _ h => h⟩

theorem Le.trans {d d' d'' : Definitions} (h : d.Le d') (h' : d'.Le d'') : d.Le d'' :=
  ⟨h.strings.trans h'.strings, h.locations.trans h'.locations,
    fun id symbol hs => h'.symbols id symbol (h.symbols id symbol hs)⟩

theorem Le.stringOf {d d' : Definitions} (h : d.Le d') {id : Int} {s : QByteArray} (hs : d.stringOf id = some s) :
    d'.stringOf id = some s := by
  unfold Definitions.stringOf at hs ⊢
  split at hs
  · rename_i hid
    rwa [if_pos hid]
  · rename_i hid
    rw [if_neg hid]
    exact h.strings.get? hs

theorem Le.nameAt {d d' : Definitions} (h : d.Le d') {id : Int} {n : QByteArray} (hn : d.nameAt id = some n) :
    d'.nameAt id = some n := by
  obtain ⟨symbol, hs, hn⟩ := Option.bind_eq_some_iff.1 hn
  exact Option.bind_eq_some_iff.2 ⟨symbol, h.symbols id symbol hs, h.stringOf hn⟩

theorem Le.nameOf {d d' : Definitions} (h : d.Le d') {id : Int} {n : QByteArray} (hn : d.nameOf id = some n) :
    d'.nameOf id = some n := by
  obtain ⟨location, hl, hn⟩ := Option.bind_eq_some_iff.1 hn
  exact Option.bind_eq_some_iff.2 ⟨location, h.locations.get? hl, h.nameAt hn⟩

/-! ## Resolving -/

theorem resolveString_le (d : Definitions) (s : QByteArray) : d.Le (d.resolveString s).2 := by
  unfold resolveString
  split
  · exact Le.refl d
  · exact ⟨Interner.le_resolve _ _, .refl _, fun _ _ h => h⟩

@[simp] theorem resolveString_locations (d : Definitions) (s : QByteArray) :
    (d.resolveString s).2.locations = d.locations := by
  unfold resolveString
  split <;> rfl

@[simp] theorem resolveString_symbols (d : Definitions) (s : QByteArray) :
    (d.resolveString s).2.symbols = d.symbols := by
  unfold resolveString
  split <;> rfl

theorem stringOf_resolveString (d : Definitions) (s : QByteArray) :
    (d.resolveString s).2.stringOf (d.resolveString s).1 = some s := by
  unfold resolveString stringOf
  split
  · rename_i hs
    rw [if_pos rfl, List.isEmpty_iff.1 hs]
  · obtain ⟨b, hb, rfl⟩ := Interner.get?_resolve d.strings s
    have hid := Interner.resolve_nonneg d.strings (id b)
    rw [if_neg (by dsimp only [id] at hid ⊢; omega)]
    exact hb

theorem resolveLocation_le (d : Definitions) (l : Location) : d.Le (d.resolveLocation l).2 :=
  ⟨.refl _, Interner.le_resolve _ _, fun _ _ h => h⟩

@[simp] theorem resolveLocation_symbols (d : Definitions) (l : Location) :
    (d.resolveLocation l).2.symbols = d.symbols := rfl

theorem resolveSymbol_le {d : Definitions} {id : Int} (h : d.hasSymbol id = false) (symbol : Symbol) :
    d.Le (d.resolveSymbol id symbol) := by
  refine ⟨.refl _, .refl _, fun id' symbol' hs => ?_⟩
  have hne : id' ≠ id := by
    rintro rfl
    rw [hasSymbol, QHash.contains, hs] at h
    cases h
  exact (QHash.find_insert_of_ne _ _ hne).trans hs

/-- The name of the first symbol that is attached stays. -/
def attach (d : Definitions) (id : Int) (symname : QByteArray) (symbol : Int → Symbol) : Definitions :=
  if d.hasSymbol id then d else (d.resolveString symname).2.resolveSymbol id (symbol (d.resolveString symname).1)

theorem attach_le (d : Definitions) (id : Int) (symname : QByteArray) (symbol : Int → Symbol) :
    d.Le (d.attach id symname symbol) := by
  unfold attach
  split
  · exact Le.refl d
  · rename_i h
    refine (d.resolveString_le symname).trans (resolveSymbol_le ?_ _)
    rw [hasSymbol, resolveString_symbols]
    exact Bool.eq_false_of_not_eq_true h

@[simp] theorem attach_locations (d : Definitions) (id : Int) (symname : QByteArray) (symbol : Int → Symbol) :
    (d.attach id symname symbol).locations = d.locations := by
  unfold attach
  split
  · rfl
  · exact resolveString_locations d symname

theorem find_attach {d : Definitions} {id id' : Int} {symname : QByteArray} {symbol : Int → Symbol} {s : Symbol}
    (h : (d.attach id symname symbol).symbols.find id' = some s) : d.symbols.find id' = some s ∨ id' = id := by
  unfold attach at h
  split at h
  · exact .inl h
  · by_cases hid : id' = id
    · exact .inr hid
    · rw [resolveSymbol, QHash.find_insert_of_ne _ _ hid, resolveString_symbols] at h
      exact .inl h

theorem nameAt_attach_new {d : Definitions} {id : Int} (h : d.hasSymbol id = false) {symname : QByteArray}
    {symbol : Int → Symbol} (hname : ∀ i, (symbol i).name = i) :
    (d.attach id symname symbol).nameAt id = some symname := by
  rw [attach, if_neg (ne_true_of_eq_false h), nameAt, resolveSymbol, QHash.find_insert_self,
    Option.bind_some, hname]
  exact stringOf_resolveString d symname

/-- A lookup's locations, with a name for the function's: what the branch without a module defines. -/
def define (d : Definitions) (function address : Location) (symname : QByteArray) (symbol : Int → Symbol) :
    Int × Definitions :=
  let (parent, d) := d.resolveLocation function
  (d.attach parent symname symbol).resolveLocation { address with parentLocationId := parent }

theorem define_le (d : Definitions) (function address : Location) (symname : QByteArray) (symbol : Int → Symbol) :
    d.Le (d.define function address symname symbol).2 :=
  ((d.resolveLocation_le function).trans (attach_le _ _ symname symbol)).trans (resolveLocation_le _ _)

/-- The id of the function's location. -/
def parentId (d : Definitions) (function : Location) : Int := (d.resolveLocation function).1

theorem find_define {d : Definitions} {function address : Location} {symname : QByteArray} {symbol : Int → Symbol}
    {id : Int} {s : Symbol} (h : (d.define function address symname symbol).2.symbols.find id = some s) :
    d.symbols.find id = some s ∨ id = d.parentId function :=
  find_attach (d := (d.resolveLocation function).2) h

theorem mem_define {d : Definitions} {function address : Location} {symname : QByteArray} {symbol : Int → Symbol}
    {l : Location} (h : l ∈ (d.define function address symname symbol).2.locations.entries) :
    l ∈ d.locations.entries ∨ l = function ∨ l = { address with parentLocationId := d.parentId function } := by
  rcases Interner.mem_resolve h with h | h
  · rw [attach_locations] at h
    exact (Interner.mem_resolve h).imp_right .inl
  · exact .inr (.inr h)

theorem get?_define_function (d : Definitions) (function address : Location) (symname : QByteArray)
    (symbol : Int → Symbol) : ∃ l, (d.define function address symname symbol).2.locations.get? (d.parentId function) =
      some l ∧ l.key = function.key := by
  obtain ⟨l, hl, hkey⟩ := Interner.get?_resolve d.locations function
  refine ⟨l, (((attach_le _ _ symname symbol).trans (resolveLocation_le _ _)).locations).get? ?_, hkey⟩
  exact hl

theorem get?_define_new (d : Definitions) (function : Location) (h : ∀ l ∈ d.locations.entries, l.key ≠ function.key)
    (address : Location) (symname : QByteArray) (symbol : Int → Symbol) :
    (d.define function address symname symbol).2.locations.get? (d.parentId function) = some function :=
  (((attach_le _ _ symname symbol).trans (resolveLocation_le _ _)).locations).get? (Interner.get?_resolve_new h)

theorem get?_define (d : Definitions) (function address : Location) (symname : QByteArray) (symbol : Int → Symbol) :
    ∃ l, (d.define function address symname symbol).2.locations.get? (d.define function address symname symbol).1 =
      some l ∧ l.key = address.key := Interner.get?_resolve _ _

theorem nameAt_define {d : Definitions} {function : Location} (h : d.hasSymbol (d.parentId function) = false)
    (address : Location) (symname : QByteArray) {symbol : Int → Symbol} (hname : ∀ i, (symbol i).name = i) :
    (d.define function address symname symbol).2.nameAt (d.parentId function) = some symname :=
  (resolveLocation_le _ _).nameAt (nameAt_attach_new (d := (d.resolveLocation function).2) h hname)

end Definitions

/-! ## Lookups without a module -/

/-- The mappings and perf maps of the processes, fixed over the lookups. -/
structure World where
  sources : SymbolSources := {}
  elfs : Int32 → PerfElfMap := fun _ => {}
  perfMaps : Int32 → List PerfMapSymbol := fun _ => []

/-- A call of `lookupFrame` for which there is no module; `dirties` where reporting the mapping has failed. -/
structure Look where
  pid : Int32
  ip : UInt64
  isKernel : Bool
  dirties : Bool := false
deriving DecidableEq, Repr

/-- `PerfSymbolTable::module` where it finds no module. -/
def withoutModule (dirties : Bool) (t : PerfSymbolTable) (_ : UInt64) (_ : ElfInfo) : Option Module × PerfSymbolTable :=
  (none, { t with cacheIsDirty := t.cacheIsDirty || dirties })

/-- The unwinder's definitions and the symbol tables of the processes. -/
structure Lookups where
  resolver : Resolver := {}
  tables : Int32 → PerfSymbolTable

namespace World

variable (w : World)

def start : Lookups where
  tables pid := { pid := pid, elfs := w.elfs pid, perfMap := w.perfMaps pid }

def look (s : Lookups) (c : Look) : AddressCacheEntry × Lookups :=
  let (entry, resolver, t) := (s.tables c.pid).lookupFrame w.sources (withoutModule c.dirties) s.resolver c.ip c.isKernel
  (entry, { resolver := resolver, tables := Function.update s.tables c.pid t })

variable {w} in
theorem look_eq {s : Lookups} {c : Look} {entry : AddressCacheEntry} {r : Resolver} {t : PerfSymbolTable}
    (h : (s.tables c.pid).lookupFrame w.sources (withoutModule c.dirties) s.resolver c.ip c.isKernel = (entry, r, t)) :
    w.look s c = (entry, { resolver := r, tables := Function.update s.tables c.pid t }) := by
  unfold look
  rw [h]

def run (calls : List Look) : Lookups := calls.foldl (fun s c => (w.look s c).2) w.start

/-- The location that the last call returns. -/
def frame (calls : List Look) (c : Look) : Int := (w.look (w.run calls) c).1.locationId

theorem run_snoc (calls : List Look) (c : Look) : w.run (calls ++ [c]) = (w.look (w.run calls) c).2 :=
  List.foldl_append ..

/-! What a call looks for. -/

def elf (c : Look) : ElfInfo := (w.elfs c.pid).findElf c.ip

def address (c : Look) : UInt64 := PerfAddressCache.symbolAddress c.ip w.sources.isArmArch

/-- The symbol that `findKallsymEntry` or `symbolFromPerfMap` yields for the address. -/
def symbol (c : Look) : QByteArray × UInt64 × QByteArray :=
  findSymbolWithoutModule w.sources (w.perfMaps c.pid) c.isKernel (w.address c)

def name (c : Look) : QByteArray := (w.symbol c).1

def addressLocation (c : Look) : Location where
  address := w.address c
  pid := c.pid.toUInt32

/-- The symbol's start; a symbol that starts at the address is taken for none. -/
def functionLocation (c : Look) : Location where
  address := if (w.symbol c).2.1 ≠ 0 then w.address c - (w.symbol c).2.1 else (w.elf c).start
  pid := c.pid.toUInt32

/-- What the address is cached under: a file and an address in it, or an address of the process. -/
def key (c : Look) : (QByteArray × UInt64) ⊕ (Int32 × UInt64) :=
  if (w.elf c).isValid then .inl ((w.elf c).originalPath, (w.elf c).relativeAddress c.ip) else .inr (c.pid, c.ip)

end World

namespace Lookups

def definitions (s : Lookups) : Definitions := s.resolver.toDefinitions

/-- The cached location under a key. -/
def cached (s : Lookups) : (QByteArray × UInt64) ⊕ (Int32 × UInt64) → Option AddressCacheEntry
  | .inl (path, relAddr) => s.resolver.addressCache.entryAt path relAddr
  | .inr (pid, ip) => (s.tables pid).invalidAddressCache.find ip

/-- The tables are those of the processes. -/
def Serves (s : Lookups) (w : World) : Prop := ∀ pid,
  (s.tables pid).pid = pid ∧ (s.tables pid).elfs = w.elfs pid ∧ (s.tables pid).perfMap = w.perfMaps pid

theorem find_eq_cached {s : Lookups} {w : World} (h : s.Serves w) (c : Look) :
    s.resolver.addressCache.find ((s.tables c.pid).elfs.findElf c.ip) c.ip (s.tables c.pid).invalidAddressCache =
      (s.cached (w.key c)).getD {} := by
  rw [(h c.pid).2.1]
  unfold World.key World.elf
  split
  · rename_i hvalid
    exact PerfAddressCache.find_of_valid hvalid _ _
  · rename_i hvalid
    rw [PerfAddressCache.find, if_neg hvalid]
    rfl

theorem look_hit {s : Lookups} {w : World} (h : s.Serves w) {c : Look} {entry : AddressCacheEntry}
    (hc : s.cached (w.key c) = some entry) (hvalid : entry.isValid = true) : w.look s c = (entry, s) := by
  have hfind := find_eq_cached h c
  rw [hc, Option.getD_some] at hfind
  unfold World.look PerfSymbolTable.lookupFrame
  simp only [hfind, hvalid, if_true]
  rw [Function.update_eq_self]

theorem resolveElf_spec (d : Definitions) (elf : ElfInfo) :
    d.Le (resolveElf d elf).2 ∧ (resolveElf d elf).2.locations = d.locations ∧
      (resolveElf d elf).2.symbols = d.symbols := by
  unfold resolveElf
  split
  · exact ⟨((Definitions.resolveString_le _ _).trans (Definitions.resolveString_le _ _)).trans
      (Definitions.resolveString_le _ _), by simp, by simp⟩
  · exact ⟨Definitions.Le.refl d, rfl, rfl⟩

/-- The definitions when a lookup without a module has its strings. -/
def withStrings (d : Definitions) (elf : ElfInfo) (module : QByteArray) : Definitions :=
  if module.isEmpty then (resolveElf d elf).2 else ((resolveElf d elf).2.resolveString module).2

theorem withStrings_spec (d : Definitions) (elf : ElfInfo) (module : QByteArray) :
    d.Le (withStrings d elf module) ∧ (withStrings d elf module).locations = d.locations ∧
      (withStrings d elf module).symbols = d.symbols := by
  obtain ⟨hle, hl, hs⟩ := resolveElf_spec d elf
  unfold withStrings
  split
  · exact ⟨hle, hl, hs⟩
  · exact ⟨hle.trans (Definitions.resolveString_le _ _), by simpa using hl, by simpa using hs⟩

theorem definitions_resolveSymbol (l : Lookup) (x : SymbolContext) :
    (l.resolveSymbol x).definitions = l.definitions.attach l.addressLocation.parentLocationId l.symname
      (fun symId => { name := symId, relAddr := l.start, size := l.size, binary := x.binaryId, path := x.binaryPathId,
                      actualPath := x.actualPathId, isKernel := x.isKernel }) := by
  unfold Lookup.resolveSymbol Definitions.attach
  split <;> rfl

theorem frame_resolveSymbol (l : Lookup) (x : SymbolContext) :
    (l.resolveSymbol x).addressLocation = l.addressLocation ∧ (l.resolveSymbol x).symname = l.symname ∧
      (l.resolveSymbol x).relAddr = l.relAddr := by
  unfold Lookup.resolveSymbol
  split <;> exact ⟨rfl, rfl, rfl⟩

/-- `lookupFrame` without a module, after its strings. -/
theorem lookupFrame_miss (sources : SymbolSources) (r : Resolver) (t : PerfSymbolTable) (ip : UInt64) (isKernel : Bool)
    (dirties : Bool) (h : (r.addressCache.find (t.elfs.findElf ip) ip t.invalidAddressCache).isValid = false)
    (found : QByteArray × UInt64 × QByteArray) (address : UInt64)
    (haddress : PerfAddressCache.symbolAddress ip sources.isArmArch = address)
    (hfound : findSymbolWithoutModule sources t.perfMap isKernel address = found) :
    ∃ (symbol : Int → Symbol) (interworking : Bool) (entry : AddressCacheEntry) (result : Int × Definitions),
      (∀ i, (symbol i).name = i) ∧
      result = (withStrings r.toDefinitions (t.elfs.findElf ip) found.2.2).define
        { address := if found.2.1 ≠ 0 then address - found.2.1 else (t.elfs.findElf ip).start, pid := t.pid.toUInt32 }
        { address := address, pid := t.pid.toUInt32 } found.1 symbol ∧
      entry = { locationId := result.1, isInterworking := interworking } ∧
      t.lookupFrame sources (withoutModule dirties) r ip isKernel = (entry,
        { toDefinitions := result.2
          addressCache := (r.addressCache.store (t.elfs.findElf ip) ip entry t.invalidAddressCache).1 },
        { t with
          cacheIsDirty := t.cacheIsDirty || dirties
          invalidAddressCache := (r.addressCache.store (t.elfs.findElf ip) ip entry t.invalidAddressCache).2 }) := by
  obtain ⟨symname, off, module⟩ := found
  unfold PerfSymbolTable.lookupFrame
  simp only [h, Bool.false_eq_true, if_false, withoutModule, lookupWithoutModule, haddress, hfound,
    Lookup.resolveFunction, if_true, definitions_resolveSymbol, frame_resolveSymbol]
  unfold withStrings
  split
  · exact ⟨_, _, _, _, fun _ => rfl, rfl, rfl, rfl⟩
  · exact ⟨_, _, _, _, fun _ => rfl, rfl, rfl, rfl⟩

/-- What a lookup caches, it caches under its key. -/
theorem cached_store (s : Lookups) (w : World) (c : Look) (d : Definitions) (entry : AddressCacheEntry)
    (dirty : Bool) (k : (QByteArray × UInt64) ⊕ (Int32 × UInt64)) :
    Lookups.cached
      { resolver := { toDefinitions := d
                      addressCache := (s.resolver.addressCache.store (w.elf c) c.ip entry
                        (s.tables c.pid).invalidAddressCache).1 }
        tables := Function.update s.tables c.pid
          { s.tables c.pid with
            cacheIsDirty := dirty
            invalidAddressCache := (s.resolver.addressCache.store (w.elf c) c.ip entry
              (s.tables c.pid).invalidAddressCache).2 } } k = if k = w.key c then some entry else s.cached k := by
  unfold World.key
  cases k with
  | inl k =>
    obtain ⟨path, relAddr⟩ := k
    simp only [cached, PerfAddressCache.entryAt_store]
    cases hvalid : (w.elf c).isValid with
    | true => simp only [if_true, true_and, Sum.inl.injEq, Prod.mk.injEq]
    | false => rw [if_neg (fun h => Bool.false_ne_true h.1), if_neg Bool.false_ne_true, if_neg Sum.inl_ne_inr]
  | inr k =>
    obtain ⟨pid, ip⟩ := k
    by_cases hpid : pid = c.pid
    · subst hpid
      simp only [cached, Function.update_self, PerfAddressCache.find_store]
      cases hvalid : (w.elf c).isValid with
      | true => rw [if_pos rfl, if_neg Sum.inr_ne_inl, if_neg (fun h => Bool.false_ne_true h.1.symm)]
      | false => simp only [Bool.false_eq_true, if_false, Sum.inr.injEq, Prod.mk.injEq, true_and]
    · rw [if_neg (by split <;> simp [hpid])]
      simp [cached, hpid]

/-- A lookup that misses the cache: it defines its locations, after its strings, and caches them under its key. -/
structure Miss (s : Lookups) (w : World) (c : Look) (d : Definitions) (symbol : Int → Symbol) : Prop where
  le : s.definitions.Le d
  locations : d.locations = s.definitions.locations
  symbols : d.symbols = s.definitions.symbols
  name : ∀ i, (symbol i).name = i
  id : (w.look s c).1.locationId = (d.define (w.functionLocation c) (w.addressLocation c) (w.name c) symbol).1
  definitions : (w.look s c).2.definitions =
    (d.define (w.functionLocation c) (w.addressLocation c) (w.name c) symbol).2
  cached : ∀ k, (w.look s c).2.cached k = if k = w.key c then some (w.look s c).1 else s.cached k
  serves : (w.look s c).2.Serves w

theorem look_miss {s : Lookups} {w : World} (h : s.Serves w) {c : Look} (hc : s.cached (w.key c) = none) :
    ∃ d symbol, s.Miss w c d symbol := by
  obtain ⟨hpid, helfs, hperfMap⟩ := h c.pid
  have hfind := find_eq_cached h c
  rw [hc, Option.getD_none] at hfind
  obtain ⟨symbol, interworking, entry, result, hname, hresult, hentry, hlookup⟩ :=
    lookupFrame_miss w.sources s.resolver (s.tables c.pid) c.ip c.isKernel c.dirties (by rw [hfind]; rfl)
      (w.symbol c) (w.address c) rfl (by rw [hperfMap]; rfl)
  have helf : (s.tables c.pid).elfs.findElf c.ip = w.elf c := by rw [helfs]; rfl
  rw [helf, hpid] at hresult
  rw [helf] at hlookup
  have hlook := World.look_eq hlookup
  obtain ⟨hle, hlocations, hsymbols⟩ := withStrings_spec s.definitions (w.elf c) (w.symbol c).2.2
  refine ⟨_, symbol, ⟨hle, hlocations, hsymbols, hname, ?_, ?_, fun k => ?_, fun pid => ?_⟩⟩
  · rw [hlook, hentry, hresult]
    rfl
  · rw [hlook, hresult]
    rfl
  · rw [hlook]
    exact cached_store s w c _ entry _ k
  · rw [hlook]
    by_cases hp : pid = c.pid
    · subst hp
      simpa using h c.pid
    · simpa [hp] using h pid

/-! ## What holds after any lookups -/

/-- Symbols have names, parents have symbols, and cached locations exist. -/
structure Sane (s : Lookups) : Prop where
  symbols : ∀ id symbol, s.definitions.symbols.find id = some symbol →
    0 ≤ id ∧ ∃ n, s.definitions.stringOf symbol.name = some n
  parents : ∀ l ∈ s.definitions.locations.entries,
    l.parentLocationId = -1 ∨ ∃ n, s.definitions.nameAt l.parentLocationId = some n
  cached : ∀ k entry, s.cached k = some entry → ∃ l, s.definitions.locations.get? entry.locationId = some l

theorem Sane.nameAt_none {s : Lookups} (h : s.Sane) : s.definitions.nameAt (-1) = none := by
  unfold Definitions.nameAt
  cases hf : s.definitions.symbols.find (-1) with
  | none => rfl
  | some symbol => exact absurd (h.symbols _ _ hf).1 (by decide)

theorem Sane.nameAt_of_hasSymbol {s : Lookups} (h : s.Sane) {id : Int} (hs : s.definitions.hasSymbol id = true) :
    ∃ n, s.definitions.nameAt id = some n := by
  obtain ⟨symbol, hf⟩ := Option.isSome_iff_exists.1 hs
  obtain ⟨-, n, hn⟩ := h.symbols id symbol hf
  exact ⟨n, Option.bind_eq_some_iff.2 ⟨symbol, hf, hn⟩⟩

/-- **The name of a location that exists never changes.** -/
theorem nameOf_stable {s s' : Lookups} (h : s.Sane) (h' : s'.Sane) (hle : s.definitions.Le s'.definitions) {id : Int}
    {l : Location} (hl : s.definitions.locations.get? id = some l) (n : QByteArray) :
    s'.definitions.nameOf id = some n ↔ s.definitions.nameOf id = some n := by
  have hl' := hle.locations.get? hl
  rw [Definitions.nameOf, hl', Option.bind_some, Definitions.nameOf, hl, Option.bind_some]
  rcases h.parents l (Interner.mem_of_get? hl) with hp | ⟨n', hn'⟩
  · rw [hp, h.nameAt_none, h'.nameAt_none]
  · rw [hn', hle.nameAt hn']

theorem Miss.le_look {s : Lookups} {w : World} {c : Look} {d : Definitions} {symbol : Int → Symbol}
    (m : s.Miss w c d symbol) : s.definitions.Le (w.look s c).2.definitions := by
  rw [m.definitions]
  exact m.le.trans (d.define_le _ _ _ _)

theorem Sane.miss {s : Lookups} {w : World} (h : s.Sane) {c : Look} {d : Definitions} {symbol : Int → Symbol}
    (m : s.Miss w c d symbol) : (w.look s c).2.Sane := by
  obtain ⟨l, hl, -⟩ := d.get?_define_function (w.functionLocation c) (w.addressLocation c) (w.name c) symbol
  have hnamed : ∃ n, (w.look s c).2.definitions.nameAt (d.parentId (w.functionLocation c)) = some n := by
    cases hs : s.definitions.hasSymbol (d.parentId (w.functionLocation c)) with
    | false =>
      rw [Definitions.hasSymbol, ← m.symbols] at hs
      rw [m.definitions]
      exact ⟨w.name c, Definitions.nameAt_define hs _ _ m.name⟩
    | true =>
      obtain ⟨n, hn⟩ := h.nameAt_of_hasSymbol hs
      exact ⟨n, m.le_look.nameAt hn⟩
  refine ⟨fun id symbol' hf => ?_, fun l' hl' => ?_, fun k entry hk => ?_⟩
  · have hf' := hf
    rw [m.definitions] at hf
    rcases Definitions.find_define hf with hf | rfl
    · rw [m.symbols] at hf
      obtain ⟨hpos, n, hn⟩ := h.symbols id symbol' hf
      exact ⟨hpos, n, m.le_look.stringOf hn⟩
    · obtain ⟨i, hi, -⟩ := Interner.get?_lt hl
      obtain ⟨n, hn⟩ := hnamed
      rw [Definitions.nameAt, hf', Option.bind_some] at hn
      exact ⟨by omega, n, hn⟩
  · rw [m.definitions] at hl'
    rcases Definitions.mem_define hl' with hl' | rfl | rfl
    · rw [m.locations] at hl'
      exact (h.parents l' hl').imp_right (fun ⟨n, hn⟩ => ⟨n, m.le_look.nameAt hn⟩)
    · exact .inl rfl
    · exact .inr hnamed
  · rw [m.cached] at hk
    split at hk
    · cases hk
      obtain ⟨l', hl', -⟩ := d.get?_define (w.functionLocation c) (w.addressLocation c) (w.name c) symbol
      exact ⟨l', by rw [m.id, m.definitions]; exact hl'⟩
    · obtain ⟨l', hl'⟩ := h.cached k entry hk
      exact ⟨l', m.le_look.locations.get? hl'⟩

end Lookups

/-! ## Consistent lookups -/

namespace World

variable (w : World)

/-- The calls that missed the cache: the first ones with their keys. -/
def misses (calls : List Look) : List Look :=
  calls.foldl (fun ms c => if ∃ c' ∈ ms, w.key c' = w.key c then ms else ms ++ [c]) []

theorem misses_snoc (calls : List Look) (c : Look) : w.misses (calls ++ [c]) =
    if ∃ c' ∈ w.misses calls, w.key c' = w.key c then w.misses calls else w.misses calls ++ [c] := List.foldl_append ..

/-- What the calls that missed have taken is right for the call as well: the entry under its key, its own location, or
the location of its function. -/
structure Consistent (misses : List Look) (c : Look) : Prop where
  hit : ∀ c' ∈ misses, w.key c' = w.key c → w.name c' = w.name c
  again : (∀ c' ∈ misses, w.key c' ≠ w.key c) → ∀ c' ∈ misses, w.addressLocation c' = w.addressLocation c →
    w.name c' = w.name c
  fresh : (∀ c' ∈ misses, w.key c' ≠ w.key c) → (∀ c' ∈ misses, w.addressLocation c' ≠ w.addressLocation c) →
    w.functionLocation c ≠ w.addressLocation c ∧ (∀ c' ∈ misses, w.functionLocation c' ≠ w.addressLocation c) ∧
      ∀ c', misses.find? (fun c' => w.functionLocation c' = w.functionLocation c) = some c' → w.name c' = w.name c

/-- The state after consistent lookups, by the calls that missed. -/
structure Holds (misses : List Look) (s : Lookups) : Prop where
  cached : ∀ c ∈ misses, ∃ entry, s.cached (w.key c) = some entry ∧
    s.definitions.nameOf entry.locationId = some (w.name c)
  keys : ∀ k entry, s.cached k = some entry → ∃ c ∈ misses, w.key c = k
  owners : ∀ id symbol, s.definitions.symbols.find id = some symbol →
    ∃ l, s.definitions.locations.get? id = some l ∧ ∃ c ∈ misses, l.key = w.functionLocation c
  functions : ∀ l c, misses.find? (fun c => w.functionLocation c = l) = some c →
    ∃ id l', s.definitions.locations.get? id = some l' ∧ l'.key = l ∧ s.definitions.nameAt id = some (w.name c)
  addresses : ∀ c ∈ misses, ∃ l ∈ s.definitions.locations.entries, l.key = w.addressLocation c ∧
    s.definitions.nameAt l.parentLocationId = some (w.name c)
  interned : ∀ l ∈ s.definitions.locations.entries,
    (∃ c ∈ misses, l = w.functionLocation c) ∨ ∃ c ∈ misses, l.key = w.addressLocation c

variable {w}

theorem Holds.cached_none {misses : List Look} {s : Lookups} (h : w.Holds misses s) {c : Look}
    (hc : ∀ c' ∈ misses, w.key c' ≠ w.key c) : s.cached (w.key c) = none := by
  cases hk : s.cached (w.key c) with
  | none => rfl
  | some entry =>
    obtain ⟨c', hc', hkey⟩ := h.keys _ entry hk
    exact absurd hkey (hc c' hc')

/-- A call that hits the cache gets the name of the call that missed. -/
theorem Holds.hit {misses : List Look} {s : Lookups} (hsane : s.Sane) (hserves : s.Serves w) (h : w.Holds misses s)
    {c c' : Look} (hc' : c' ∈ misses) (hkey : w.key c' = w.key c) :
    (w.look s c).2 = s ∧ s.definitions.nameOf (w.look s c).1.locationId = some (w.name c') := by
  obtain ⟨entry, hentry, hname⟩ := h.cached c' hc'
  rw [hkey] at hentry
  obtain ⟨l, hl⟩ := hsane.cached _ entry hentry
  obtain ⟨i, hi, -⟩ := Interner.get?_lt hl
  have hlook := Lookups.look_hit hserves hentry (by simp [AddressCacheEntry.isValid, hi])
  rw [hlook]
  exact ⟨rfl, hname⟩

section Miss

variable {misses : List Look} {s : Lookups} {c : Look} {d : Definitions} {symbol : Int → Symbol}

/-- The location that a call returns has its address, and is new or the one that was there. -/
theorem look_location (m : s.Miss w c d symbol) :
    ∃ l, (w.look s c).2.definitions.locations.get? (w.look s c).1.locationId = some l ∧
      l.key = w.addressLocation c ∧
      (l ∈ s.definitions.locations.entries ∨ l = w.functionLocation c ∨
        l = { w.addressLocation c with parentLocationId := d.parentId (w.functionLocation c) }) := by
  obtain ⟨l, hl, hkey⟩ := d.get?_define (w.functionLocation c) (w.addressLocation c) (w.name c) symbol
  refine ⟨l, by rw [m.id, m.definitions]; exact hl, hkey, ?_⟩
  rw [← m.locations]
  exact Definitions.mem_define (Interner.mem_of_get? hl)

/-- A location of an earlier call at the same address is returned again. -/
theorem look_of_mem (m : s.Miss w c d symbol) {l : Location} (hl : l ∈ s.definitions.locations.entries)
    (hkey : l.key = w.addressLocation c) :
    (w.look s c).2.definitions.locations.get? (w.look s c).1.locationId = some l := by
  obtain ⟨l', hl', hkey', -⟩ := look_location m
  obtain ⟨i, hi⟩ := Interner.get?_of_mem hl
  have hi' := m.le_look.locations.get? hi
  rwa [Interner.get?_inj hl' hi' (hkey'.trans hkey.symm)]

theorem Holds.named_again (h : w.Holds misses s) (m : s.Miss w c d symbol) {c' : Look} (hc' : c' ∈ misses)
    (haddress : w.addressLocation c' = w.addressLocation c) :
    (w.look s c).2.definitions.nameOf (w.look s c).1.locationId = some (w.name c') := by
  obtain ⟨l, hl, hkey, hname⟩ := h.addresses c' hc'
  rw [Definitions.nameOf, look_of_mem m hl (hkey.trans haddress), Option.bind_some]
  exact m.le_look.nameAt hname

/-- A location that was taken for a function has no parent. -/
theorem Holds.unnamed (hsane : (w.look s c).2.Sane) (h : w.Holds misses s) (m : s.Miss w c d symbol)
    (hnew : ∀ c' ∈ misses, w.addressLocation c' ≠ w.addressLocation c)
    (htaken : w.functionLocation c = w.addressLocation c ∨ ∃ c' ∈ misses, w.functionLocation c' = w.addressLocation c) :
    (w.look s c).2.definitions.nameOf (w.look s c).1.locationId = none := by
  have hold : ∀ l ∈ s.definitions.locations.entries, l.key = w.addressLocation c → l.parentLocationId = -1 := by
    intro l hl hkey
    rcases h.interned l hl with ⟨c', hc', rfl⟩ | ⟨c', hc', hkey'⟩
    · rfl
    · exact absurd (hkey'.symm.trans hkey) (hnew c' hc')
  have hparent : ∃ l, (w.look s c).2.definitions.locations.get? (w.look s c).1.locationId = some l ∧
      l.parentLocationId = -1 := by
    by_cases hmem : ∃ l ∈ s.definitions.locations.entries, l.key = w.addressLocation c
    · obtain ⟨l, hl, hkey⟩ := hmem
      exact ⟨l, look_of_mem m hl hkey, hold l hl hkey⟩
    · have hnone : ∀ l ∈ s.definitions.locations.entries, l.key ≠ w.addressLocation c :=
        fun l hl hkey => hmem ⟨l, hl, hkey⟩
      have hself : w.functionLocation c = w.addressLocation c := by
        refine htaken.resolve_right ?_
        rintro ⟨c', hc', hfunction⟩
        obtain ⟨c'', hfind⟩ : ∃ c'', misses.find? (fun c'' => w.functionLocation c'' = w.addressLocation c) = some c'' :=
          Option.isSome_iff_exists.1 (List.find?_isSome.2 ⟨c', hc', by simpa using hfunction⟩)
        obtain ⟨id, l, hl, hkey, -⟩ := h.functions _ c'' hfind
        exact hnone l (Interner.mem_of_get? hl) hkey
      have hget := Definitions.get?_define_new d (w.functionLocation c)
        (by rw [m.locations]; exact fun l hl => hself ▸ hnone l hl) (w.addressLocation c) (w.name c) symbol
      rw [← m.definitions] at hget
      obtain ⟨l, hl, hkey, -⟩ := look_location m
      rw [Interner.get?_inj hl hget (hkey.trans hself.symm)]
      exact ⟨_, hget, rfl⟩
  obtain ⟨l, hl, hp⟩ := hparent
  rw [Definitions.nameOf, hl, Option.bind_some, hp]
  exact hsane.nameAt_none

/-- The location of a function has no symbol before the first call with it. -/
theorem Holds.nameAt_first (h : w.Holds misses s) (m : s.Miss w c d symbol)
    (hfirst : misses.find? (fun c' => w.functionLocation c' = w.functionLocation c) = none) :
    (w.look s c).2.definitions.nameAt (d.parentId (w.functionLocation c)) = some (w.name c) := by
  obtain ⟨l, hl, hkey⟩ := d.get?_define_function (w.functionLocation c) (w.addressLocation c) (w.name c) symbol
  rw [← m.definitions] at hl
  have hnone : d.hasSymbol (d.parentId (w.functionLocation c)) = false := by
    rw [Definitions.hasSymbol, m.symbols, QHash.contains]
    cases hs : s.definitions.symbols.find (d.parentId (w.functionLocation c)) with
    | none => rfl
    | some symbol' =>
      obtain ⟨l', hl', c', hc', hkey'⟩ := h.owners _ symbol' hs
      rw [m.le_look.locations.get? hl'] at hl
      cases hl
      have hne : w.functionLocation c' ≠ w.functionLocation c := by simpa using List.find?_eq_none.1 hfirst c' hc'
      exact absurd (hkey'.symm.trans hkey) hne
  rw [m.definitions]
  exact Definitions.nameAt_define hnone _ _ m.name

/-- A new location has the name of the first call with its function's location. -/
theorem Holds.named_fresh (h : w.Holds misses s) (m : s.Miss w c d symbol)
    (hnew : ∀ c' ∈ misses, w.addressLocation c' ≠ w.addressLocation c)
    (hself : w.functionLocation c ≠ w.addressLocation c)
    (hfree : ∀ c' ∈ misses, w.functionLocation c' ≠ w.addressLocation c) :
    (w.look s c).2.definitions.nameOf (w.look s c).1.locationId =
      some (w.name ((misses.find? (fun c' => w.functionLocation c' = w.functionLocation c)).getD c)) := by
  obtain ⟨l, hl, hkey, hl'⟩ := look_location m
  have hl' : l = { w.addressLocation c with parentLocationId := d.parentId (w.functionLocation c) } := by
    rcases hl' with hl' | rfl | hl'
    · rcases h.interned l hl' with ⟨c', hc', rfl⟩ | ⟨c', hc', hkey'⟩
      · exact absurd hkey (hfree c' hc')
      · exact absurd (hkey'.symm.trans hkey) (hnew c' hc')
    · exact absurd hkey hself
    · exact hl'
  obtain ⟨l', hget, hkey'⟩ := d.get?_define_function (w.functionLocation c) (w.addressLocation c) (w.name c) symbol
  rw [Definitions.nameOf, hl, Option.bind_some, hl']
  rw [← m.definitions] at hget
  cases hfind : misses.find? (fun c' => w.functionLocation c' = w.functionLocation c) with
  | some c' =>
    obtain ⟨id, l₀, hl₀, hkey₀, hname⟩ := h.functions _ c' hfind
    rw [show d.parentId (w.functionLocation c) = id from
      Interner.get?_inj hget (m.le_look.locations.get? hl₀) (hkey'.trans hkey₀.symm)]
    exact m.le_look.nameAt hname
  | none => exact h.nameAt_first m hfind

/-- **A call that misses the cache reports its name exactly where it is consistent.** -/
theorem Holds.named_iff (hsane : (w.look s c).2.Sane) (h : w.Holds misses s) (m : s.Miss w c d symbol)
    (hc : ∀ c' ∈ misses, w.key c' ≠ w.key c) :
    (w.look s c).2.definitions.nameOf (w.look s c).1.locationId = some (w.name c) ↔ w.Consistent misses c := by
  have hhit : ∀ c' ∈ misses, w.key c' = w.key c → w.name c' = w.name c := fun c' hc' hkey => absurd hkey (hc c' hc')
  by_cases hagain : ∃ c' ∈ misses, w.addressLocation c' = w.addressLocation c
  · obtain ⟨c', hc', haddress⟩ := hagain
    constructor
    · intro hnamed
      refine ⟨hhit, fun _ c'' hc'' haddress' => ?_, fun _ hnew => absurd haddress (hnew c' hc')⟩
      exact Option.some.inj ((h.named_again m hc'' haddress').symm.trans hnamed)
    · intro hconsistent
      rw [h.named_again m hc' haddress, hconsistent.again hc c' hc' haddress]
  · have hnew : ∀ c' ∈ misses, w.addressLocation c' ≠ w.addressLocation c :=
      fun c' hc' haddress => hagain ⟨c', hc', haddress⟩
    have hagain' : ∀ c' ∈ misses, w.addressLocation c' = w.addressLocation c → w.name c' = w.name c :=
      fun c' hc' haddress => absurd haddress (hnew c' hc')
    by_cases htaken : w.functionLocation c = w.addressLocation c ∨
        ∃ c' ∈ misses, w.functionLocation c' = w.addressLocation c
    · rw [h.unnamed hsane m hnew htaken]
      refine ⟨fun hnone => absurd hnone.symm (Option.some_ne_none _), fun hconsistent => ?_⟩
      obtain ⟨hself, hfree, -⟩ := hconsistent.fresh hc hnew
      rcases htaken with htaken | ⟨c', hc', htaken⟩
      · exact absurd htaken hself
      · exact absurd htaken (hfree c' hc')
    · have hself : w.functionLocation c ≠ w.addressLocation c := fun he => htaken (.inl he)
      have hfree : ∀ c' ∈ misses, w.functionLocation c' ≠ w.addressLocation c :=
        fun c' hc' he => htaken (.inr ⟨c', hc', he⟩)
      rw [h.named_fresh m hnew hself hfree]
      constructor
      · intro hnamed
        refine ⟨hhit, fun _ => hagain', fun _ _ => ⟨hself, hfree, fun c' hfind => ?_⟩⟩
        rw [hfind] at hnamed
        exact Option.some.inj hnamed
      · intro hconsistent
        have hfirst := (hconsistent.fresh hc hnew).2.2
        cases hfind : misses.find? (fun c' => w.functionLocation c' = w.functionLocation c) with
        | none => rfl
        | some c' => rw [Option.getD_some, hfirst c' hfind]

theorem Holds.cached_miss (h : w.Holds misses s) (m : s.Miss w c d symbol) (hc : ∀ c' ∈ misses, w.key c' ≠ w.key c)
    (hnamed : (w.look s c).2.definitions.nameOf (w.look s c).1.locationId = some (w.name c)) {c' : Look}
    (hc' : c' ∈ misses ++ [c]) : ∃ entry, (w.look s c).2.cached (w.key c') = some entry ∧
      (w.look s c).2.definitions.nameOf entry.locationId = some (w.name c') := by
  rw [m.cached]
  rcases List.mem_append.1 hc' with hc' | hc'
  · obtain ⟨entry, hentry, hname⟩ := h.cached c' hc'
    rw [if_neg (hc c' hc')]
    exact ⟨entry, hentry, m.le_look.nameOf hname⟩
  · cases List.mem_singleton.1 hc'
    rw [if_pos rfl]
    exact ⟨_, rfl, hnamed⟩

/-- The first call with a location of its function names it. -/
theorem Holds.functions_miss (h : w.Holds misses s) (m : s.Miss w c d symbol) {l : Location} {c' : Look}
    (hfind : (misses ++ [c]).find? (fun c => w.functionLocation c = l) = some c') :
    ∃ id l', (w.look s c).2.definitions.locations.get? id = some l' ∧ l'.key = l ∧
      (w.look s c).2.definitions.nameAt id = some (w.name c') := by
  rw [List.find?_append] at hfind
  cases hold : misses.find? (fun c => w.functionLocation c = l) with
  | some c₀ =>
    rw [hold] at hfind
    cases hfind
    obtain ⟨id, l₀, hl₀, hkey₀, hname⟩ := h.functions l c' hold
    exact ⟨id, l₀, m.le_look.locations.get? hl₀, hkey₀, m.le_look.nameAt hname⟩
  | none =>
    rw [hold, Option.none_or, List.find?_singleton] at hfind
    split at hfind
    · rename_i hl
      cases hfind
      have hl : w.functionLocation c = l := of_decide_eq_true hl
      subst hl
      obtain ⟨l', hget, hkey'⟩ := d.get?_define_function (w.functionLocation c) (w.addressLocation c) (w.name c) symbol
      rw [← m.definitions] at hget
      exact ⟨_, l', hget, hkey', h.nameAt_first m hold⟩
    · cases hfind

theorem Holds.addresses_miss (h : w.Holds misses s) (m : s.Miss w c d symbol)
    (hnamed : (w.look s c).2.definitions.nameOf (w.look s c).1.locationId = some (w.name c)) {c' : Look}
    (hc' : c' ∈ misses ++ [c]) : ∃ l ∈ (w.look s c).2.definitions.locations.entries, l.key = w.addressLocation c' ∧
      (w.look s c).2.definitions.nameAt l.parentLocationId = some (w.name c') := by
  rcases List.mem_append.1 hc' with hc' | hc'
  · obtain ⟨l, hl, hkey, hname⟩ := h.addresses c' hc'
    exact ⟨l, m.le_look.locations.subset hl, hkey, m.le_look.nameAt hname⟩
  · cases List.mem_singleton.1 hc'
    obtain ⟨l, hl, hkey, -⟩ := look_location m
    rw [Definitions.nameOf, hl, Option.bind_some] at hnamed
    exact ⟨l, Interner.mem_of_get? hl, hkey, hnamed⟩

end Miss

/-! ## Runs -/

/-- A call that misses keeps what holds, where it reports its name. -/
theorem Holds.miss {misses : List Look} {s : Lookups} {c : Look} {d : Definitions} {symbol : Int → Symbol}
    (h : w.Holds misses s) (m : s.Miss w c d symbol) (hc : ∀ c' ∈ misses, w.key c' ≠ w.key c)
    (hnamed : (w.look s c).2.definitions.nameOf (w.look s c).1.locationId = some (w.name c)) :
    w.Holds (misses ++ [c]) (w.look s c).2 := by
  refine ⟨fun c' => h.cached_miss m hc hnamed, fun k entry hk => ?_, fun id symbol' hf => ?_,
    fun l c' => h.functions_miss m, fun c' => h.addresses_miss m hnamed, fun l hl => ?_⟩
  · rw [m.cached] at hk
    split at hk
    · rename_i hkey
      exact ⟨c, List.mem_append_right _ (List.mem_singleton_self c), hkey.symm⟩
    · obtain ⟨c', hc', hkey⟩ := h.keys k entry hk
      exact ⟨c', List.mem_append_left _ hc', hkey⟩
  · rw [m.definitions] at hf
    rcases Definitions.find_define hf with hf | rfl
    · rw [m.symbols] at hf
      obtain ⟨l, hl, c', hc', hkey⟩ := h.owners id symbol' hf
      exact ⟨l, m.le_look.locations.get? hl, c', List.mem_append_left _ hc', hkey⟩
    · obtain ⟨l, hget, hkey⟩ := d.get?_define_function (w.functionLocation c) (w.addressLocation c) (w.name c) symbol
      rw [← m.definitions] at hget
      exact ⟨l, hget, c, List.mem_append_right _ (List.mem_singleton_self c), hkey⟩
  · rw [m.definitions] at hl
    rcases Definitions.mem_define hl with hl | rfl | rfl
    · rw [m.locations] at hl
      refine (h.interned l hl).imp ?_ ?_
      · exact fun ⟨c', hc', hl⟩ => ⟨c', List.mem_append_left _ hc', hl⟩
      · exact fun ⟨c', hc', hl⟩ => ⟨c', List.mem_append_left _ hc', hl⟩
    · exact .inl ⟨c, List.mem_append_right _ (List.mem_singleton_self c), rfl⟩
    · exact .inr ⟨c, List.mem_append_right _ (List.mem_singleton_self c), rfl⟩

theorem start_serves (w : World) : w.start.Serves w := fun _ => ⟨rfl, rfl, rfl⟩

theorem start_cached (w : World) (k : (QByteArray × UInt64) ⊕ (Int32 × UInt64)) : w.start.cached k = none := by
  cases k <;> rfl

theorem start_sane (w : World) : w.start.Sane where
  symbols _ _ h := by cases h
  parents _ h := by cases h
  cached k _ h := by
    rw [start_cached] at h
    cases h

theorem start_holds (w : World) : w.Holds [] w.start where
  cached _ h := by cases h
  keys k _ h := by
    rw [start_cached] at h
    cases h
  owners _ _ h := by cases h
  functions _ _ h := by cases h
  addresses _ h := by cases h
  interned _ h := by cases h

theorem look_sane {s : Lookups} {c : Look} (hsane : s.Sane) (hserves : s.Serves w) :
    (w.look s c).2.Sane ∧ (w.look s c).2.Serves w ∧ s.definitions.Le (w.look s c).2.definitions ∧
      ∃ l, (w.look s c).2.definitions.locations.get? (w.look s c).1.locationId = some l := by
  cases hcached : s.cached (w.key c) with
  | none =>
    obtain ⟨d, symbol, m⟩ := Lookups.look_miss hserves hcached
    obtain ⟨l, hl, -⟩ := look_location m
    exact ⟨hsane.miss m, m.serves, m.le_look, l, hl⟩
  | some entry =>
    obtain ⟨l, hl⟩ := hsane.cached _ entry hcached
    obtain ⟨i, hi, -⟩ := Interner.get?_lt hl
    rw [Lookups.look_hit hserves hcached (by simp [AddressCacheEntry.isValid, hi])]
    exact ⟨hsane, hserves, .refl _, l, hl⟩

theorem run_sane (calls : List Look) : (w.run calls).Sane ∧ (w.run calls).Serves w := by
  induction calls using List.reverseRecOn with
  | nil => exact ⟨start_sane w, start_serves w⟩
  | append_singleton calls c ih =>
    rw [run_snoc]
    obtain ⟨hsane, hserves, -⟩ := look_sane (c := c) ih.1 ih.2
    exact ⟨hsane, hserves⟩

/-- A call after consistent ones reports its name exactly where it is consistent, and then all of this goes on. -/
theorem Holds.look {misses : List Look} {s : Lookups} (hsane : s.Sane) (hserves : s.Serves w) (h : w.Holds misses s)
    (c : Look) : ((w.look s c).2.definitions.nameOf (w.look s c).1.locationId = some (w.name c) ↔ w.Consistent misses c) ∧
      (w.Consistent misses c →
        w.Holds (if ∃ c' ∈ misses, w.key c' = w.key c then misses else misses ++ [c]) (w.look s c).2) := by
  by_cases hhit : ∃ c' ∈ misses, w.key c' = w.key c
  · obtain ⟨c', hc', hkey⟩ := hhit
    obtain ⟨hstate, hname⟩ := h.hit hsane hserves hc' hkey
    rw [hstate, hname, if_pos ⟨c', hc', hkey⟩]
    refine ⟨⟨fun hsame => ?_, fun hconsistent => by rw [hconsistent.hit c' hc' hkey]⟩, fun _ => h⟩
    refine ⟨fun c'' hc'' hkey' => ?_, fun hno => absurd hkey (hno c' hc'), fun hno => absurd hkey (hno c' hc')⟩
    obtain ⟨-, hname'⟩ := h.hit hsane hserves hc'' hkey'
    exact Option.some.inj ((hname'.symm.trans hname).trans hsame)
  · have hc : ∀ c' ∈ misses, w.key c' ≠ w.key c := fun c' hc' hkey => hhit ⟨c', hc', hkey⟩
    obtain ⟨d, symbol, m⟩ := Lookups.look_miss hserves (h.cached_none hc)
    have hiff := h.named_iff (hsane.miss m) m hc
    rw [if_neg hhit]
    exact ⟨hiff, fun hconsistent => h.miss m hc (hiff.2 hconsistent)⟩

/-- Every call reports the name of its symbol, also after all later calls. -/
def Named (w : World) (calls : List Look) : Prop := ∀ pre c post, calls = pre ++ c :: post →
  (w.run calls).definitions.nameOf (w.frame pre c) = some (w.name c)

theorem run_le (calls more : List Look) : (w.run calls).definitions.Le (w.run (calls ++ more)).definitions := by
  induction more using List.reverseRecOn with
  | nil => rw [List.append_nil]; exact .refl _
  | append_singleton more c ih =>
    rw [← List.append_assoc, run_snoc]
    obtain ⟨hsane, hserves⟩ := run_sane (w := w) (calls ++ more)
    exact ih.trans (look_sane hsane hserves).2.2.1

theorem get?_frame (pre : List Look) (c : Look) (post : List Look) :
    ∃ l, (w.run (pre ++ c :: post)).definitions.locations.get? (w.frame pre c) = some l := by
  obtain ⟨hsane, hserves⟩ := run_sane (w := w) pre
  obtain ⟨l, hl⟩ := (look_sane (c := c) hsane hserves).2.2.2
  rw [← run_snoc] at hl
  rw [← List.singleton_append, ← List.append_assoc]
  exact ⟨l, (run_le (pre ++ [c]) post).locations.get? hl⟩

theorem named_snoc {calls : List Look} {c : Look} : w.Named (calls ++ [c]) ↔ w.Named calls ∧
    (w.look (w.run calls) c).2.definitions.nameOf (w.look (w.run calls) c).1.locationId = some (w.name c) := by
  have hstable : ∀ pre c' post, calls = pre ++ c' :: post → ∀ n,
      (w.run (calls ++ [c])).definitions.nameOf (w.frame pre c') = some n ↔
        (w.run calls).definitions.nameOf (w.frame pre c') = some n := by
    rintro pre c' post rfl n
    obtain ⟨l, hl⟩ := get?_frame (w := w) pre c' post
    exact Lookups.nameOf_stable (run_sane _).1 (run_sane _).1 (run_le _ [c]) hl n
  constructor
  · intro h
    refine ⟨fun pre c' post hcalls => ?_, ?_⟩
    · exact (hstable pre c' post hcalls _).1 (h pre c' (post ++ [c]) (by rw [hcalls]; simp))
    · rw [← run_snoc]
      exact h calls c [] rfl
  · rintro ⟨h, hlast⟩ pre c' post hcalls
    rcases List.eq_nil_or_concat post with rfl | ⟨post', b, rfl⟩
    · obtain ⟨rfl, hc⟩ := List.append_inj' hcalls rfl
      cases hc
      rw [run_snoc]
      exact hlast
    · rw [List.concat_eq_append, ← List.cons_append, ← List.append_assoc] at hcalls
      obtain ⟨hcalls, -⟩ := List.append_inj' hcalls rfl
      exact (hstable pre c' post' hcalls _).2 (h pre c' post' hcalls)

theorem run_holds (calls : List Look) : (w.Named calls ↔ Always (fun pre c => w.Consistent (w.misses pre) c) calls) ∧
    (Always (fun pre c => w.Consistent (w.misses pre) c) calls → w.Holds (w.misses calls) (w.run calls)) := by
  induction calls using List.reverseRecOn with
  | nil =>
    refine ⟨⟨fun _ => History.always_nil, fun _ pre c post h => ?_⟩, fun _ => start_holds w⟩
    cases pre <;> cases h
  | append_singleton calls c ih =>
    obtain ⟨hiff, hholds⟩ := ih
    obtain ⟨hsane, hserves⟩ := run_sane (w := w) calls
    rw [named_snoc, History.always_snoc, hiff]
    constructor
    · exact and_congr_right (fun h => ((hholds h).look hsane hserves c).1)
    · rintro ⟨h, hc⟩
      rw [run_snoc, misses_snoc]
      exact ((hholds h).look hsane hserves c).2 hc

/-- **Lookups without a module report the names of their symbols exactly where they are consistent.** -/
theorem named_iff_consistent (w : World) (calls : List Look) :
    w.Named calls ↔ Always (fun pre c => w.Consistent (w.misses pre) c) calls := (run_holds calls).1

/-- A kernel without a mapping, with two symbols. -/
def twoSymbols : World where
  sources := { kallsyms := [{ address := 0x1000, symbol := QByteArray.ofString "first" },
                            { address := 0x2000, symbol := QByteArray.ofString "second" }] }

/-- **The starts of two symbols share a location**: the second gets the name of the first. -/
theorem not_named_starts : ¬∀ (w : World) (calls : List Look), w.Named calls := by
  intro h
  let first : Look := { pid := -1, ip := 0x1000, isKernel := true }
  let second : Look := { pid := -1, ip := 0x2000, isKernel := true }
  have hname := h twoSymbols [first, second] [first] second [] rfl
  revert hname
  decide

end World

end PerfParser
