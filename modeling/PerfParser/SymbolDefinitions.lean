import PerfParser.SymbolTables
/-!
# SymbolDefinitions — what a lookup defines

A lookup interns strings and locations and attaches symbols to locations, and it does so bottom up: whatever one of its
records mentions has been defined before (`Sends`).  The location that it returns is one of the address it was asked
for.
-/
namespace PerfParser

namespace Definitions

/-- The id of a string that has been sent, or of none. -/
def KnowsString (d : Definitions) (id : Int) : Prop := id = -1 ∨ ∃ s, d.strings.get? id = some s

/-- The id of a location that has been sent, or of none. -/
def KnowsLocation (d : Definitions) (id : Int) : Prop := id = -1 ∨ ∃ l, d.locations.get? id = some l

/-- What a location mentions. -/
structure LocationKnown (d : Definitions) (l : Location) : Prop where
  file : d.KnowsString l.file
  parent : d.KnowsLocation l.parentLocationId

/-- What a symbol mentions. -/
structure SymbolKnown (d : Definitions) (symbol : Symbol) : Prop where
  name : d.KnowsString symbol.name
  binary : d.KnowsString symbol.binary
  path : d.KnowsString symbol.path
  actualPath : d.KnowsString symbol.actualPath

/-- The definitions after some strings, locations and symbols that mention what was known when they were sent. -/
inductive Sends (d : Definitions) : Definitions → Prop
  | refl : Sends d d
  | string {d' : Definitions} (h : Sends d d') (s : QByteArray) : Sends d (d'.resolveString s).2
  | location {d' : Definitions} (h : Sends d d') {l : Location} (known : d'.LocationKnown l) :
      Sends d (d'.resolveLocation l).2
  | symbol {d' : Definitions} (h : Sends d d') {id : Int} {symbol : Symbol} (owner : d'.KnowsLocation id)
      (known : d'.SymbolKnown symbol) : Sends d (d'.resolveSymbol id symbol)
  | progress {d' : Definitions} (h : Sends d d') {module url : Int} (hmodule : d'.KnowsString module)
      (hurl : d'.KnowsString url) (numerator denominator : Int64) :
      Sends d (d'.sendDebugInfoDownloadProgress module url numerator denominator)

theorem Sends.trans {d d' d'' : Definitions} (h : d.Sends d') (h' : d'.Sends d'') : d.Sends d'' := by
  induction h' with
  | refl => exact h
  | string _ s ih => exact ih.string s
  | location _ known ih => exact ih.location known
  | symbol _ owner known ih => exact ih.symbol owner known
  | progress _ hmodule hurl numerator denominator ih => exact ih.progress hmodule hurl numerator denominator

theorem strings_le_resolveString (d : Definitions) (s : QByteArray) : d.strings.Le (d.resolveString s).2.strings := by
  unfold resolveString
  split
  · exact .refl _
  · exact Interner.le_resolve _ _

theorem locations_resolveString (d : Definitions) (s : QByteArray) : (d.resolveString s).2.locations = d.locations := by
  unfold resolveString
  split <;> rfl

theorem Sends.strings_le {d d' : Definitions} (h : d.Sends d') : d.strings.Le d'.strings := by
  induction h with
  | refl => exact .refl _
  | string _ s ih => exact ih.trans (strings_le_resolveString _ s)
  | location _ _ ih => exact ih
  | symbol _ _ _ ih => exact ih
  | progress _ _ _ _ _ ih => exact ih

theorem Sends.locations_le {d d' : Definitions} (h : d.Sends d') : d.locations.Le d'.locations := by
  induction h with
  | refl => exact .refl _
  | string _ s ih => rwa [locations_resolveString]
  | location _ _ ih => exact ih.trans (Interner.le_resolve _ _)
  | symbol _ _ _ ih => exact ih
  | progress _ _ _ _ _ ih => exact ih

/-! What is known stays known. -/

theorem Sends.knowsString {d d' : Definitions} (h : d.Sends d') {id : Int} (hid : d.KnowsString id) :
    d'.KnowsString id := hid.imp_right (fun ⟨s, hs⟩ => ⟨s, h.strings_le.get? hs⟩)

theorem Sends.knowsLocation {d d' : Definitions} (h : d.Sends d') {id : Int} (hid : d.KnowsLocation id) :
    d'.KnowsLocation id := hid.imp_right (fun ⟨l, hl⟩ => ⟨l, h.locations_le.get? hl⟩)

theorem Sends.locationKnown {d d' : Definitions} (h : d.Sends d') {l : Location} (hl : d.LocationKnown l) :
    d'.LocationKnown l := ⟨h.knowsString hl.file, h.knowsLocation hl.parent⟩

theorem knowsString_none (d : Definitions) : d.KnowsString (-1) := .inl rfl

theorem knowsLocation_none (d : Definitions) : d.KnowsLocation (-1) := .inl rfl

theorem knowsString_resolveString (d : Definitions) (s : QByteArray) :
    (d.resolveString s).2.KnowsString (d.resolveString s).1 := by
  unfold resolveString
  split
  · exact knowsString_none d
  · obtain ⟨b, hb, -⟩ := Interner.get?_resolve d.strings s
    exact .inr ⟨b, hb⟩

theorem get?_resolveLocation (d : Definitions) (l : Location) :
    ∃ l', (d.resolveLocation l).2.locations.get? (d.resolveLocation l).1 = some l' ∧ l'.key = l.key :=
  Interner.get?_resolve _ _

theorem knowsLocation_resolveLocation (d : Definitions) (l : Location) :
    (d.resolveLocation l).2.KnowsLocation (d.resolveLocation l).1 := by
  obtain ⟨l', hl', -⟩ := d.get?_resolveLocation l
  exact .inr ⟨l', hl'⟩

theorem Sends.resolveLocation {d d' : Definitions} (h : d.Sends d') {l : Location} (known : d'.LocationKnown l) :
    d.Sends (d'.resolveLocation l).2 ∧ (d'.resolveLocation l).2.KnowsLocation (d'.resolveLocation l).1 :=
  ⟨h.location known, knowsLocation_resolveLocation d' l⟩

theorem knowsLocation_lookupLocation (d : Definitions) (l : Location) : d.KnowsLocation (d.lookupLocation l) := by
  unfold lookupLocation
  split
  · rename_i id h
    obtain ⟨l', hl', -⟩ := Interner.get?_of_lookup h
    exact .inr ⟨l', hl'⟩
  · exact knowsLocation_none d

/-! What libdwfl looks for. -/

theorem downloadProgress_sends (d : Definitions) {module : Int} (hmodule : d.KnowsString module) (download : Download) :
    d.Sends (d.downloadProgress module download) := by
  have hurl := Sends.refl.string (d := d) download.url
  exact hurl.progress (hurl.knowsString hmodule) (d.knowsString_resolveString download.url) _ _

theorem findDebugInfo_sends (d : Definitions) (search : DebugInfoSearch) : d.Sends (d.findDebugInfo search) := by
  have hmodule := Sends.refl.string (d := d) search.moduleName
  have hdownloads : ∀ (downloads : List Download) (d : Definitions) {module : Int}, d.KnowsString module →
      d.Sends (downloads.foldl (downloadProgress module) d) := by
    intro downloads
    induction downloads with
    | nil => exact fun _ _ _ => .refl
    | cons download downloads ih =>
      intro d module hmodule
      have hsends := d.downloadProgress_sends hmodule download
      exact hsends.trans (ih _ (hsends.knowsString hmodule))
  exact hmodule.trans (hdownloads search.downloads _ (d.knowsString_resolveString search.moduleName))

theorem findAllDebugInfo_sends (d : Definitions) (sources : SymbolSources) : d.Sends (d.findAllDebugInfo sources) := by
  have hsearches : ∀ (searches : List DebugInfoSearch) (d : Definitions), d.Sends (searches.foldl findDebugInfo d) := by
    intro searches
    induction searches with
    | nil => exact fun _ => .refl
    | cons search searches ih => exact fun d => (d.findDebugInfo_sends search).trans (ih _)
  exact hsearches _ d

end Definitions

open Definitions (Sends)

/-! ## Inline chains -/

/-- The paths that every symbol of a lookup mentions. -/
structure SymbolContext.Known (x : SymbolContext) (d : Definitions) : Prop where
  binary : d.KnowsString x.binaryId
  path : d.KnowsString x.binaryPathId
  actualPath : d.KnowsString x.actualPathId

theorem SymbolContext.Known.sends {x : SymbolContext} {d d' : Definitions} (hx : x.Known d) (h : d.Sends d') :
    x.Known d' := ⟨h.knowsString hx.binary, h.knowsString hx.path, h.knowsString hx.actualPath⟩

theorem insertSubprogram_sends {x : SymbolContext} {d : Definitions} (hx : x.Known d) (die : Die) (entry : UInt64)
    {inlineCallLocationId : Int} (hcall : d.KnowsLocation inlineCallLocationId) (isInline : Bool) :
    d.Sends (insertSubprogram x d die entry inlineCallLocationId isInline).2 ∧
      (insertSubprogram x d die entry inlineCallLocationId isInline).2.KnowsLocation
        (insertSubprogram x d die entry inlineCallLocationId isInline).1 := by
  have hfile := Sends.refl.string (d := d) die.declFile
  obtain ⟨hlocation, hid⟩ := hfile.resolveLocation
    (l := { address := entry, relAddr := x.relAddr, file := (d.resolveString die.declFile).1, pid := x.pid.toUInt32,
            line := die.declLine.getD 0, column := die.declColumn.getD 0, parentLocationId := inlineCallLocationId })
    ⟨d.knowsString_resolveString die.declFile, hfile.knowsLocation hcall⟩
  have hname := hlocation.string die.name
  have howner := (Sends.refl.string die.name).knowsLocation hid
  have hx := hx.sends hname
  exact ⟨hname.symbol howner ⟨Definitions.knowsString_resolveString _ _, hx.binary, hx.path, hx.actualPath⟩, howner⟩

theorem parseDie_sends {x : SymbolContext} {d : Definitions} (hx : x.Known d) (die : Die) (entry : UInt64)
    {parentLocationId : Int} (hparent : d.KnowsLocation parentLocationId) :
    d.Sends (parseDie x d die entry parentLocationId).2 ∧
      (parseDie x d die entry parentLocationId).2.KnowsLocation (parseDie x d die entry parentLocationId).1 := by
  unfold parseDie
  split
  · have hfile := Sends.refl.string (d := d) die.callFile
    obtain ⟨hcall, hcallId⟩ := hfile.resolveLocation
      (l := { address := entry, file := (d.resolveString die.callFile).1, pid := x.pid.toUInt32,
              line := die.callLine.getD (-1), column := die.callColumn.getD (-1), parentLocationId := parentLocationId })
      ⟨d.knowsString_resolveString die.callFile, hfile.knowsLocation hparent⟩
    obtain ⟨hsends, hid⟩ := insertSubprogram_sends (hx.sends hcall) die entry hcallId true
    exact ⟨hcall.trans hsends, hid⟩
  · exact insertSubprogram_sends hx die entry d.knowsLocation_none false

theorem parseDwarf_sends {x : SymbolContext} (bias : UInt64) : ∀ (dies : List Die) {d : Definitions}
    {parentLocationId : Int}, x.Known d → d.KnowsLocation parentLocationId →
    d.Sends (parseDwarf x bias d parentLocationId dies).2 ∧
      (parseDwarf x bias d parentLocationId dies).2.KnowsLocation (parseDwarf x bias d parentLocationId dies).1
  | [], _, _, _, hparent => ⟨.refl, hparent⟩
  | die :: dies, d, parentLocationId, hx, hparent => by
    obtain ⟨hsends, hid⟩ := parseDie_sends hx die (bias + die.entry.getD 0) hparent
    have hnext : (parseDie x d die (bias + die.entry.getD 0) parentLocationId).2.KnowsLocation
        (if (parseDie x d die (bias + die.entry.getD 0) parentLocationId).1 ≠ -1 then
          (parseDie x d die (bias + die.entry.getD 0) parentLocationId).1 else parentLocationId) := by
      split
      · exact hid
      · exact hsends.knowsLocation hparent
    obtain ⟨hrest, hlast⟩ := parseDwarf_sends bias dies (hx.sends hsends) hnext
    exact ⟨hsends.trans hrest, hlast⟩

/-! ## Lookups -/

/-- A lookup in progress that started with `d`, for an address of a process. -/
structure Lookup.Sound (l : Lookup) (d : Definitions) (address : UInt64) (pid : UInt32) : Prop where
  sends : d.Sends l.definitions
  known : l.definitions.LocationKnown l.addressLocation
  address : l.addressLocation.address = address
  pid : l.addressLocation.pid = pid

variable {d : Definitions} {address : UInt64} {pid : UInt32} {l : Lookup}

/-- A lookup that has sent more, and has its parent's location. -/
theorem Lookup.Sound.withParent (h : l.Sound d address pid) {d' : Definitions} (hsends : l.definitions.Sends d')
    {parent : Int} (hparent : d'.KnowsLocation parent) (symname : QByteArray) :
    ({ l with
        symname := symname
        definitions := d'
        addressLocation := { l.addressLocation with parentLocationId := parent } } : Lookup).Sound d address pid :=
  ⟨h.sends.trans hsends, ⟨hsends.knowsString h.known.file, hparent⟩, h.address, h.pid⟩

theorem Lookup.Sound.findAllDebugInfo (h : l.Sound d address pid) (sources : SymbolSources) :
    ({ l with definitions := l.definitions.findAllDebugInfo sources } : Lookup).Sound d address pid :=
  have hsends := l.definitions.findAllDebugInfo_sends sources
  ⟨h.sends.trans hsends, hsends.locationKnown h.known, h.address, h.pid⟩

theorem resolveFunction_sends (l : Lookup) {functionLocation : Location}
    (hf : l.definitions.LocationKnown functionLocation) :
    l.definitions.Sends (l.resolveFunction functionLocation).definitions := by
  unfold Lookup.resolveFunction
  split
  · exact Sends.refl.location hf
  · exact .refl

theorem resolveFunction_sound (h : l.Sound d address pid) {functionLocation : Location}
    (hf : l.definitions.LocationKnown functionLocation) : (l.resolveFunction functionLocation).Sound d address pid := by
  unfold Lookup.resolveFunction
  split
  · exact h.withParent (Sends.refl.location hf) (Definitions.knowsLocation_resolveLocation _ _) l.symname
  · exact h

/-! The two steps of `lookupCuDie`. -/

/-- The source location of the address. -/
def Lookup.setSource (l : Lookup) : Option SourceLocation → Lookup
  | some srcloc =>
    let (file, d) := l.definitions.resolveString srcloc.file
    { l with
      definitions := d
      addressLocation := { l.addressLocation with file := file, line := srcloc.line, column := srcloc.column } }
  | none => l

/-- The location of a function or of an inlined one. -/
def dieLocation (bias : UInt64) (functionLocation : Location) (file : Int) (die : Die) : Location :=
  { functionLocation with
    address := die.entry.getD 0 + bias
    file := file
    line := die.declLine.getD functionLocation.line
    column := die.declColumn.getD functionLocation.column }

/-- The function the address is in, as the parent of its location. -/
def Lookup.setSubprogram (x : SymbolContext) (bias : UInt64) (functionLocation : Location) (l : Lookup) :
    Option SubprogramDie → Lookup × Location
  | none => (l, functionLocation)
  | some subprogram =>
    let die := subprogram.scopes.getLast?.getD subprogram.die
    let (file, d) := l.definitions.resolveString die.declFile
    let functionLocation := dieLocation bias functionLocation file die
    let parent := d.lookupLocation functionLocation
    let (parent, d) :=
      if subprogram.scopes ≠ [] ∧ ¬d.hasSymbol parent then
        parseDwarf x bias d (-1) (subprogram.die :: subprogram.scopes)
      else (parent, d)
    ({ l with
        symname := die.name
        definitions := d
        addressLocation := { l.addressLocation with parentLocationId := parent } }, functionLocation)

theorem lookupCuDie_eq (x : SymbolContext) (cudie : CuDie) (functionLocation : Location) (l : Lookup) :
    lookupCuDie x cudie functionLocation l =
      (l.setSource (cudie.sourceLocation (l.addressLocation.address - cudie.bias))).setSubprogram x cudie.bias
        functionLocation (cudie.subprogram (l.addressLocation.address - cudie.bias)) := by
  unfold lookupCuDie Lookup.setSource Lookup.setSubprogram
  dsimp only
  cases cudie.sourceLocation (l.addressLocation.address - cudie.bias) <;>
    cases cudie.subprogram (l.addressLocation.address - cudie.bias) <;> rfl

theorem setSource_sound (h : l.Sound d address pid) (srcloc : Option SourceLocation) :
    (l.setSource srcloc).Sound d address pid ∧ l.definitions.Sends (l.setSource srcloc).definitions := by
  cases srcloc with
  | none => exact ⟨h, .refl⟩
  | some srcloc =>
    have hfile := Sends.refl.string (d := l.definitions) srcloc.file
    exact ⟨⟨h.sends.trans hfile, ⟨Definitions.knowsString_resolveString _ _, hfile.knowsLocation h.known.parent⟩,
      h.address, h.pid⟩, hfile⟩

theorem setSubprogram_sound {x : SymbolContext} (h : l.Sound d address pid) (hx : x.Known l.definitions) (bias : UInt64)
    {functionLocation : Location} (hf : l.definitions.LocationKnown functionLocation)
    (subprogram : Option SubprogramDie) :
    (l.setSubprogram x bias functionLocation subprogram).1.Sound d address pid ∧
      (l.setSubprogram x bias functionLocation subprogram).1.definitions.LocationKnown
        (l.setSubprogram x bias functionLocation subprogram).2 := by
  cases subprogram with
  | none => exact ⟨h, hf⟩
  | some subprogram =>
    unfold Lookup.setSubprogram
    dsimp only
    generalize subprogram.scopes.getLast?.getD subprogram.die = die
    have hfile := Sends.refl.string (d := l.definitions) die.declFile
    have hfileId := l.definitions.knowsString_resolveString die.declFile
    have hparent := hfile.knowsLocation hf.parent
    split
    · obtain ⟨hparse, hid⟩ := parseDwarf_sends bias (subprogram.die :: subprogram.scopes) (hx.sends hfile)
        (Definitions.knowsLocation_none _)
      exact ⟨h.withParent (hfile.trans hparse) hid die.name, ⟨hparse.knowsString hfileId, hparse.knowsLocation hparent⟩⟩
    · exact ⟨h.withParent hfile (Definitions.knowsLocation_lookupLocation _ _) die.name, ⟨hfileId, hparent⟩⟩

theorem lookupCuDie_sound {x : SymbolContext} (h : l.Sound d address pid) (hx : x.Known l.definitions) (cudie : CuDie)
    {functionLocation : Location} (hf : l.definitions.LocationKnown functionLocation) :
    (lookupCuDie x cudie functionLocation l).1.Sound d address pid ∧
      (lookupCuDie x cudie functionLocation l).1.definitions.LocationKnown
        (lookupCuDie x cudie functionLocation l).2 := by
  obtain ⟨hl, hsends⟩ := setSource_sound h (cudie.sourceLocation (l.addressLocation.address - cudie.bias))
  rw [lookupCuDie_eq]
  exact setSubprogram_sound hl (hx.sends hsends) cudie.bias (hsends.locationKnown hf) _

theorem lookupModule_sound (sources : SymbolSources) (mod : Module) (elf : ElfInfo) (elfStart : UInt64)
    {x : SymbolContext} (addressCache : PerfAddressCache) (h : l.Sound d address pid) (hx : x.Known l.definitions) :
    (lookupModule sources mod elf elfStart x addressCache l).1.Sound d address pid := by
  unfold lookupModule
  dsimp only
  generalize PerfAddressCache.findSymbol sources.demangle _ elf.originalPath (l.addressLocation.address - elfStart)
    = found
  obtain ⟨info, cache⟩ := found
  dsimp only
  generalize PerfAddressCache.alignedAddress _ sources.isArmArch = relAddr
  generalize l.addressLocation.address - (l.addressLocation.address - elfStart - info.offset) = functionAddress
  have hsymbols := h.findAllDebugInfo sources
  have hunits := hsymbols.findAllDebugInfo sources
  have hl : ({ l with symname := info.symname, start := info.value, size := info.size, relAddr := relAddr,
                      definitions := (l.definitions.findAllDebugInfo sources).findAllDebugInfo sources } :
      Lookup).Sound d address pid := ⟨hunits.sends, hunits.known, h.address, h.pid⟩
  have hf : ((l.definitions.findAllDebugInfo sources).findAllDebugInfo sources).LocationKnown
      { l.addressLocation with address := functionAddress } := ⟨hunits.known.file, hunits.known.parent⟩
  have hx := (hx.sends (l.definitions.findAllDebugInfo_sends sources)).sends
    ((l.definitions.findAllDebugInfo sources).findAllDebugInfo_sends sources)
  split
  · split
    · rename_i cudie _
      obtain ⟨hl, hf⟩ := lookupCuDie_sound hl
        (x := { x with offset := info.value, size := info.size, relAddr := relAddr })
        ⟨hx.binary, hx.path, hx.actualPath⟩ cudie hf
      exact resolveFunction_sound hl hf
    · exact resolveFunction_sound hl hf
  · exact resolveFunction_sound (l := { l with
        symname := mod.fakeSymbol l.addressLocation.address
        definitions := l.definitions.findAllDebugInfo sources })
      ⟨hsymbols.sends, hsymbols.known, h.address, h.pid⟩ hsymbols.known

theorem lookupWithoutModule_sound (sources : SymbolSources) (perfMap : List PerfMapSymbol) (isKernel : Bool)
    (elfStart : UInt64) {binaryId : Int} (h : l.Sound d address pid) (hbinary : l.definitions.KnowsString binaryId) :
    (lookupWithoutModule sources perfMap isKernel elfStart binaryId l).1.Sound d address pid ∧
      (lookupWithoutModule sources perfMap isKernel elfStart binaryId l).1.definitions.KnowsString
        (lookupWithoutModule sources perfMap isKernel elfStart binaryId l).2 := by
  unfold lookupWithoutModule
  generalize findSymbolWithoutModule sources perfMap isKernel l.addressLocation.address = found
  obtain ⟨symname, off, module⟩ := found
  dsimp only
  generalize (if off ≠ 0 then l.addressLocation.address - off else elfStart) = functionAddress
  have hmodule : ∀ r : Int × Definitions,
      (if module.isEmpty then (binaryId, l.definitions) else l.definitions.resolveString module) = r →
      l.definitions.Sends r.2 ∧ r.2.KnowsString r.1 := by
    rintro r rfl
    split
    · exact ⟨.refl, hbinary⟩
    · exact ⟨Sends.refl.string module, Definitions.knowsString_resolveString _ _⟩
  generalize hr : (if module.isEmpty then (binaryId, l.definitions) else l.definitions.resolveString module) = r
  obtain ⟨hsends, hid⟩ := hmodule r hr
  obtain ⟨binaryId', d'⟩ := r
  have hl : ({ l with symname := symname, definitions := d' } : Lookup).Sound d address pid :=
    ⟨h.sends.trans hsends, hsends.locationKnown h.known, h.address, h.pid⟩
  have hf : d'.LocationKnown { l.addressLocation with address := functionAddress } :=
    ⟨hl.known.file, hl.known.parent⟩
  exact ⟨resolveFunction_sound hl hf, (resolveFunction_sends _ hf).knowsString hid⟩

theorem resolveSymbol_sound {x : SymbolContext} (h : l.Sound d address pid) (hx : x.Known l.definitions) :
    (l.resolveSymbol x).Sound d address pid := by
  unfold Lookup.resolveSymbol
  split
  · exact h
  · have hname := Sends.refl.string (d := l.definitions) l.symname
    have hx := hx.sends hname
    have hknown : (l.definitions.resolveString l.symname).2.SymbolKnown
        { name := (l.definitions.resolveString l.symname).1, relAddr := l.start, size := l.size, binary := x.binaryId,
          path := x.binaryPathId, actualPath := x.actualPathId, isKernel := x.isKernel } :=
      ⟨Definitions.knowsString_resolveString _ _, hx.binary, hx.path, hx.actualPath⟩
    have hsymbol := hname.symbol (hname.knowsLocation h.known.parent) hknown
    exact ⟨h.sends.trans hsymbol, hsymbol.locationKnown h.known, h.address, h.pid⟩

theorem resolveElf_sends (d : Definitions) (elf : ElfInfo) : d.Sends (resolveElf d elf).2 ∧
    (resolveElf d elf).2.KnowsString (resolveElf d elf).1.1 ∧
    (resolveElf d elf).2.KnowsString (resolveElf d elf).1.2.1 ∧
    (resolveElf d elf).2.KnowsString (resolveElf d elf).1.2.2 := by
  unfold resolveElf
  split
  · have hname := Sends.refl.string (d := d) elf.originalFileName
    have hpath := hname.string elf.originalPath
    have hactual := hpath.string elf.localFile.absoluteFilePath
    refine ⟨hactual, ?_, ?_, Definitions.knowsString_resolveString _ _⟩
    · exact ((Sends.refl.string _).string _).knowsString (d.knowsString_resolveString elf.originalFileName)
    · exact (Sends.refl.string _).knowsString (Definitions.knowsString_resolveString _ _)
  · exact ⟨.refl, d.knowsString_none, d.knowsString_none, d.knowsString_none⟩

/-- What the address cache holds of locations, a lookup of symbols leaves alone. -/
theorem lookupModule_cache (sources : SymbolSources) (mod : Module) (elf : ElfInfo) (elfStart : UInt64)
    (x : SymbolContext) (addressCache : PerfAddressCache) (l : Lookup) :
    (lookupModule sources mod elf elfStart x addressCache l).2.cache = addressCache.cache := by
  have hcache : (if addressCache.hasSymbolCache elf.originalPath then addressCache
      else addressCache.setSymbolCache elf.originalPath
        (PerfAddressCache.extractSymbols mod.symbols elfStart sources.isArmArch)).cache = addressCache.cache := by
    split <;> rfl
  unfold lookupModule
  dsimp only
  generalize (if addressCache.hasSymbolCache elf.originalPath then addressCache
    else addressCache.setSymbolCache elf.originalPath
      (PerfAddressCache.extractSymbols mod.symbols elfStart sources.isArmArch)) = c at hcache ⊢
  split <;> exact hcache

/-! The steps of `lookupFrame` where the cache has no answer. -/

/-- The branch with a module or without one, with the id of the binary. -/
def lookupSymbol (sources : SymbolSources) (perfMap : List PerfMapSymbol) (elf : ElfInfo) (x : SymbolContext)
    (addressCache : PerfAddressCache) (l : Lookup) : Option Module → Lookup × Int × PerfAddressCache
  | some mod =>
    let (l, addressCache) := lookupModule sources mod elf elf.start x addressCache l
    (l, x.binaryId, addressCache)
  | none =>
    let (l, binaryId) := lookupWithoutModule sources perfMap x.isKernel elf.start x.binaryId l
    (l, binaryId, addressCache)

/-- The cached location. -/
def Lookup.entry (l : Lookup) : AddressCacheEntry where
  locationId := (l.definitions.resolveLocation { l.addressLocation with relAddr := l.relAddr }).1
  isInterworking := l.symname = QByteArray.ofString "$a" ∨ l.symname = QByteArray.ofString "$t"

theorem lookupSymbol_sound (sources : SymbolSources) (perfMap : List PerfMapSymbol) (elf : ElfInfo) {x : SymbolContext}
    (addressCache : PerfAddressCache) (h : l.Sound d address pid) (hx : x.Known l.definitions) (mod : Option Module) :
    (lookupSymbol sources perfMap elf x addressCache l mod).1.Sound d address pid ∧
      (lookupSymbol sources perfMap elf x addressCache l mod).1.definitions.KnowsString
        (lookupSymbol sources perfMap elf x addressCache l mod).2.1 := by
  cases mod with
  | some mod =>
    have hl := lookupModule_sound (l := l) sources mod elf elf.start addressCache
      ⟨.refl, h.known, rfl, rfl⟩ hx
    have hsound := lookupModule_sound sources mod elf elf.start addressCache h hx
    exact ⟨hsound, hl.sends.knowsString hx.binary⟩
  | none => exact lookupWithoutModule_sound sources perfMap x.isKernel elf.start h hx.binary

theorem lookupSymbol_cache (sources : SymbolSources) (perfMap : List PerfMapSymbol) (elf : ElfInfo) (x : SymbolContext)
    (addressCache : PerfAddressCache) (l : Lookup) (mod : Option Module) :
    (lookupSymbol sources perfMap elf x addressCache l mod).2.2.cache = addressCache.cache := by
  cases mod with
  | some mod => exact lookupModule_cache sources mod elf elf.start x addressCache l
  | none => rfl

namespace PerfSymbolTable

variable {sources : SymbolSources} {module : PerfSymbolTable → UInt64 → ElfInfo → Option Module × PerfSymbolTable}
  {r : Resolver} {t : PerfSymbolTable} {ip : UInt64} {isKernel : Bool}

theorem lookupFrame_hit (h : (r.addressCache.find (t.elfs.findElf ip) ip t.invalidAddressCache).isValid = true) :
    t.lookupFrame sources module r ip isKernel =
      (r.addressCache.find (t.elfs.findElf ip) ip t.invalidAddressCache, r, t) := by
  unfold lookupFrame
  dsimp only
  rw [if_pos h]

/-- The mapping's strings, the symbol with what it belongs to, and the locations. -/
theorem lookupFrame_of_miss
    (h : (r.addressCache.find (t.elfs.findElf ip) ip t.invalidAddressCache).isValid = false) :
    t.lookupFrame sources module r ip isKernel =
      let elf := t.elfs.findElf ip
      let ((binaryId, binaryPathId, actualPathId), d) := resolveElf r.toDefinitions elf
      let (mod, t) := module t ip elf
      let x : SymbolContext :=
        { pid := t.pid, offset := 0, size := 0, relAddr := 0, binaryId := binaryId, binaryPathId := binaryPathId,
          actualPathId := actualPathId, isKernel := isKernel }
      let (l, binaryId, addressCache) := lookupSymbol sources t.perfMap elf x r.addressCache
        { addressLocation :=
            { address := PerfAddressCache.symbolAddress ip sources.isArmArch, pid := t.pid.toUInt32 }
          definitions := d } mod
      let l := l.resolveSymbol { x with binaryId := binaryId }
      let (addressCache, invalid) := addressCache.store elf ip l.entry t.invalidAddressCache
      (l.entry,
        { toDefinitions := (l.definitions.resolveLocation { l.addressLocation with relAddr := l.relAddr }).2
          addressCache := addressCache },
        { t with invalidAddressCache := invalid }) := by
  unfold lookupFrame
  dsimp only
  rw [if_neg (ne_true_of_eq_false h)]
  cases (module t ip (t.elfs.findElf ip)).1 <;> rfl

section Found

variable (sources : SymbolSources) (module : PerfSymbolTable → UInt64 → ElfInfo → Option Module × PerfSymbolTable)

/-- What `lookupFrame` has when the function has its symbol, before it resolves the location of the address. -/
def found (r : Resolver) (t : PerfSymbolTable) (ip : UInt64) (isKernel : Bool) : Lookup :=
  let elf := t.elfs.findElf ip
  let ((binaryId, binaryPathId, actualPathId), d) := resolveElf r.toDefinitions elf
  let (mod, t) := module t ip elf
  let x : SymbolContext :=
    { pid := t.pid, offset := 0, size := 0, relAddr := 0, binaryId := binaryId, binaryPathId := binaryPathId,
      actualPathId := actualPathId, isKernel := isKernel }
  let (l, binaryId, _) := lookupSymbol sources t.perfMap elf x r.addressCache
    { addressLocation := { address := PerfAddressCache.symbolAddress ip sources.isArmArch, pid := t.pid.toUInt32 }
      definitions := d } mod
  l.resolveSymbol { x with binaryId := binaryId }

/-- The lookup that is not answered from the cache resolves the location it has found. -/
theorem lookupFrame_found {r : Resolver} {t : PerfSymbolTable} {ip : UInt64} {isKernel : Bool}
    (h : (r.addressCache.find (t.elfs.findElf ip) ip t.invalidAddressCache).isValid = false) :
    let l := t.found sources module r ip isKernel
    (t.lookupFrame sources module r ip isKernel).1 = l.entry ∧
      (t.lookupFrame sources module r ip isKernel).2.1.toDefinitions =
        (l.definitions.resolveLocation { l.addressLocation with relAddr := l.relAddr }).2 := by
  rw [lookupFrame_of_miss h]
  exact ⟨rfl, rfl⟩

theorem found_sound (r : Resolver) (t : PerfSymbolTable) (ip : UInt64) (isKernel : Bool) :
    (t.found sources module r ip isKernel).Sound (resolveElf r.toDefinitions (t.elfs.findElf ip)).2
      (PerfAddressCache.symbolAddress ip sources.isArmArch) (module t ip (t.elfs.findElf ip)).2.pid.toUInt32 := by
  obtain ⟨-, hbinary, hpath, hactual⟩ := resolveElf_sends r.toDefinitions (t.elfs.findElf ip)
  unfold found
  dsimp only
  generalize (module t ip (t.elfs.findElf ip)).2 = t'
  generalize hx : ({ pid := t'.pid, offset := 0, size := 0, relAddr := 0, isKernel := isKernel,
                     binaryId := (resolveElf r.toDefinitions (t.elfs.findElf ip)).1.1,
                     binaryPathId := (resolveElf r.toDefinitions (t.elfs.findElf ip)).1.2.1,
                     actualPathId := (resolveElf r.toDefinitions (t.elfs.findElf ip)).1.2.2 } : SymbolContext) = x
  have hknown : x.Known (resolveElf r.toDefinitions (t.elfs.findElf ip)).2 := by
    rw [← hx]
    exact ⟨hbinary, hpath, hactual⟩
  have hl : ({ addressLocation :=
                 { address := PerfAddressCache.symbolAddress ip sources.isArmArch, pid := t'.pid.toUInt32 }
               definitions := (resolveElf r.toDefinitions (t.elfs.findElf ip)).2 } : Lookup).Sound
      (resolveElf r.toDefinitions (t.elfs.findElf ip)).2 (PerfAddressCache.symbolAddress ip sources.isArmArch)
      t'.pid.toUInt32 :=
    ⟨.refl, ⟨Definitions.knowsString_none _, Definitions.knowsLocation_none _⟩, rfl, rfl⟩
  obtain ⟨hsound, hbinary'⟩ := lookupSymbol_sound sources t'.perfMap (t.elfs.findElf ip) r.addressCache hl hknown
    (module t ip (t.elfs.findElf ip)).1
  generalize lookupSymbol sources _ _ _ _ _ (module t ip (t.elfs.findElf ip)).1 = result at hsound hbinary' ⊢
  obtain ⟨l, binaryId, addressCache⟩ := result
  subst hx
  exact resolveSymbol_sound hsound
    ⟨hbinary', hsound.sends.knowsString hknown.path, hsound.sends.knowsString hknown.actualPath⟩

theorem found_sends (r : Resolver) (t : PerfSymbolTable) (ip : UInt64) (isKernel : Bool) :
    r.toDefinitions.Sends (t.found sources module r ip isKernel).definitions :=
  (resolveElf_sends r.toDefinitions (t.elfs.findElf ip)).1.trans (found_sound sources module r t ip isKernel).sends

end Found

/-- What a lookup that is not answered from the cache does. -/
structure Missed (sources : SymbolSources)
    (module : PerfSymbolTable → UInt64 → ElfInfo → Option Module × PerfSymbolTable) (r : Resolver) (t : PerfSymbolTable)
    (ip : UInt64) (result : AddressCacheEntry × Resolver × PerfSymbolTable) : Prop where
  sends : r.toDefinitions.Sends result.2.1.toDefinitions
  location : ∃ l, result.2.1.locations.get? result.1.locationId = some l ∧
    l.address = PerfAddressCache.symbolAddress ip sources.isArmArch ∧
    l.pid = (module t ip (t.elfs.findElf ip)).2.pid.toUInt32
  cached : ∃ c : PerfAddressCache, c.cache = r.addressCache.cache ∧
    c.store (t.elfs.findElf ip) ip result.1 (module t ip (t.elfs.findElf ip)).2.invalidAddressCache =
      (result.2.1.addressCache, result.2.2.invalidAddressCache)
  table : result.2.2 =
    { (module t ip (t.elfs.findElf ip)).2 with invalidAddressCache := result.2.2.invalidAddressCache }

/-- **A lookup defines what it mentions, and caches a location of the address it was asked for.** -/
theorem lookupFrame_miss (h : (r.addressCache.find (t.elfs.findElf ip) ip t.invalidAddressCache).isValid = false) :
    Missed sources module r t ip (t.lookupFrame sources module r ip isKernel) := by
  have hfound := found_sound sources module r t ip isKernel
  obtain ⟨hentry, hdefinitions⟩ : (t.lookupFrame sources module r ip isKernel).1 =
      (t.found sources module r ip isKernel).entry ∧ _ := lookupFrame_found sources module h
  generalize t.found sources module r ip isKernel = l at hfound hentry hdefinitions
  obtain ⟨hlocation, hid⟩ := hfound.sends.resolveLocation (l := { l.addressLocation with relAddr := l.relAddr })
    ⟨hfound.known.file, hfound.known.parent⟩
  obtain ⟨location, hget, hkey⟩ := l.definitions.get?_resolveLocation { l.addressLocation with relAddr := l.relAddr }
  refine ⟨?_, ⟨location, ?_, ?_, ?_⟩, ?_, ?_⟩
  · rw [hdefinitions]
    exact (resolveElf_sends r.toDefinitions (t.elfs.findElf ip)).1.trans hlocation
  · rw [hentry]
    exact (congrArg (fun d : Definitions => d.locations.get? l.entry.locationId) hdefinitions).trans hget
  · exact (congrArg Location.address hkey).trans hfound.address
  · exact (congrArg Location.pid hkey).trans hfound.pid
  · rw [lookupFrame_of_miss h]
    exact ⟨_, lookupSymbol_cache sources _ _ _ _ _ _, rfl⟩
  · rw [lookupFrame_of_miss h]

end PerfSymbolTable

end PerfParser
