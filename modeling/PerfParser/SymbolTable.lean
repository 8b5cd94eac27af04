import PerfParser.AddressCache
import PerfParser.Lib.Interner
/-!
# SymbolTable — locations and symbols of addresses (`perfsymboltable.cpp`)

`PerfSymbolTable` turns the addresses of one process into locations; the strings, locations and symbols themselves are
the unwinder's and shared by all processes.  What libdw and libdwfl answer for a module is a parameter: `Module` is what
the lookup reads of it.
-/
namespace PerfParser

structure Location where
  address : UInt64 := 0
  relAddr : UInt64 := 0
  file : Int := -1
  pid : UInt32 := 0
  line : Int := 0
  column : Int := 0
  parentLocationId : Int := -1
deriving DecidableEq, Repr, Inhabited

/-- What `operator==` and `qHash` read of a location: everything but its parent. -/
def Location.key (l : Location) : Location := { l with parentLocationId := -1 }

/-- `PerfUnwind::Symbol`. -/
structure Symbol where
  name : Int := -1
  relAddr : UInt64 := 0
  size : UInt64 := 0
  binary : Int := -1
  path : Int := -1
  actualPath : Int := -1
  isKernel : Bool := false
  isInline : Bool := false
deriving DecidableEq, Repr, Inhabited

/-- A record that a lookup sends: the definition of an id for the receiver, or the progress of a download. -/
inductive Definition
  | string (id : Int) (string : QByteArray)
  | location (id : Int) (location : Location)
  | symbol (id : Int) (symbol : Symbol)
  | debugInfoDownloadProgress (module url : Int) (numerator denominator : Int64)
deriving DecidableEq, Repr

/-- A call of debuginfod's progress function. -/
structure Download where
  url : QByteArray
  numerator : Int64
  denominator : Int64
deriving DecidableEq, Repr, Inhabited

/-- A call of `PerfSymbolTable::findDebugInfo`, with the downloads it starts. -/
structure DebugInfoSearch where
  moduleName : QByteArray
  downloads : List Download := []
deriving DecidableEq, Repr, Inhabited

/-- `m_strings`, `m_locations` and `m_symbols`, with the records sent for them. -/
structure Definitions where
  strings : Interner (id : QByteArray → QByteArray) := .empty
  locations : Interner Location.key := .empty
  symbols : QHash Int Symbol := []
  output : List Definition := []

namespace Definitions

def resolveString (d : Definitions) (string : QByteArray) : Int × Definitions :=
  if string.isEmpty then (-1, d)
  else
    let (id, strings) := d.strings.resolve string
    let output := if (d.strings.lookup string).isSome then d.output else d.output ++ [.string id string]
    (id, { d with strings := strings, output := output })

def lookupLocation (d : Definitions) (location : Location) : Int :=
  match d.locations.lookup location with
  | some id => id
  | none => -1

def resolveLocation (d : Definitions) (location : Location) : Int × Definitions :=
  let (id, locations) := d.locations.resolve location
  let output := if (d.locations.lookup location).isSome then d.output else d.output ++ [.location id location]
  (id, { d with locations := locations, output := output })

def hasSymbol (d : Definitions) (locationId : Int) : Bool := d.symbols.contains locationId

def resolveSymbol (d : Definitions) (locationId : Int) (symbol : Symbol) : Definitions :=
  { d with symbols := d.symbols.insert locationId symbol, output := d.output ++ [.symbol locationId symbol] }

def sendDebugInfoDownloadProgress (d : Definitions) (module url : Int) (numerator denominator : Int64) : Definitions :=
  { d with output := d.output ++ [.debugInfoDownloadProgress module url numerator denominator] }

/-- The progress function, for the module that debug information is looked for. -/
def downloadProgress (module : Int) (d : Definitions) (download : Download) : Definitions :=
  let (url, d) := d.resolveString download.url
  d.sendDebugInfoDownloadProgress module url download.numerator download.denominator

/-- `PerfSymbolTable::findDebugInfo`, as far as the receiver sees it. -/
def findDebugInfo (d : Definitions) (search : DebugInfoSearch) : Definitions :=
  let (module, d) := d.resolveString search.moduleName
  search.downloads.foldl (downloadProgress module) d

end Definitions

/-! ## What the addresses mean -/

structure PerfKallsymEntry where
  address : UInt64 := 0
  symbol : QByteArray := []
  module : QByteArray := []
deriving DecidableEq, Repr, Inhabited

/-- `PerfKallsyms::findEntry` in the sorted entries. -/
def findKallsymEntry (kallsyms : List PerfKallsymEntry) (address : UInt64) : PerfKallsymEntry :=
  (kallsyms.takeWhile (fun entry => entry.address ≤ address)).getLast?.getD {}

structure PerfMapSymbol where
  start : UInt64 := 0
  length : UInt64 := 0
  name : QByteArray := []
deriving DecidableEq, Repr, Inhabited

/-- `PerfSymbolTable::symbolFromPerfMap` in the sorted perf map, with the offset. -/
def symbolFromPerfMap (perfMap : List PerfMapSymbol) (ip : UInt64) : QByteArray × UInt64 :=
  match (perfMap.takeWhile (fun sym => sym.start ≤ ip)).getLast? with
  | some sym => if sym.start ≤ ip ∧ sym.start + sym.length > ip then (sym.name, ip - sym.start) else ([], 0)
  | none => ([], 0)

/-- What the lookup reads of a subprogram or of an inlined subroutine; a path is the absolute source path. -/
structure Die where
  isInlined : Bool := false
  name : QByteArray := []
  entry : Option UInt64 := none
  declFile : QByteArray := []
  declLine : Option Int := none
  declColumn : Option Int := none
  callFile : QByteArray := []
  callLine : Option Int := none
  callColumn : Option Int := none
deriving DecidableEq, Repr, Inhabited

structure SourceLocation where
  file : QByteArray
  line : Int
  column : Int
deriving DecidableEq, Repr, Inhabited

/-- A subprogram, with the inline scopes of an offset in it. -/
structure SubprogramDie where
  die : Die
  scopes : List Die
deriving DecidableEq, Repr, Inhabited

/-- A compilation unit. -/
structure CuDie where
  bias : UInt64
  sourceLocation : UInt64 → Option SourceLocation
  subprogram : UInt64 → Option SubprogramDie

/-- A module that libdwfl has for an address. -/
structure Module where
  symbols : List ElfSymbol := []
  fakeSymbol : UInt64 → QByteArray := fun _ => []
  cuDie : UInt64 → Option CuDie := fun _ => none

/-- What the lookups of all processes share and none changes.  `debugInfo` is what libdwfl looks for when it is asked for
something, after the records that have been sent so far. -/
structure SymbolSources where
  kallsyms : List PerfKallsymEntry := []
  isArmArch : Bool := false
  demangle : QByteArray → QByteArray := id
  debugInfo : List Definition → List DebugInfoSearch := fun _ => []

/-- The calls of `findDebugInfo` that libdwfl makes. -/
def Definitions.findAllDebugInfo (d : Definitions) (sources : SymbolSources) : Definitions :=
  (sources.debugInfo d.output).foldl findDebugInfo d

/-- The definitions with the cache of the locations. -/
structure Resolver extends Definitions where
  addressCache : PerfAddressCache := {}

/-- A module that has been reported to libdwfl, with the range it got there. -/
structure DwflModule where
  name : QByteArray
  path : QByteArray
  start : UInt64
  stop : UInt64
deriving DecidableEq, Repr, Inhabited

/-- The table of one process; `dwfl` is what has been reported to its `m_dwfl`. -/
structure PerfSymbolTable where
  pid : Int32
  elfs : PerfElfMap := {}
  perfMap : List PerfMapSymbol := []
  invalidAddressCache : OffsetAddressCache := []
  cacheIsDirty : Bool := false
  dwfl : List DwflModule := []
  isAttached : Bool := false
deriving DecidableEq, Repr, Inhabited

/-! ## Inline chains -/

/-- What every symbol of a lookup shares. -/
structure SymbolContext where
  pid : Int32
  offset : UInt64
  size : UInt64
  relAddr : UInt64
  binaryId : Int
  binaryPathId : Int
  actualPathId : Int
  isKernel : Bool
deriving DecidableEq, Repr

/-- `PerfSymbolTable::insertSubprogram`. -/
def insertSubprogram (x : SymbolContext) (d : Definitions) (die : Die) (entry : UInt64) (inlineCallLocationId : Int)
    (isInline : Bool) : Int × Definitions :=
  let (fileId, d) := d.resolveString die.declFile
  let (locationId, d) := d.resolveLocation
    { address := entry, relAddr := x.relAddr, file := fileId, pid := x.pid.toUInt32, line := die.declLine.getD 0,
      column := die.declColumn.getD 0, parentLocationId := inlineCallLocationId }
  let (symId, d) := d.resolveString die.name
  (locationId, d.resolveSymbol locationId
    { name := symId, relAddr := x.offset, size := x.size, binary := x.binaryId, path := x.binaryPathId,
      actualPath := x.actualPathId, isKernel := x.isKernel, isInline := isInline })

/-- `PerfSymbolTable::parseDie` of a subprogram or an inlined subroutine. -/
def parseDie (x : SymbolContext) (d : Definitions) (die : Die) (entry : UInt64) (parentLocationId : Int) :
    Int × Definitions :=
  if die.isInlined then
    let (fileId, d) := d.resolveString die.callFile
    let (callLocationId, d) := d.resolveLocation
      { address := entry, file := fileId, pid := x.pid.toUInt32, line := die.callLine.getD (-1),
        column := die.callColumn.getD (-1), parentLocationId := parentLocationId }
    insertSubprogram x d die entry callLocationId true
  else insertSubprogram x d die entry (-1) false

/-- `PerfSymbolTable::parseDwarf` over the subprogram and its inline scopes. -/
def parseDwarf (x : SymbolContext) (bias : UInt64) : Definitions → Int → List Die → Int × Definitions
  | d, parentLocationId, [] => (parentLocationId, d)
  | d, parentLocationId, die :: dies =>
    let (locationId, d) := parseDie x d die (bias + die.entry.getD 0) parentLocationId
    parseDwarf x bias d (if locationId ≠ -1 then locationId else parentLocationId) dies

/-! ## Looking up a frame -/

/-- What `lookupFrame` knows of an address when it is through with the module, or has none. -/
structure Lookup where
  symname : QByteArray := []
  start : UInt64 := 0
  size : UInt64 := 0
  relAddr : UInt64 := 0
  addressLocation : Location
  definitions : Definitions

/-- The branch for an address with debug information: the source location of the address, and the function or the
innermost inlined one it is in. -/
def lookupCuDie (x : SymbolContext) (cudie : CuDie) (functionLocation : Location) (l : Lookup) : Lookup × Location :=
  let offset := l.addressLocation.address - cudie.bias
  let l :=
    match cudie.sourceLocation offset with
    | some srcloc =>
      let (file, d) := l.definitions.resolveString srcloc.file
      { l with
        definitions := d
        addressLocation := { l.addressLocation with file := file, line := srcloc.line, column := srcloc.column } }
    | none => l
  match cudie.subprogram offset with
  | none => (l, functionLocation)
  | some subprogram =>
    let die := subprogram.scopes.getLast?.getD subprogram.die
    let (file, d) := l.definitions.resolveString die.declFile
    let functionLocation := { functionLocation with
      address := die.entry.getD 0 + cudie.bias
      file := file
      line := die.declLine.getD functionLocation.line
      column := die.declColumn.getD functionLocation.column }
    -- check if the inline chain was cached already, otherwise resolve it if possible
    let parent := d.lookupLocation functionLocation
    let (parent, d) :=
      if subprogram.scopes ≠ [] ∧ ¬d.hasSymbol parent then
        parseDwarf x cudie.bias d (-1) (subprogram.die :: subprogram.scopes)
      else (parent, d)
    ({ l with
        symname := die.name
        definitions := d
        addressLocation := { l.addressLocation with parentLocationId := parent } }, functionLocation)

/-- The location of the function as the parent, where the inline chain has none. -/
def Lookup.resolveFunction (l : Lookup) (functionLocation : Location) : Lookup :=
  if l.addressLocation.parentLocationId = -1 then
    let (parent, d) := l.definitions.resolveLocation functionLocation
    { l with definitions := d, addressLocation := { l.addressLocation with parentLocationId := parent } }
  else l

/-- The branch with a module. -/
def lookupModule (sources : SymbolSources) (mod : Module) (elf : ElfInfo) (elfStart : UInt64) (x : SymbolContext)
    (addressCache : PerfAddressCache) (l : Lookup) : Lookup × PerfAddressCache :=
  let address := l.addressLocation.address
  let functionLocation := l.addressLocation
  -- libdwfl is asked for the symbols
  let l := { l with definitions := l.definitions.findAllDebugInfo sources }
  let addressCache :=
    if addressCache.hasSymbolCache elf.originalPath then addressCache
    else addressCache.setSymbolCache elf.originalPath
      (PerfAddressCache.extractSymbols mod.symbols elfStart sources.isArmArch)
  let (info, addressCache) := addressCache.findSymbol sources.demangle elf.originalPath (address - elfStart)
  if info.isValid then
    let off := address - elfStart - info.offset
    let relAddr := PerfAddressCache.alignedAddress (info.value + off) sources.isArmArch
    -- libdwfl is asked for the compilation units
    let l := { l with symname := info.symname, start := info.value, size := info.size, relAddr := relAddr,
                      definitions := l.definitions.findAllDebugInfo sources }
    let functionLocation := { functionLocation with address := functionLocation.address - off }
    let x := { x with offset := info.value, size := info.size, relAddr := relAddr }
    let (l, functionLocation) :=
      match mod.cuDie address with
      | some cudie => lookupCuDie x cudie functionLocation l
      | none => (l, functionLocation)
    (l.resolveFunction functionLocation, addressCache)
  else
    -- no symbol found
    ({ l with symname := mod.fakeSymbol address }.resolveFunction functionLocation, addressCache)

/-- The symbol of an address without a module, from the kernel's symbols or the perf map: its name, the offset in it and
the kernel module. -/
def findSymbolWithoutModule (sources : SymbolSources) (perfMap : List PerfMapSymbol) (isKernel : Bool)
    (address : UInt64) : QByteArray × UInt64 × QByteArray :=
  if isKernel then
    let entry := findKallsymEntry sources.kallsyms address
    (entry.symbol, address - entry.address, entry.module)
  else
    let (symname, off) := symbolFromPerfMap perfMap address
    (symname, off, [])

/-- The branch without a module, with the id of the binary. -/
def lookupWithoutModule (sources : SymbolSources) (perfMap : List PerfMapSymbol) (isKernel : Bool) (elfStart : UInt64)
    (binaryId : Int) (l : Lookup) : Lookup × Int :=
  let (symname, off, module) := findSymbolWithoutModule sources perfMap isKernel l.addressLocation.address
  let (binaryId, d) := if module.isEmpty then (binaryId, l.definitions) else l.definitions.resolveString module
  let functionAddress := if off ≠ 0 then l.addressLocation.address - off else elfStart
  ({ l with symname := symname, definitions := d }.resolveFunction
    { l.addressLocation with address := functionAddress }, binaryId)

/-- The symbol of the parent location, where it has none yet. -/
def Lookup.resolveSymbol (l : Lookup) (x : SymbolContext) : Lookup :=
  if l.definitions.hasSymbol l.addressLocation.parentLocationId then l
  else
    let (symId, d) := l.definitions.resolveString l.symname
    let symbol : Symbol :=
      { name := symId, relAddr := l.start, size := l.size, binary := x.binaryId, path := x.binaryPathId,
        actualPath := x.actualPathId, isKernel := x.isKernel }
    { l with definitions := d.resolveSymbol l.addressLocation.parentLocationId symbol }

/-- The ids of the names and paths of a mapping. -/
def resolveElf (d : Definitions) (elf : ElfInfo) : (Int × Int × Int) × Definitions :=
  if elf.isValid then
    let (binaryId, d) := d.resolveString elf.originalFileName
    let (binaryPathId, d) := d.resolveString elf.originalPath
    let (actualPathId, d) := d.resolveString elf.localFile.absoluteFilePath
    ((binaryId, binaryPathId, actualPathId), d)
  else ((-1, -1, -1), d)

/-- Where the mapping of an address starts: at its base. -/
def ElfInfo.start (elf : ElfInfo) : UInt64 :=
  if elf.isValid then (if elf.hasBaseAddr then elf.baseAddr else elf.addr) else 0

/-- `PerfSymbolTable::lookupFrame`; `module` is `PerfSymbolTable::module`. -/
def PerfSymbolTable.lookupFrame (sources : SymbolSources)
    (module : PerfSymbolTable → UInt64 → ElfInfo → Option Module × PerfSymbolTable) (r : Resolver) (t : PerfSymbolTable)
    (ip : UInt64) (isKernel : Bool) : AddressCacheEntry × Resolver × PerfSymbolTable :=
  let elf := t.elfs.findElf ip
  let cached := r.addressCache.find elf ip t.invalidAddressCache
  if cached.isValid then (cached, r, t)
  else
    let ((binaryId, binaryPathId, actualPathId), d) := resolveElf r.toDefinitions elf
    let (mod, t) := module t ip elf
    let x : SymbolContext :=
      { pid := t.pid, offset := 0, size := 0, relAddr := 0, binaryId := binaryId, binaryPathId := binaryPathId,
        actualPathId := actualPathId, isKernel := isKernel }
    let addressLocation : Location :=
      { address := PerfAddressCache.symbolAddress ip sources.isArmArch, pid := t.pid.toUInt32 }
    let l : Lookup := { addressLocation := addressLocation, definitions := d }
    let (l, binaryId, addressCache) :=
      match mod with
      | some mod =>
        let (l, addressCache) := lookupModule sources mod elf elf.start x r.addressCache l
        (l, binaryId, addressCache)
      | none =>
        let (l, binaryId) := lookupWithoutModule sources t.perfMap isKernel elf.start binaryId l
        (l, binaryId, r.addressCache)
    let l := l.resolveSymbol { x with binaryId := binaryId }
    let (locationId, d) := l.definitions.resolveLocation { l.addressLocation with relAddr := l.relAddr }
    let entry : AddressCacheEntry :=
      { locationId := locationId
        isInterworking := l.symname = QByteArray.ofString "$a" ∨ l.symname = QByteArray.ofString "$t" }
    let (addressCache, invalid) := addressCache.store elf ip entry t.invalidAddressCache
    (entry, { toDefinitions := d, addressCache := addressCache }, { t with invalidAddressCache := invalid })

end PerfParser
