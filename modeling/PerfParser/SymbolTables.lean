import PerfParser.SymbolTable
import PerfParser.Unwind
/-!
# SymbolTables — the symbol tables of all processes (`perfunwind.cpp`, `perfsymboltable.cpp`)

The back end of the unwinder: a symbol table for every process, which mmaps, forks and exits change, and which the
analysis of a sample reads.  What the file system and libdwfl answer is a parameter, `Host`.
-/
namespace PerfParser

/-- `PerfUnwind::s_kernelPid`. -/
def kernelPid : Int32 := -1

/-- A frame of a thread as libdwfl shows it to the callback. -/
structure FrameState where
  pc : Option UInt64
  isActivation : Bool := false
deriving DecidableEq, Repr, Inhabited

/-- `PerfUnwind::UnwindInfo`, for a sample. -/
structure UnwindInfo where
  frames : List Int := []
  firstGuessedFrame : Int := -1
  isInterworking : Bool := false
deriving DecidableEq, Repr, Inhabited

structure SymbolTables where
  resolver : Resolver := {}
  symbolTables : QHash Int32 PerfSymbolTable := []

/-- What the symbol tables ask of the files and of libdwfl.  `findFile` is `PerfSymbolTable::findFile`, `kernelFile` the
path under the system root, `readPerfMap` what the perf map has that was not read yet.  `threadFrames` are the frames
libdwfl goes over from a state on, as far as the callback lets it. -/
structure Host where
  sources : SymbolSources := {}
  findFile : QByteArray → QByteArray → QByteArray → QFileInfo
  kernelFile : QByteArray → QFileInfo
  isElf : QFileInfo → Bool
  readPerfMap : PerfSymbolTable → List PerfMapSymbol
  addrModule : List DwflModule → UInt64 → Option DwflModule
  reportElf : List DwflModule → ElfInfo → Option DwflModule
  symbolsOf : DwflModule → Module
  attachState : PerfSymbolTable → Bool
  threadFrames : SymbolTables → PerfRecordSample → UnwindInfo → List FrameState
  maxFrames : Int := 64

/-! ## One process -/

/-- `QFileInfo::fileName`: what follows the last slash. -/
def fileNameOf (path : QByteArray) : QByteArray := (path.reverse.takeWhile (· ≠ 47)).reverse

/-- Special regions, such as [heap], [vdso], [stack], [kernel.kallsyms]_text ... as well as //anon. -/
def isSpecialRegion (filePath : QByteArray) : Bool :=
  filePath.isEmpty
    || ((QByteArray.ofString "[").isPrefixOf filePath && filePath.contains 93)
    || (QByteArray.ofString "/dev/").isPrefixOf filePath
    || (QByteArray.ofString "/memfd:").isPrefixOf filePath
    || (QByteArray.ofString "/SYSV").isPrefixOf filePath
    || filePath = QByteArray.ofString "//anon"

/-- The arguments `PerfSymbolTable::registerElf` passes on. -/
def mappingOf (H : Host) (mmap : PerfRecordMmap) (buildId : QByteArray) : Mapping :=
  let filePath := mmap.filename
  let fileName := if isSpecialRegion filePath then [] else fileNameOf filePath
  let fullPath : QFileInfo :=
    if isSpecialRegion filePath then {}
    else if mmap.pid ≠ kernelPid then
      let fullPath := H.findFile filePath fileName buildId
      if fullPath.isFile && !H.isElf fullPath then {} else fullPath
    else
      let fullPath := H.kernelFile filePath
      if H.isElf fullPath then fullPath else {}
  { addr := mmap.addr, len := mmap.len, pgoff := mmap.pgoff, fullPath := fullPath, originalFileName := fileName,
    originalPath := filePath }

namespace PerfSymbolTable

variable (H : Host)

def clearCache (t : PerfSymbolTable) : PerfSymbolTable :=
  { t with invalidAddressCache := [], perfMap := [], dwfl := [], cacheIsDirty := false }

/-- The connection to `aboutToInvalidate`. -/
def aboutToInvalidate (t : PerfSymbolTable) (elf : ElfInfo) : PerfSymbolTable :=
  if !t.cacheIsDirty && (H.addrModule t.dwfl elf.addr).isSome then { t with cacheIsDirty := true } else t

/-- `PerfSymbolTable::registerElf`. -/
def registerElf (t : PerfSymbolTable) (mmap : PerfRecordMmap) (buildId : QByteArray) : PerfSymbolTable :=
  let (elfs, invalidated) := t.elfs.registerElf (mappingOf H mmap buildId)
  let t := invalidated.foldl (aboutToInvalidate H) { t with elfs := elfs }
  if t.cacheIsDirty then t.clearCache else t

/-- `PerfSymbolTable::initAfterFork`. -/
def initAfterFork (t parent : PerfSymbolTable) : PerfSymbolTable := { t with elfs := parent.elfs }

/-- `PerfSymbolTable::updatePerfMap`. -/
def updatePerfMap (t : PerfSymbolTable) : PerfSymbolTable :=
  { t with perfMap := StableSort.sortBy (fun sym : PerfMapSymbol => sym.start) (t.perfMap ++ H.readPerfMap t) }

/-- `PerfSymbolTable::reportElf`. -/
def reportElf (t : PerfSymbolTable) (info : ElfInfo) : Option Module × PerfSymbolTable :=
  if !info.isValid || !info.isFile then (none, t)
  else
    match H.reportElf t.dwfl info with
    | none => (none, { t with cacheIsDirty := true })
    | some mod =>
      (some (H.symbolsOf mod),
        { t with dwfl := t.dwfl ++ [mod], elfs := t.elfs.updateElf info.addr mod.start mod.stop })

/-- The mapping that `module` calls itself with, over and over: the base of `elf`.  Each base starts before the mapping
it is the base of, so there are no more of them than mappings. -/
def moduleElf (elfs : PerfElfMap) : Nat → ElfInfo → ElfInfo
  | 0, elf => elf
  | fuel + 1, elf =>
    if elf.hasBaseAddr ∧ elf.baseAddr ≠ elf.addr then
      let base := elfs.findElf elf.baseAddr
      if base.addr = elf.baseAddr ∧ base.pgoff = 0 ∧ elf.originalPath = base.originalPath ∧ elf.addr ≠ base.addr then
        moduleElf elfs fuel base
      else elf
    else elf

/-- `PerfSymbolTable::module`. -/
def module (t : PerfSymbolTable) (addr : UInt64) (elf : ElfInfo) : Option Module × PerfSymbolTable :=
  let elf := moduleElf t.elfs (t.elfs.elfs.length + 1) elf
  let mod :=
    match H.addrModule t.dwfl addr with
    | some mod => some mod
    | none => if elf.isValid then H.addrModule t.dwfl (elf.addr - elf.pgoff) else none
  match mod with
  | some mod => if elf.addr - elf.pgoff = mod.start then (some (H.symbolsOf mod), t) else t.reportElf H elf
  | none => t.reportElf H elf

/-- `PerfSymbolTable::attachDwfl`: whether there is a dwfl to unwind with. -/
def attachDwfl (t : PerfSymbolTable) (sample : PerfRecordSample) : Bool × PerfSymbolTable :=
  if t.isAttached then (true, t)
  else if sample.sampleId.sampleType &&& PerfEventAttributes.SAMPLE_REGS_USER = 0
      ∨ sample.sampleId.sampleType &&& PerfEventAttributes.SAMPLE_STACK_USER = 0 then (false, t)
  else if H.attachState t then (true, { t with isAttached := true })
  else (false, t)

end PerfSymbolTable

/-! ## All processes -/

namespace SymbolTables

/-- `m_symbolTables[pid]`, new if there is none. -/
def table (s : SymbolTables) (pid : Int32) : PerfSymbolTable := (s.symbolTables.find pid).getD { pid := pid }

def set (s : SymbolTables) (pid : Int32) (t : PerfSymbolTable) : SymbolTables :=
  { s with symbolTables := s.symbolTables.insert pid t }

/-- `PerfUnwind::symbolTable`. -/
def symbolTable (s : SymbolTables) (pid : Int32) : SymbolTables :=
  if s.symbolTables.contains pid then s else s.set pid { pid := pid }

/-- `PerfUnwind::resolveString`. -/
def resolveString (s : SymbolTables) (string : QByteArray) : SymbolTables × Int32 :=
  let (id, d) := s.resolver.resolveString string
  ({ s with resolver := { s.resolver with toDefinitions := d } }, Int32.ofInt id)

variable (H : Host)

def registerElf (s : SymbolTables) (mmap : PerfRecordMmap) (buildId : QByteArray) : SymbolTables :=
  let s := s.symbolTable mmap.pid
  s.set mmap.pid ((s.table mmap.pid).registerElf H mmap buildId)

def initAfterFork (s : SymbolTables) (childPid parentPid : Int32) : SymbolTables :=
  let s := (s.symbolTable childPid).symbolTable parentPid
  s.set childPid ((s.table childPid).initAfterFork (s.table parentPid))

/-- `delete m_symbolTables.take(pid)`. -/
def dropSymbolTable (s : SymbolTables) (pid : Int32) : SymbolTables :=
  { s with symbolTables := s.symbolTables.remove pid }

/-- `PerfUnwind::ipIsInKernelSpace`. -/
def ipIsInKernelSpace (s : SymbolTables) (ip : UInt64) : Bool :=
  match s.symbolTables.find kernelPid with
  | some t => t.elfs.isAddressInRange ip
  | none => false

/-- `lookupFrame` in the table of a process. -/
def lookupFrame (s : SymbolTables) (pid : Int32) (ip : UInt64) (isKernel : Bool) : AddressCacheEntry × SymbolTables :=
  let (entry, resolver, t) := (s.table pid).lookupFrame H.sources (PerfSymbolTable.module H) s.resolver ip isKernel
  (entry, { s with resolver := resolver }.set pid t)

/-! ## Callchains -/

def PERF_CONTEXT_HV : UInt64 := 0 - 32
def PERF_CONTEXT_KERNEL : UInt64 := 0 - 128
def PERF_CONTEXT_USER : UInt64 := 0 - 512
def PERF_CONTEXT_MAX : UInt64 := 0 - 4095

/-- The locals of `resolveCallchain`; `pid` tells whose table `symbols` is. -/
structure Callchain where
  tables : SymbolTables
  info : UnwindInfo
  pid : Int32
  isKernel : Bool := false
  addedUserFrames : Bool := false

/-- `reportIp`: whether to go on. -/
def Callchain.reportIp (sample : PerfRecordSample) (c : Callchain) (ip : UInt64) : Bool × Callchain :=
  let tables := c.tables.set c.pid ((c.tables.table c.pid).attachDwfl H sample).2
  let (entry, tables) := tables.lookupFrame H c.pid ip c.isKernel
  let info := { c.info with
    frames := c.info.frames ++ [entry.locationId]
    isInterworking := entry.isInterworking }
  (!(tables.table c.pid).cacheIsDirty, { c with tables := tables, info := info })

/-- The element of the loop over the callchain: whether to go on, `none` on a break. -/
def Callchain.step (sample : PerfRecordSample) (c : Callchain) (ip : UInt64) : Option Bool × Callchain :=
  if ip > PERF_CONTEXT_MAX then
    if ip = PERF_CONTEXT_HV ∨ ip = PERF_CONTEXT_KERNEL then
      (some true, if !c.isKernel then
        { c with tables := c.tables.symbolTable kernelPid, pid := kernelPid, isKernel := true } else c)
    else if ip = PERF_CONTEXT_USER then
      (some true, if c.isKernel then
        { c with tables := c.tables.symbolTable sample.pid, pid := sample.pid, isKernel := false } else c)
    else (some false, c)
  else
    -- sometimes it skips the first user frame
    let (goOn, c) :=
      if !c.addedUserFrames && !c.isKernel && ip != sample.ip then c.reportIp H sample sample.ip else (true, c)
    if !goOn then (some false, c)
    -- prefer user frames from branch stack if available
    else if !sample.branchStack.isEmpty && !c.isKernel then (none, c)
    else
      let (goOn, c) := c.reportIp H sample ip
      if !goOn then (some false, c)
      else (some true, if !c.isKernel then { c with addedUserFrames := true } else c)

/-- The loop over the callchain: whether it is left to go on behind it. -/
def Callchain.loop (sample : PerfRecordSample) : Callchain → List UInt64 → Bool × Callchain
  | c, [] => (true, c)
  | c, ip :: ips =>
    match c.step H sample ip with
    | (some true, c) => Callchain.loop sample c ips
    | (some false, c) => (false, c)
    | (none, c) => (true, c)

/-- Report addresses up to the first that dirties the cache. -/
def Callchain.reportAll (sample : PerfRecordSample) : Callchain → List UInt64 → Callchain
  | c, [] => c
  | c, ip :: ips =>
    match c.reportIp H sample ip with
    | (true, c) => Callchain.reportAll sample c ips
    | (false, c) => c

/-- What the branch stack holds: the first callee and all callers. -/
def branchIps (branchStack : List BranchEntry) : List UInt64 :=
  (branchStack.head?.map BranchEntry.target).toList ++ branchStack.map BranchEntry.source

/-- `PerfUnwind::resolveCallchain`. -/
def resolveCallchain (sample : PerfRecordSample) (s : SymbolTables) (info : UnwindInfo) : SymbolTables × UnwindInfo :=
  let c : Callchain := { tables := s.symbolTable sample.pid, info := info, pid := sample.pid }
  let (goOn, c) := c.loop H sample sample.callchain
  -- when we are still in the kernel, we cannot have a meaningful branch stack
  let c := if goOn && !c.isKernel then c.reportAll H sample (branchIps sample.branchStack) else c
  (c.tables, c.info)

/-! ## Unwinding -/

/-- `frameCallback`: whether libdwfl goes on. -/
def frameCallback (sample : PerfRecordSample) (s : SymbolTables) (info : UnwindInfo) (state : FrameState) :
    Bool × SymbolTables × UnwindInfo :=
  let pc := state.pc.getD 0
  if state.pc.isNone ∨ (H.maxFrames ≠ -1 ∧ (info.frames.length : Int) > H.maxFrames) ∨ pc = 0 then
    (false, s, { info with firstGuessedFrame := info.frames.length })
  else
    let s := s.symbolTable sample.pid
    let t := s.table sample.pid
    -- ensure the module is reported
    let s := s.set sample.pid (t.module H pc (t.elfs.findElf pc)).2
    let (entry, s) := s.lookupFrame H sample.pid (pc - (if state.isActivation then 0 else 1)) false
    if (s.table sample.pid).cacheIsDirty then (false, s, info)
    else
      let info := { info with frames := info.frames ++ [entry.locationId] }
      (true, s, if entry.isInterworking && info.frames.length = 1 then { info with isInterworking := true } else info)

/-- The calls of `findDebugInfo` that libdwfl makes. -/
def findAllDebugInfo (s : SymbolTables) : SymbolTables :=
  { s with resolver := { s.resolver with toDefinitions := s.resolver.findAllDebugInfo H.sources } }

/-- The frames of a thread, up to the one that the callback aborts at; libdwfl looks for debug information between
them. -/
def threadFrames (sample : PerfRecordSample) : SymbolTables → UnwindInfo → List FrameState → SymbolTables × UnwindInfo
  | s, info, [] => (s.findAllDebugInfo H, info)
  | s, info, state :: states =>
    match frameCallback H sample (s.findAllDebugInfo H) info state with
    | (true, s, info) => threadFrames sample s info states
    | (false, s, info) => (s, info)

/-- `PerfUnwind::unwindStack`. -/
def unwindStack (sample : PerfRecordSample) (s : SymbolTables) (info : UnwindInfo) : SymbolTables × UnwindInfo :=
  let s := s.symbolTable sample.pid
  let (attached, t) := (s.table sample.pid).attachDwfl H sample
  let s := s.set sample.pid t
  if !attached then (s, info)
  else
    let (s, info) := threadFrames H sample s info (H.threadFrames s sample info)
    if info.isInterworking then
      -- try again with the actual veneer frame, and LR for IP
      let retried := { info with frames := info.frames.take 1 }
      let (s, retried) := threadFrames H sample s retried (H.threadFrames s sample retried)
      (s, if info.frames.length > retried.frames.length then { retried with frames := info.frames } else retried)
    else (s, info)

/-- An attempt to unwind: whether to try again. -/
def attempt (sample : PerfRecordSample) (s : SymbolTables) : Bool × SymbolTables × UnwindInfo :=
  let s := s.set sample.pid ((s.table sample.pid).updatePerfMap H)
  let (s, info) :=
    if !sample.callchain.isEmpty || !sample.branchStack.isEmpty then resolveCallchain H sample s {} else (s, {})
  let userDirty := (s.table sample.pid).cacheIsDirty
  let kernelDirty := (s.table kernelPid).cacheIsDirty
  let unwinds := !userDirty && !kernelDirty
  -- only try to unwind when resolveCallchain did not dirty the cache
  if unwinds && (sample.registerAbi = 0 || sample.userStack.isEmpty) then (false, s, info)
  else
    let (s, info) := if unwinds then unwindStack H sample s info else (s, info)
    let userDirty := if unwinds then (s.table sample.pid).cacheIsDirty else userDirty
    let s := if userDirty then s.set sample.pid (s.table sample.pid).clearCache else s
    let s := if kernelDirty then s.set kernelPid (s.table kernelPid).clearCache else s
    (userDirty || kernelDirty, s, info)

/-- `PerfUnwind::analyze`, up to the record it sends. -/
def analyze (s : SymbolTables) (sample : PerfRecordSample) : SymbolTables × UnwindInfo :=
  let s := (s.symbolTable kernelPid).symbolTable sample.pid
  let (again, s, info) := attempt H sample s
  let (s, info) := if again then (attempt H sample s).2 else (s, info)
  -- if nothing was found, at least look up the IP
  if info.frames.isEmpty then
    let isKernel := s.ipIsInKernelSpace sample.ip
    let (entry, s) := s.lookupFrame H (if isKernel then kernelPid else sample.pid) sample.ip isKernel
    (s, { info with frames := [entry.locationId], isInterworking := entry.isInterworking })
  else (s, info)

/-! ## The back end -/

def sendEventFormat (s : SymbolTables) (format : EventFormat) : SymbolTables :=
  ([format.system, format.name] ++ (format.commonFields ++ format.fields).map FormatField.name).foldl
    (fun s name => (s.resolveString name).1) s

def exec (_ : Registry) (s : SymbolTables) : Call → SymbolTables
  | .registerElf mmap buildId => s.registerElf H mmap buildId
  | .initAfterFork fork parentPid => s.initAfterFork fork.pid parentPid
  | .dropSymbolTable exit => s.dropSymbolTable exit.pid
  | .analyze sample => (s.analyze H sample).1
  | .sendAttributes _ _ name => (s.resolveString name).1
  | .sendEventFormat _ format => s.sendEventFormat format
  | .sendTaskEvent _ => s
  | .sendTimeOrderViolation _ _ => s
  | .sendFeatures _ => s

def backend : Backend SymbolTables where
  resolveString := resolveString
  exec := exec H

end SymbolTables

namespace PerfUnwind

/-- A machine without files. -/
def noFiles : Host where
  findFile := fun _ _ _ => {}
  kernelFile := fun _ => {}
  isElf := fun _ => false
  readPerfMap := fun _ => []
  addrModule := fun _ _ => none
  reportElf := fun _ _ => none
  symbolsOf := fun _ => {}
  attachState := fun _ => false
  threadFrames := fun _ _ _ => []

end PerfUnwind

end PerfParser
