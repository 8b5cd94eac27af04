import PerfParser.Records
import PerfParser.Lib.Spans
/-!
# ElfMap — the mappings of one process (`perfelfmap.cpp`)

`PerfElfMap` keeps the mappings of a process sorted by address.  A registration overwrites what it overlaps, keeps the
fragments that stick out, and extends a mapping of the same file in the same place.  `std::lower_bound` and
`std::upper_bound` are the partition points of the sorted vector.
-/
namespace PerfParser

/-- What the model reads of a `QFileInfo`. -/
structure QFileInfo where
  fileName : QByteArray := []
  absoluteFilePath : QByteArray := []
  isFile : Bool := false
deriving DecidableEq, Repr, Inhabited

/-- `INVALID_BASE_ADDR`. -/
def INVALID_BASE_ADDR : UInt64 := 0xFFFFFFFFFFFFFFFF

structure ElfInfo where
  localFile : QFileInfo := {}
  originalFileName : QByteArray := []
  originalPath : QByteArray := []
  addr : UInt64 := 0
  length : UInt64 := 0
  pgoff : UInt64 := 0
  baseAddr : UInt64 := INVALID_BASE_ADDR
  dwflStart : UInt64 := 0
  dwflEnd : UInt64 := 0
deriving DecidableEq, Repr, Inhabited

namespace ElfInfo

/-- The constructor: empty names are taken from the local file. -/
def make (localFile : QFileInfo) (addr length pgoff : UInt64) (originalFileName originalPath : QByteArray) : ElfInfo where
  localFile := localFile
  originalFileName := if originalFileName.isEmpty then localFile.fileName else originalFileName
  originalPath := if originalPath.isEmpty then localFile.absoluteFilePath else originalPath
  addr := addr
  length := length
  pgoff := pgoff

def isValid (e : ElfInfo) : Bool := e.length > 0

def isFile (e : ElfInfo) : Bool := e.localFile.isFile

def hasBaseAddr (e : ElfInfo) : Bool := e.baseAddr != INVALID_BASE_ADDR

end ElfInfo

/-- The arguments of `PerfElfMap::registerElf`. -/
structure Mapping where
  addr : UInt64
  len : UInt64
  pgoff : UInt64
  fullPath : QFileInfo := {}
  originalFileName : QByteArray := []
  originalPath : QByteArray := []
deriving DecidableEq, Repr, Inhabited

structure PerfElfMap where
  elfs : List ElfInfo := []
  lastBase : ElfInfo := {}
deriving DecidableEq, Repr, Inhabited

namespace PerfElfMap

/-- The locals of `registerElf` while it goes over the mappings; `invalidated` collects what it announces with
`aboutToInvalidate`. -/
structure Scan where
  addr : UInt64
  len : UInt64
  pgoff : UInt64
  addrEnd : UInt64
  newElfs : List ElfInfo := []
  removedElfs : List Nat := []
  invalidated : List ElfInfo := []
deriving DecidableEq, Repr

/-- Mark the mapping `i` at `index` as overwritten and keep the fragments of it that remain. -/
def Scan.overwrite (s : Scan) (index : Nat) (i : ElfInfo) : Scan :=
  let iEnd := i.addr + i.length
  let before := if i.addr < s.addr then
      [ElfInfo.make i.localFile i.addr (s.addr - i.addr) i.pgoff i.originalFileName i.originalPath] else []
  let after := if iEnd > s.addrEnd then
      [ElfInfo.make i.localFile s.addrEnd (iEnd - s.addrEnd) (i.pgoff + s.addrEnd - i.addr) i.originalFileName
        i.originalPath] else []
  { s with
    newElfs := s.newElfs ++ before ++ after
    removedElfs := s.removedElfs ++ [index]
    invalidated := s.invalidated ++ [i] }

/-- Extend to the maximum continuous address range of the new mapping and `i`. -/
def Scan.extend (s : Scan) (i : ElfInfo) : Scan :=
  let addr := min s.addr i.addr
  let addrEnd := max s.addrEnd (i.addr + i.length)
  { s with
    addr := addr
    pgoff := min s.pgoff i.pgoff
    addrEnd := addrEnd
    len := addrEnd - addr }

/-- The loop over the mappings, `index` the position of its iterator.  `none` on the early return, of the state there:
the new mapping is fully contained in an old one. -/
def scan (originalPath : QByteArray) : Scan → Nat → List ElfInfo → Scan × Bool
  | s, _, [] => (s, false)
  | s, index, i :: rest =>
    if i.addr < s.addrEnd then
      if i.addr + i.length < s.addr then scan originalPath s (index + 1) rest
      else if s.addr - s.pgoff = i.addr - i.pgoff ∧ originalPath = i.originalPath then
        let s' := s.extend i
        if s'.addr = i.addr ∧ s'.len = i.length then (s', true)
        else scan originalPath (s'.overwrite index i) (index + 1) rest
      else if i.addr + i.length = s.addr then scan originalPath s (index + 1) rest
      else scan originalPath (s.overwrite index i) (index + 1) rest
    else (s, false)

def startScan (m : Mapping) : Scan where
  addr := m.addr
  len := m.len
  pgoff := m.pgoff
  addrEnd := m.addr + m.len

/-- Remove the overwritten mappings, from the back to not invalidate the indices. -/
def removeAll (elfs : List ElfInfo) (removed : List Nat) : List ElfInfo :=
  removed.foldr (fun index l => l.eraseIdx index) elfs

/-- `m_elfs.insert(std::lower_bound(...), elf)`. -/
def insertElf (elfs : List ElfInfo) (elf : ElfInfo) : List ElfInfo :=
  Spans.insertAt (fun e => e.addr.toNat) elf elfs

/-- The new mapping with its base address, and the next `m_lastBase`. -/
def rebase (lastBase elf : ElfInfo) (originalPath : QByteArray) : ElfInfo × ElfInfo :=
  if elf.isFile then
    if lastBase.originalPath = originalPath ∧ elf.addr > lastBase.addr then
      ({ elf with baseAddr := lastBase.addr }, lastBase)
    else if elf.pgoff = 0 then (elf, elf)
    else (elf, {})
  else (elf, lastBase)

/-- `PerfElfMap::registerElf`, with the mappings announced by `aboutToInvalidate`. -/
def registerElf (map : PerfElfMap) (m : Mapping) : PerfElfMap × List ElfInfo :=
  match scan m.originalPath (startScan m) 0 map.elfs with
  | (s, true) => (map, s.invalidated)
  | (s, false) =>
    let elf := ElfInfo.make m.fullPath s.addr s.len s.pgoff m.originalFileName m.originalPath
    let (elf, lastBase) := rebase map.lastBase elf m.originalPath
    ({ elfs := (s.newElfs ++ [elf]).foldl insertElf (removeAll map.elfs s.removedElfs), lastBase := lastBase },
      s.invalidated)

/-- The assertions on the early return of `registerElf`. -/
def registerElfAsserts (map : PerfElfMap) (m : Mapping) : Bool :=
  match scan m.originalPath (startScan m) 0 map.elfs with
  | (s, true) => s.newElfs.isEmpty && s.removedElfs.isEmpty
  | (_, false) => true

/-- `PerfElfMap::findElf`. -/
def findElf (map : PerfElfMap) (ip : UInt64) : ElfInfo :=
  match Spans.seek (fun e => e.addr.toNat) ip.toNat map.elfs with
  | none => {}
  | some i =>
    if i.dwflStart < i.dwflEnd then
      if i.dwflStart ≤ ip ∧ ip < i.dwflEnd then i else {}
    else if i.addr + i.length > ip then i else {}

/-- The element `updateElf` writes to: the last one that starts at or before `addr`. -/
def setDwflRange (addr dwflStart dwflEnd : UInt64) : List ElfInfo → List ElfInfo
  | [] => []
  | i :: rest =>
    if i.addr ≤ addr then
      match rest with
      | [] => [{ i with dwflStart := dwflStart, dwflEnd := dwflEnd }]
      | j :: _ =>
        if j.addr ≤ addr then i :: setDwflRange addr dwflStart dwflEnd rest
        else { i with dwflStart := dwflStart, dwflEnd := dwflEnd } :: rest
    else i :: rest

/-- `PerfElfMap::updateElf`. -/
def updateElf (map : PerfElfMap) (addr dwflStart dwflEnd : UInt64) : PerfElfMap :=
  { map with elfs := setDwflRange addr dwflStart dwflEnd map.elfs }

/-- `PerfElfMap::isAddressInRange`. -/
def isAddressInRange (map : PerfElfMap) (addr : UInt64) : Bool :=
  match map.elfs.head?, map.elfs.getLast? with
  | some first, some last => first.addr ≤ addr && addr < last.addr + last.length
  | _, _ => false

end PerfElfMap

end PerfParser
