import Mathlib.Data.List.DropRight
import PerfParser.Layouts
import PerfParser.Lib.Loop
/-!
# PerfFeatures — the feature sections that are lists (`perffeatures.cpp`)

A feature is read from the start of its section, and the stream goes on behind it.  Strings, command lines and event
descriptions have their lengths in front; build ids come one behind the other until their sizes add up to that of the
section.
-/
namespace PerfParser

open QDataStream Reader

variable (bigEndian : Bool)

/-! ## Strings -/

/-- Chops off trailing zeros to make the values directly usable. -/
def removeTrailingZeros (string : QByteArray) : QByteArray := string.rdropWhile (· = 0)

namespace PerfStringFeature

/-- `operator>>`, which leaves the string as it was if the one to be read is too long. -/
def read (value : QByteArray) : Reader UInt8 QByteArray := do
  let length ← u32 bigEndian
  if length.toNat > intMax then
    skipRawData intMax
    skipRawData (length - UInt32.ofNat intMax).toInt32.toInt
    pure value
  else
    let value ← readRawData length.toNat
    pure (removeTrailingZeros value)

end PerfStringFeature

/-! ## Command lines -/

structure PerfCmdline where
  cmdline : List QByteArray := []
deriving DecidableEq, Repr, Inhabited

namespace PerfCmdline

/-- The loop over the parts, which reads all of them into the same string. -/
def readParts : Nat → QByteArray → Reader UInt8 (List QByteArray)
  | 0, _ => pure []
  | numParts + 1, stringFeature => do
    let stringFeature ← PerfStringFeature.read bigEndian stringFeature
    let parts ← readParts numParts stringFeature
    pure (stringFeature :: parts)

def read (c : PerfCmdline) : Reader UInt8 PerfCmdline := do
  let numParts ← u32 bigEndian
  let parts ← readParts bigEndian numParts.toNat []
  pure { c with cmdline := c.cmdline ++ parts }

end PerfCmdline

/-! ## Event descriptions -/

structure PerfEventDesc where
  eventDescs : List EventDesc := []
deriving DecidableEq, Repr, Inhabited

namespace PerfEventDesc

def readEvent (stringFeature : QByteArray) : Reader UInt8 EventDesc := do
  let attrs ← PerfEventAttributes.read bigEndian {}
  let numIds ← u32 bigEndian
  let name ← PerfStringFeature.read bigEndian stringFeature
  let ids ← (u64 bigEndian).times numIds.toNat
  pure { attrs, name, ids }

/-- The loop over the events, which reads the names of all of them into the same string. -/
def readEvents : Nat → QByteArray → Reader UInt8 (List EventDesc)
  | 0, _ => pure []
  | numEvents + 1, stringFeature => do
    let event ← readEvent bigEndian stringFeature
    let events ← readEvents numEvents event.name
    pure (event :: events)

def read (e : PerfEventDesc) : Reader UInt8 PerfEventDesc := do
  let numEvents ← u32 bigEndian
  let _eventSize ← u32 bigEndian
  let events ← readEvents bigEndian numEvents.toNat []
  pure { e with eventDescs := e.eventDescs ++ events }

end PerfEventDesc

/-! ## Build ids -/

structure PerfBuildId where
  size : Int := 0
  buildIds : List BuildId := []
deriving DecidableEq, Repr, Inhabited

namespace PerfBuildId

def s_idLength : UInt16 := 20

def s_idPadding : UInt16 := 4

/-- What an entry has left for the file name. -/
def fileNameLength (size : UInt16) : UInt16 := size - PerfEventHeader.fixedLength - 4 - s_idPadding - s_idLength

/-- An entry, and the size that its header gives it. -/
def readEntry : Reader UInt8 (UInt16 × BuildId) := do
  let header ← PerfEventHeader.read bigEndian
  let pid ← i32 bigEndian
  let id ← readRawData s_idLength.toNat
  skipRawData s_idPadding.toNat
  let fileName ← readRawData (fileNameLength header.size).toNat
  pure (header.size, { pid, id, fileName := removeTrailingZeros fileName })

/-- Where the loop over the entries stands.  No file has so many that `next` would not fit a `qint64`. -/
structure Entries where
  next : Int := 0
  buildIds : List BuildId := []
  unread : QByteArray := []
deriving DecidableEq, Repr

/-- The condition of the loop. -/
def more (size : Int) (e : Entries) : Bool := e.next < size

/-- Its body. -/
def body (e : Entries) : Entries :=
  let ((size, build), unread) := (readEntry bigEndian).run e.unread
  { next := e.next + size.toNat, buildIds := e.buildIds ++ [build], unread }

/-- `operator>>`, for as many entries as there is fuel. -/
def read (fuel : Nat) (b : PerfBuildId) (unread : QByteArray) : Option (PerfBuildId × QByteArray) :=
  (Loop.run (more b.size) (body bigEndian) fuel { buildIds := b.buildIds, unread }).map fun e =>
    ({ b with buildIds := e.buildIds }, e.unread)

end PerfBuildId

end PerfParser
