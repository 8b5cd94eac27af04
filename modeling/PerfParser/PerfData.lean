import PerfParser.Decode
import PerfParser.Unwind
/-!
# PerfData — from bytes to events (`perfdata.cpp`)

`processEvents` reads one event off a device and hands it to the unwinder.  A device is what it still has to read: on a
random-access device that is the rest of the file, on a sequential one what has arrived.  An event of which not enough
has arrived is tried again, from the partial state of the parser.  A compressed record carries events of its own, which
`processEvents` reads from the buffer they are decompressed to.
-/
namespace PerfParser

open QDataStream

/-! ## Event types -/

/-- The event types `processEvents` tells apart. -/
inductive PerfEventType
  | mmap | lost | comm | exit | fork | sample | mmap2 | switch | switchCpuWide | headerAttr | headerTracingData
  | finishedRound | compressed | other
deriving DecidableEq, Repr

/-- The `PERF_RECORD_*` numbers. -/
def PerfEventType.ofNumber (type : UInt32) : PerfEventType :=
  if type = 1 then mmap
  else if type = 2 then lost
  else if type = 3 then comm
  else if type = 4 then exit
  else if type = 7 then fork
  else if type = 9 then sample
  else if type = 10 then mmap2
  else if type = 14 then switch
  else if type = 15 then switchCpuWide
  else if type = 64 then headerAttr
  else if type = 66 then headerTracingData
  else if type = 68 then finishedRound
  else if type = 81 then compressed
  else other

namespace PerfEventHeader

def eventType (header : PerfEventHeader) : PerfEventType := .ofNumber header.type

/-- What `size` leaves for the content. -/
def contentSize (header : PerfEventHeader) : Nat := (header.size - fixedLength).toNat

end PerfEventHeader

/-! ## Attributes by id -/

structure PerfAttributes where
  globalAttributes : PerfEventAttributes := {}
  attributes : QHash UInt64 PerfEventAttributes := []
deriving DecidableEq, Repr, Inhabited

namespace PerfAttributes

def setGlobalAttributes (a : PerfAttributes) (attributes : PerfEventAttributes) : PerfAttributes :=
  { a with globalAttributes := attributes }

def addAttributes (a : PerfAttributes) (id : UInt64) (attributes : PerfEventAttributes) : PerfAttributes :=
  { a with attributes := a.attributes.insert id attributes }

/-- `PerfAttributes::attributes(id)`. -/
def attributesOf (a : PerfAttributes) (id : UInt64) : PerfEventAttributes :=
  (a.attributes.find id).getD a.globalAttributes

end PerfAttributes

/-! ## What the parser rests on -/

/-- `ZSTD_decompressStream` on what is left of the input, with `room` for output: it fails, or consumes a prefix of the
input and produces some output.  Whatever room the next call has, calls that succeed cannot go on forever. -/
structure Zstd (δ : Type) where
  init : δ
  decompressStream : δ → (input : QByteArray) → (room : Nat) → Option (δ × Nat × QByteArray)
  consumed_le : ∀ {z input room z' n out}, decompressStream z input room = some (z', n, out) → n ≤ input.length
  produced_le : ∀ {z input room z' n out}, decompressStream z input room = some (z', n, out) → out.length ≤ room
  calls : δ → QByteArray → Nat → Nat
  calls_lt : ∀ {z input room z' n out}, decompressStream z input room = some (z', n, out) →
    ∀ room' ≤ room - out.length, calls z' (input.drop n) room' < calls z input room

/-- The byte order, the features of the header the parser asks for, and the parsing of tracing data once it is in
memory.  `mmap_len` is taken to be less than 2^31 with what is carried over, so that the cast of their sum to `int`
keeps it. -/
structure Env (δ : Type) where
  bigEndian : Bool
  hasCompressed : Bool
  mmapLen : Nat
  zstd : Zstd δ
  parseTracingData : PerfTracingData → QByteArray → PerfTracingData

structure PerfData (δ : Type) where
  eventHeader : PerfEventHeader := {}
  tracingData : PerfTracingData := {}
  attributes : PerfAttributes := {}
  zstdDstream : Option δ := none
  decompressBuffer : QByteArray := []
  remaininingDecompressedDataSize : Nat := 0
  dispatched : List Op := []
deriving DecidableEq, Repr

inductive ReadStatus
  | Rerun | SignalError | SignalFinished
deriving DecidableEq, Repr

/-- The parser, and what its device still has to read. -/
structure Reading (δ : Type) where
  data : PerfData δ
  unread : QByteArray
deriving DecidableEq, Repr

/-- The parser reads from the device. -/
def Reading.apply {δ : Type} (r : Reading δ) (f : PerfData δ → Reader UInt8 (PerfData δ)) : Reading δ where
  data := ((f r.data).run r.unread).1
  unread := ((f r.data).run r.unread).2

namespace PerfData

variable {δ : Type} (E : Env δ)

/-- A call to the unwinder. -/
def dispatch (d : PerfData δ) (op : Op) : PerfData δ := { d with dispatched := d.dispatched ++ [op] }

/-- `m_eventHeader.size = 0`: the next call starts with a header. -/
def clearEventSize (d : PerfData δ) : PerfData δ := { d with eventHeader := { d.eventHeader with size := 0 } }

/-! ## Events read by their decoder -/

/-- What a buffer has left behind a place; a seek past its end fails, and leaves it at its start. -/
def seekTo (buffer : QByteArray) (pos : Nat) : QByteArray := if pos ≤ buffer.length then buffer.drop pos else buffer

/-- `PERF_RECORD_SAMPLE`: the id is peeked from where the global attributes say it is, to find the attributes of the
sample. -/
def readSample (d : PerfData δ) : Reader UInt8 (PerfData δ) :=
  let attrs := d.attributes.globalAttributes
  if attrs.sampleIdAll ∧ 0 ≤ attrs.sampleIdOffset then do
    let buffer ← readRawData d.eventHeader.contentSize
    let id := ((u64 E.bigEndian).run (seekTo buffer attrs.sampleIdOffset.toNat)).1
    let sample := PerfRecordSample.create d.eventHeader (d.attributes.attributesOf id)
    pure (d.dispatch (.sample ((sample.read E.bigEndian).run buffer).1))
  else do
    let sample ← (PerfRecordSample.create d.eventHeader attrs).read E.bigEndian
    pure (d.dispatch (.sample sample))

/-- `PERF_RECORD_HEADER_ATTR`. -/
def readAttr (d : PerfData δ) : Reader UInt8 (PerfData δ) := do
  let attrs := d.attributes.globalAttributes
  let attr ← (PerfRecordAttr.create d.eventHeader attrs.sampleType attrs.sampleIdAll).read E.bigEndian
  let d := d.dispatch (.attr attr)
  let attributes := if attrs.size = 0 then d.attributes.setGlobalAttributes attr.attr else d.attributes
  pure { d with attributes := attr.ids.foldl (fun a id => a.addAttributes id attr.attr) attributes }

/-- The content of an event other than tracing data and compressed records. -/
def readEvent (d : PerfData δ) : Reader UInt8 (PerfData δ) :=
  let header := d.eventHeader
  let sampleType := d.attributes.globalAttributes.sampleType
  let sampleIdAll := d.attributes.globalAttributes.sampleIdAll
  match header.eventType with
  | .mmap => do
    let mmap ← (PerfRecordMmap.create header sampleType sampleIdAll).read E.bigEndian
    pure (d.dispatch (.registerElf mmap))
  | .lost => do
    let lost ← (PerfRecordLost.create header sampleType sampleIdAll).read E.bigEndian
    pure (d.dispatch (.lost lost))
  | .comm => do
    let comm ← (PerfRecordComm.create header sampleType sampleIdAll).read E.bigEndian
    pure (d.dispatch (.comm comm))
  | .sample => d.readSample E
  | .mmap2 => do
    let mmap2 ← (PerfRecordMmap2.create header sampleType sampleIdAll).read E.bigEndian
    -- throw out the extra data for now
    pure (d.dispatch (.registerElf mmap2.toPerfRecordMmap))
  | .headerAttr => d.readAttr E
  | .fork => do
    let fork ← (PerfRecordFork.create header sampleType sampleIdAll).read E.bigEndian
    pure (d.dispatch (.fork fork))
  | .exit => do
    let exit ← (PerfRecordFork.create header sampleType sampleIdAll).read E.bigEndian
    pure (d.dispatch (.exit exit))
  | .finishedRound => do
    skipRawData header.contentSize
    pure (d.dispatch .finishedRound)
  | .switch => do
    let switchEvent ← (PerfRecordContextSwitch.create header sampleType sampleIdAll).read E.bigEndian
    pure (d.dispatch (.contextSwitch switchEvent))
  | .switchCpuWide => do
    let switchEvent ← (PerfRecordContextSwitch.create header sampleType sampleIdAll).readCpuWide E.bigEndian
    pure (d.dispatch (.contextSwitch switchEvent))
  | .headerTracingData | .compressed | .other => do
    skipRawData header.contentSize
    pure d

/-! ## Tracing data -/

/-- `operator>>` of `PerfTracingData`, its blob parsed from memory. -/
def readTracingData (t : PerfTracingData) : Reader UInt8 PerfTracingData :=
  if t.size.toNat > intMax then do
    skipRawData intMax
    skipRawData (t.size - UInt32.ofNat intMax).toInt32.toInt
    pure t
  else do
    let data ← readRawData t.size.toNat
    pure (E.parseTracingData t data)

/-- The size that stands in the content of the event, unless it was read before. -/
def readTracingSize (d : PerfData δ) : Reader UInt8 (PerfData δ) :=
  if d.tracingData.size = 0 then do
    let size ← u32 E.bigEndian
    pure { d with tracingData := { d.tracingData with size } }
  else pure d

def readTracing (d : PerfData δ) : Reader UInt8 (PerfData δ) := do
  let tracingData ← readTracingData E d.tracingData
  pure { d.dispatch (.tracing tracingData) with tracingData := {} }

/-- The tracing data behind the event, once all of them are there. -/
def handleTracingBlob (r : Reading δ) : ReadStatus × Reading δ :=
  if r.unread.length < r.data.tracingData.size.toNat then (.Rerun, r)
  else (.SignalFinished, r.apply (readTracing E))

/-- `PERF_RECORD_HEADER_TRACING_DATA`.  Its content is the size of the tracing data that follow it. -/
def handleTracingData (r : Reading δ) : ReadStatus × Reading δ :=
  if r.data.eventHeader.contentSize = 4 then handleTracingBlob E (r.apply (readTracingSize E))
  else (.SignalFinished, r.apply (readEvent E))

/-! ## Compressed records -/

/-- `ZSTD_outBuffer`, its `dst` as the offset from `outBuffer`. -/
structure OutBuffer where
  dst : Nat
  size : Nat
  pos : Nat

/-- `QByteArray::resize`. -/
def resize (bytes : QByteArray) (size : Nat) : QByteArray :=
  bytes.take size ++ List.replicate (size - bytes.length) 0

/-- `bytes` with `out` written over it from `pos` on. -/
def overwrite (bytes : QByteArray) (pos : Nat) (out : QByteArray) : QByteArray :=
  bytes.take pos ++ out ++ bytes.drop (pos + out.length)

/-- A call of `ZSTD_decompressStream`, which fails on a buffer whose `pos` is past its `size`. -/
def callZstd (z : δ) (input : QByteArray) (out : OutBuffer) : Option (δ × Nat × QByteArray) :=
  if out.size < out.pos then none else E.zstd.decompressStream z input (out.size - out.pos)

/-- The loop that decompresses a record, with `memory` what stands from `outBuffer` on.  It is given fuel for all its
calls. -/
def decompressLoop (outBufferSize : Nat) : Nat → δ → QByteArray → OutBuffer → QByteArray →
    Option (δ × Nat × QByteArray)
  | 0, _, _, _, _ => none
  | fuel + 1, z, input, out, memory =>
    if input = [] then some (z, out.pos, memory)
    else
      match callZstd E z input out with
      | none => none
      | some (z, consumed, produced) =>
        let pos := out.pos + produced.length
        decompressLoop outBufferSize fuel z (input.drop consumed)
          { dst := pos, size := outBufferSize - pos, pos } (overwrite memory (out.dst + out.pos) produced)

/-- The decompress buffer after the loop, behind `remaining` bytes of the previous record. -/
def decompress (z : δ) (buffer : QByteArray) (remaining : Nat) (input : QByteArray) : Option (δ × QByteArray) :=
  let buffer := resize buffer (E.mmapLen + remaining)
  let outBufferSize := buffer.length - remaining
  match decompressLoop E outBufferSize (E.zstd.calls z input outBufferSize + 1) z input
      { dst := 0, size := outBufferSize, pos := 0 } (buffer.drop remaining) with
  | none => none
  | some (z, pos, memory) => some (z, resize (buffer.take remaining ++ memory) (pos + remaining))

/-- The tail that is parsed again with the next record, moved up front. -/
def keepTail (d : PerfData δ) (oldPos : Nat) : PerfData δ :=
  { d with
    remaininingDecompressedDataSize := d.decompressBuffer.length - oldPos
    decompressBuffer :=
      d.decompressBuffer.drop oldPos ++ d.decompressBuffer.drop (d.decompressBuffer.length - oldPos) }

/-- The loop over the events in the decompressed buffer of `size` bytes.  Each takes at least its header, so `fuel` is
their number of bytes. -/
def drain (nested : Reading δ → ReadStatus × Reading δ) (size : Nat) : Nat → Reading δ → ReadStatus × PerfData δ
  | 0, r => (.SignalError, r.data)
  | fuel + 1, r =>
    match nested r with
    | (.SignalFinished, r') => drain nested size fuel r'
    | (.SignalError, r') => (.SignalError, r'.data)
    | (.Rerun, r') => (.SignalFinished, r'.data.keepTail (size - r.unread.length))

/-- `PERF_RECORD_COMPRESSED`. -/
def handleCompressed (nested : Reading δ → ReadStatus × Reading δ) (r : Reading δ) : ReadStatus × Reading δ :=
  let d := r.data
  if d.zstdDstream.isNone ∧ ¬E.hasCompressed then (.SignalError, r)
  else
    let z := d.zstdDstream.getD E.zstd.init
    let (compressed, unread) := (readRawData d.eventHeader.contentSize).run r.unread
    match decompress E z d.decompressBuffer d.remaininingDecompressedDataSize compressed with
    | none => (.SignalError, ⟨{ d with zstdDstream := some z }, unread⟩)
    | some (z, buffer) =>
      let d := { d with zstdDstream := some z, decompressBuffer := buffer, remaininingDecompressedDataSize := 0 }
      let (status, d) := drain nested buffer.length (buffer.length + 1) ⟨d.clearEventSize, buffer⟩
      (status, ⟨d, unread⟩)

/-! ## One event -/

/-- The `switch` over the event type. -/
def handleEvent (nested : Reading δ → ReadStatus × Reading δ) (r : Reading δ) : ReadStatus × Reading δ :=
  match r.data.eventHeader.eventType with
  | .headerTracingData => handleTracingData E r
  | .compressed => handleCompressed E nested r
  | _ => (.SignalFinished, r.apply (readEvent E))

/-- The end of an event.  On a random-access device what its decoder left of the content is skipped; nothing is taken
back where it read more. -/
def finishEvent (sequential : Bool) (contentSize : Nat) (unread : QByteArray) (r : Reading δ) : Reading δ where
  data := r.data.clearEventSize
  unread := if sequential then r.unread else r.unread.drop (contentSize - (unread.length - r.unread.length))

/-- An event with its header read. -/
def processContent (nested : Reading δ → ReadStatus × Reading δ) (sequential : Bool) (r : Reading δ) :
    ReadStatus × Reading δ :=
  let contentSize := r.data.eventHeader.contentSize
  if r.unread.length < contentSize then (.Rerun, r)
  else
    match handleEvent E nested r with
    | (.SignalFinished, r') => (.SignalFinished, finishEvent sequential contentSize r.unread r')
    | failed => failed

def readHeader (d : PerfData δ) : Reader UInt8 (PerfData δ) := do
  let eventHeader ← PerfEventHeader.read E.bigEndian
  pure { d with eventHeader }

def processEvent (nested : Reading δ → ReadStatus × Reading δ) (sequential : Bool) (r : Reading δ) :
    ReadStatus × Reading δ :=
  if r.data.eventHeader.size = 0 then
    if r.unread.length < 8 then (.Rerun, r)
    else
      let r := r.apply (readHeader E)
      if r.data.eventHeader.size < PerfEventHeader.fixedLength then (.SignalError, r)
      else processContent E nested sequential r
  else processContent E nested sequential r

/-- `PerfData::processEvents`, with compressed records nested up to `depth`, for which the source has no bound.  The
buffer they are decompressed to is a random-access device. -/
def processEvents : (depth : Nat) → (sequential : Bool) → Reading δ → ReadStatus × Reading δ
  | 0 => processEvent E (fun r => (.SignalError, r))
  | depth + 1 => processEvent E (processEvents depth false)

/-! ## Reading -/

/-- The loop of `doRead` over the events of a pipe.  Only the first one may have its header read before, and every other
takes at least its header, so `fuel` is the number of bytes and one. -/
def readEvents (depth : Nat) (sequential : Bool) : Nat → Reading δ → ReadStatus × Reading δ
  | 0, r => (.SignalFinished, r)
  | fuel + 1, r =>
    if r.unread = [] then (.SignalFinished, r)
    else
      match processEvents E depth sequential r with
      | (.SignalFinished, r') => readEvents depth sequential fuel r'
      | failed => failed

/-- `PerfData::doRead` of a pipe. -/
def doRead (depth : Nat) (sequential isOpen : Bool) (r : Reading δ) : ReadStatus × Reading δ :=
  let (returnCode, r) := readEvents E depth sequential (r.unread.length + 1) r
  if sequential then
    if returnCode = .SignalError then (.SignalError, r)
    -- finished some event, but not the whole stream
    else if isOpen then (.Rerun, r)
    -- if there is a half event left when the stream finishes, that's bad
    else (if r.data.eventHeader.size ≠ 0 then .SignalError else .SignalFinished, r)
  else (if returnCode = .SignalFinished then .SignalFinished else .SignalError, r)

inductive Signal
  | finished | error
deriving DecidableEq, Repr

/-- `PerfData::read`, with the signal it emits. -/
def read (depth : Nat) (sequential isOpen : Bool) (r : Reading δ) : Option Signal × Reading δ :=
  match doRead E depth sequential isOpen r with
  | (.SignalFinished, r) => (some .finished, r)
  | (.SignalError, r) => (some .error, r)
  | (.Rerun, r) => (none, r)

/-- `PerfData::finishReading`, when the device is about to close, with the signal it emits. -/
def finishReading (depth : Nat) (sequential isOpen : Bool) (r : Reading δ) : Signal × Reading δ :=
  match doRead E depth sequential isOpen r with
  | (.SignalFinished, r) => (.finished, r)
  | (.SignalError, r) => (.error, r)
  | (.Rerun, r) => (if r.data.eventHeader.size = 0 then .finished else .error, r)

/-- A chunk arrives on a sequential device.  Once a signal is emitted the parser is disconnected from the device. -/
def feed (depth : Nat) : Option Signal × Reading δ → QByteArray → Option Signal × Reading δ
  | (none, r), chunk => read E depth true true ⟨r.data, r.unread ++ chunk⟩
  | (some s, r), chunk => (some s, ⟨r.data, r.unread ++ chunk⟩)

/-- The sequential device closes: the signal of the whole stream. -/
def close (depth : Nat) (isOpen : Bool) : Option Signal × Reading δ → Signal
  | (none, r) => (finishReading E depth true isOpen r).1
  | (some s, _) => s

end PerfData

end PerfParser
