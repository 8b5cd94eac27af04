import PerfParser.Records
import PerfParser.Lib.StableSort
/-!
# Unwind — buffering, sorting and flushing of events (`perfunwind.cpp`)

`PerfUnwind` buffers samples, mmaps and task events, and hands them to the symbol tables and to the output in the order
of their times.  What it hands them to is a back end with a state of its own: the buffering never reads that state, save
for the ids of strings.  The trace is a ghost: everything buffered and every call to the back end, in order.
-/
namespace PerfParser

/-! ## Events -/

/-- The `m_type` of a task event with its `m_payload`. -/
inductive TaskType
  | threadStart (parentPid : Int32)
  | threadEnd
  | command (commId : Int32)
  | lostDefinition (lost : UInt64)
  | contextSwitchDefinition (switchOut : Bool)
deriving DecidableEq, Repr, Inhabited

structure TaskEvent where
  pid : Int32
  tid : Int32
  time : UInt64
  cpu : UInt32
  type : TaskType
deriving DecidableEq, Repr, Inhabited

namespace TaskEvent

/-- `sizeof(TaskEvent)` on a 64-bit host with Qt 5, where a `QVariant` takes 16 bytes. -/
def size (_ : TaskEvent) : UInt32 := 40

/-- The parent of a process that a fork event starts; a new thread of the same process has none. -/
def forkedFrom (e : TaskEvent) : Option Int32 :=
  match e.type with
  | .threadStart parentPid => if e.pid ≠ parentPid then some parentPid else none
  | _ => none

/-- The event ends a process and not only a thread of it. -/
def endsProcess (e : TaskEvent) : Bool := e.type = .threadEnd ∧ e.pid = e.tid

end TaskEvent

/-- What `bufferEvent` takes, with the buffer it goes to. -/
inductive Event
  | sample (s : PerfRecordSample)
  | mmap (m : PerfRecordMmap)
  | task (e : TaskEvent)
deriving DecidableEq, Repr

namespace Event

def time : Event → UInt64
  | sample s => s.time
  | mmap m => m.time
  | task e => e.time

def sample? : Event → Option PerfRecordSample
  | sample s => some s
  | _ => none

def mmap? : Event → Option PerfRecordMmap
  | mmap m => some m
  | _ => none

def task? : Event → Option TaskEvent
  | task e => some e
  | _ => none

def size : Event → UInt32
  | sample s => s.size.toUInt32
  | mmap m => m.size.toUInt32
  | task e => e.size

end Event

/-! ## Statistics -/

structure Stats where
  numSamples : UInt64 := 0
  numMmaps : UInt64 := 0
  numRounds : UInt64 := 0
  numBufferFlushes : UInt64 := 0
  numTimeViolatingSamples : UInt64 := 0
  numTimeViolatingMmaps : UInt64 := 0
  numSamplesInRound : UInt32 := 0
  numMmapsInRound : UInt32 := 0
  numTaskEventsInRound : UInt32 := 0
  maxSamplesPerRound : UInt32 := 0
  maxMmapsPerRound : UInt32 := 0
  maxTaskEventsPerRound : UInt32 := 0
  maxSamplesPerFlush : UInt32 := 0
  maxMmapsPerFlush : UInt32 := 0
  maxTaskEventsPerFlush : UInt32 := 0
  maxBufferSize : UInt32 := 0
  maxTotalEventSizePerRound : UInt32 := 0
  maxTime : UInt64 := 0
  maxTimeBetweenRounds : UInt64 := 0
  maxReorderTime : UInt64 := 0
  lastRoundTime : UInt64 := 0
  totalEventSizePerRound : UInt32 := 0
  enabled : Bool := false
deriving DecidableEq, Repr, Inhabited

namespace Stats

def addEventTime (s : Stats) (time : UInt64) : Stats :=
  if time ≠ 0 ∧ time < s.maxTime then { s with maxReorderTime := max s.maxReorderTime (s.maxTime - time) }
  else { s with maxTime := time }

def finishedRound (s : Stats) : Stats :=
  { s with
    numSamples := s.numSamples + s.numSamplesInRound.toUInt64
    numMmaps := s.numMmaps + s.numMmapsInRound.toUInt64
    maxSamplesPerRound := max s.maxSamplesPerRound s.numSamplesInRound
    maxMmapsPerRound := max s.maxMmapsPerRound s.numMmapsInRound
    maxTaskEventsPerRound := max s.maxTaskEventsPerRound s.numTaskEventsInRound
    numSamplesInRound := 0
    numMmapsInRound := 0
    numTaskEventsInRound := 0
    numRounds := s.numRounds + 1
    maxTotalEventSizePerRound := max s.maxTotalEventSizePerRound s.totalEventSizePerRound
    totalEventSizePerRound := 0
    maxTimeBetweenRounds :=
      if s.lastRoundTime > 0 then max s.maxTimeBetweenRounds (s.maxTime - s.lastRoundTime) else s.maxTimeBetweenRounds
    lastRoundTime := s.maxTime }

/-- The `eventCounter` that `bufferEvent` gets with the event. -/
def count (s : Stats) : Event → Stats
  | .sample _ => { s with numSamplesInRound := s.numSamplesInRound + 1 }
  | .mmap _ => { s with numMmapsInRound := s.numMmapsInRound + 1 }
  | .task _ => { s with numTaskEventsInRound := s.numTaskEventsInRound + 1 }

end Stats

/-! ## The back end -/

/-- What the stream announced about attributes, trace points and build ids. -/
structure Registry where
  tracingData : PerfTracingData := {}
  attributeIds : QHash UInt64 Int32 := []
  attributes : List PerfEventAttributes := []
  buildIds : QHash QByteArray QByteArray := []
deriving DecidableEq, Repr, Inhabited

/-- The calls the buffering makes to the symbol tables and to the output.  The table of a process is initialised for the
task event that forks it, and dropped for the one that ends it. -/
inductive Call
  | registerElf (mmap : PerfRecordMmap) (buildId : QByteArray)
  | initAfterFork (fork : TaskEvent) (parentPid : Int32)
  | dropSymbolTable (exit : TaskEvent)
  | sendTaskEvent (taskEvent : TaskEvent)
  | analyze (sample : PerfRecordSample)
  | sendTimeOrderViolation (mmapTime lastFlushMaxTime : UInt64)
  | sendAttributes (id : Int32) (attributes : PerfEventAttributes) (name : QByteArray)
  | sendEventFormat (id : Int32) (format : EventFormat)
  | sendFeatures (features : PerfFeatures)
deriving DecidableEq, Repr

structure Backend (σ : Type) where
  resolveString : σ → QByteArray → σ × Int32
  exec : Registry → σ → Call → σ

/-- An entry of the trace: an event that was buffered, the start of the loop that sends the task events left after the
samples, or a call with `m_lastFlushMaxTime` and the back end as they are when it is made. -/
inductive Entry (σ : Type)
  | arrived (event : Event)
  | trailing (waiting : List TaskEvent) (eventBufferSize desiredBufferSize : UInt32)
  | call (lastFlushMaxTime : UInt64) (back : σ) (call : Call)

structure PerfUnwind (σ : Type) where
  sampleBuffer : List PerfRecordSample := []
  mmapBuffer : List PerfRecordMmap := []
  taskEventsBuffer : List TaskEvent := []
  registry : Registry := {}
  lastEventBufferSize : UInt32 := (1 : UInt32) <<< 20
  maxEventBufferSize : UInt32 := (1 : UInt32) <<< 30
  targetEventBufferSize : UInt32 := (1 : UInt32) <<< 25
  eventBufferSize : UInt32 := 0
  timeOrderViolations : UInt32 := 0
  lastFlushMaxTime : UInt64 := 0
  stats : Stats := {}
  back : σ
  trace : List (Entry σ) := []

namespace PerfUnwind

variable {σ : Type} (B : Backend σ)

/-- A new unwinder, with any sizes set for its buffer. -/
def create (back : σ) (lastSize maxSize targetSize : UInt32) : PerfUnwind σ where
  lastEventBufferSize := lastSize
  maxEventBufferSize := maxSize
  targetEventBufferSize := targetSize
  back := back

/-- A call to the back end. -/
def call (u : PerfUnwind σ) (c : Call) : PerfUnwind σ :=
  { u with back := B.exec u.registry u.back c, trace := u.trace ++ [.call u.lastFlushMaxTime u.back c] }

/-- A call that is left out in stats mode. -/
def callUnlessStats (u : PerfUnwind σ) (c : Call) : PerfUnwind σ :=
  if u.stats.enabled then u else u.call B c

/-! ## Buffer sizes

`setMaxEventBufferSize` and `setTargetEventBufferSize` call each other, at most once: the second call's guard compares
the two sizes the first has just made equal. -/

def setMaxEventBufferSize (u : PerfUnwind σ) (size : UInt32) : PerfUnwind σ :=
  if size < u.targetEventBufferSize then
    { u with
      maxEventBufferSize := size
      lastEventBufferSize := u.targetEventBufferSize
      targetEventBufferSize := size }
  else { u with maxEventBufferSize := size }

def setTargetEventBufferSize (u : PerfUnwind σ) (size : UInt32) : PerfUnwind σ :=
  let u := { u with lastEventBufferSize := u.targetEventBufferSize, targetEventBufferSize := size }
  if size > u.maxEventBufferSize then u.setMaxEventBufferSize size else u

def revertTargetEventBufferSize (u : PerfUnwind σ) : PerfUnwind σ :=
  u.setTargetEventBufferSize u.lastEventBufferSize

def hasTracePointAttributes (u : PerfUnwind σ) : Bool :=
  u.registry.attributes.any (fun attributes => attributes.type = PerfEventAttributes.TYPE_TRACEPOINT)

/-! ## Flushing -/

/-- The element of `forwardMmapBuffer`'s loop. -/
def forwardMmap (u : PerfUnwind σ) (m : PerfRecordMmap) : PerfUnwind σ :=
  let u := u.callUnlessStats B (.registerElf m ((u.registry.buildIds.find m.filename).getD []))
  { u with eventBufferSize := u.eventBufferSize - m.size.toUInt32 }

/-- `PerfUnwind::forwardMmapBuffer`, with what is left between `mmapIt` and `mmapEnd`. -/
def forwardMmapBuffer (timestamp : UInt64) : PerfUnwind σ → List PerfRecordMmap → PerfUnwind σ × List PerfRecordMmap
  | u, [] => (u, [])
  | u, m :: mmaps =>
    if m.time ≤ timestamp then forwardMmapBuffer timestamp (u.forwardMmap B m) mmaps else (u, m :: mmaps)

/-- What a task event does to the symbol tables before it is sent, between samples. -/
def beforeSend (u : PerfUnwind σ) (mmaps : List PerfRecordMmap) (e : TaskEvent) :
    PerfUnwind σ × List PerfRecordMmap :=
  match e.forkedFrom with
  | some parentPid =>
    -- flush the mmap buffer on fork events to allow initialization with the correct state
    let (u, mmaps) := u.forwardMmapBuffer B e.time mmaps
    (u.call B (.initAfterFork e parentPid), mmaps)
  | none => (if e.endsProcess then u.call B (.dropSymbolTable e) else u, mmaps)

/-- The element of the loop over the task events before a sample. -/
def processTask (u : PerfUnwind σ) (mmaps : List PerfRecordMmap) (e : TaskEvent) :
    PerfUnwind σ × List PerfRecordMmap :=
  let (u, mmaps) :=
    if u.stats.enabled then (u, mmaps)
    else
      let (u, mmaps) := u.beforeSend B mmaps e
      (u.call B (.sendTaskEvent e), mmaps)
  ({ u with eventBufferSize := u.eventBufferSize - e.size }, mmaps)

/-- The locals of `flushEventBuffer`: each iterator is what it has not reached yet. -/
structure Flush (σ : Type) where
  unwind : PerfUnwind σ
  mmapIt : List PerfRecordMmap
  taskEventIt : List TaskEvent
  violatesTimeOrder : Bool

/-- The loop over the task events up to the time of a sample. -/
def processTasks (timestamp : UInt64) :
    PerfUnwind σ → List PerfRecordMmap → List TaskEvent → PerfUnwind σ × List PerfRecordMmap × List TaskEvent
  | u, mmaps, [] => (u, mmaps, [])
  | u, mmaps, e :: tasks =>
    if e.time ≤ timestamp then
      let (u, mmaps) := u.processTask B mmaps e
      processTasks timestamp u mmaps tasks
    else (u, mmaps, e :: tasks)

/-- The element of the loop over the samples, after the check of its time. -/
def processSample (f : Flush σ) (s : PerfRecordSample) : Flush σ :=
  let (u, mmaps, tasks) := processTasks B s.time f.unwind f.mmapIt f.taskEventIt
  let (u, mmaps) := u.forwardMmapBuffer B s.time mmaps
  let u := u.callUnlessStats B (.analyze s)
  { f with
    unwind := { u with eventBufferSize := u.eventBufferSize - s.size.toUInt32 }
    mmapIt := mmaps
    taskEventIt := tasks }

/-- The loop over the samples, with what is left between `sampleIt` and `sampleEnd`. -/
def sampleLoop (desiredBufferSize : UInt32) : Flush σ → List PerfRecordSample → Flush σ × List PerfRecordSample
  | f, [] => (f, [])
  | f, s :: samples =>
    if f.unwind.eventBufferSize > desiredBufferSize then
      if s.time < f.unwind.lastFlushMaxTime then
        sampleLoop desiredBufferSize (processSample B { f with violatesTimeOrder := true } s) samples
      else if f.violatesTimeOrder then
        -- Process any remaining mmap events violating the previous buffer flush.
        let (u, mmaps) := f.unwind.forwardMmapBuffer B f.unwind.lastFlushMaxTime f.mmapIt
        ({ f with unwind := u, mmapIt := mmaps }, s :: samples)
      else
        sampleLoop desiredBufferSize
          (processSample B { f with unwind := { f.unwind with lastFlushMaxTime := s.time } } s) samples
    else (f, s :: samples)

/-- The loop over the task events after the samples. -/
def trailingLoop (desiredBufferSize : UInt32) : PerfUnwind σ → List TaskEvent → PerfUnwind σ × List TaskEvent
  | u, [] => (u, [])
  | u, e :: tasks =>
    if u.eventBufferSize > desiredBufferSize then
      let u := u.callUnlessStats B (.sendTaskEvent e)
      trailingLoop desiredBufferSize { u with eventBufferSize := u.eventBufferSize - e.size } tasks
    else (u, e :: tasks)

/-- The time order violations that stats mode counts before a flush, and the flush sizes after it. -/
def countViolations (u : PerfUnwind σ) : PerfUnwind σ :=
  if u.stats.enabled then
    { u with stats :=
      { u.stats with
        numTimeViolatingSamples := u.stats.numTimeViolatingSamples
          + .ofNat (u.sampleBuffer.takeWhile (fun s => s.time < u.lastFlushMaxTime)).length
        numTimeViolatingMmaps := u.stats.numTimeViolatingMmaps
          + .ofNat (u.mmapBuffer.takeWhile (fun m => m.time < u.lastFlushMaxTime)).length } }
  else u

@[inherit_doc countViolations]
def countFlush (u : PerfUnwind σ) (samples mmaps taskEvents : Nat) : PerfUnwind σ :=
  if u.stats.enabled then
    { u with stats :=
      { u.stats with
        numBufferFlushes := u.stats.numBufferFlushes + 1
        maxSamplesPerFlush := max (.ofNat samples) u.stats.maxSamplesPerFlush
        maxMmapsPerFlush := max (.ofNat mmaps) u.stats.maxMmapsPerFlush
        maxTaskEventsPerFlush := max (.ofNat taskEvents) u.stats.maxTaskEventsPerFlush } }
  else u

/-- Increase the buffer size to reduce future time order violations. -/
def growBuffer (u : PerfUnwind σ) (bufferSize : UInt32) : PerfUnwind σ :=
  let u := { u with timeOrderViolations := u.timeOrderViolations + 1 }
  let bufferSize := if bufferSize < u.lastEventBufferSize then u.lastEventBufferSize else bufferSize
  let bufferSize := if bufferSize > 0xFFFFFFFF / 2 then 0xFFFFFFFF else bufferSize * 2
  let bufferSize := if bufferSize > u.maxEventBufferSize then u.maxEventBufferSize else bufferSize
  u.setTargetEventBufferSize bufferSize

/-- The buffers in the order of their times. -/
def sortBuffers (u : PerfUnwind σ) : PerfUnwind σ :=
  { u with
    mmapBuffer := StableSort.sortBy (fun m : PerfRecordMmap => m.time) u.mmapBuffer
    sampleBuffer := StableSort.sortBy (fun s : PerfRecordSample => s.time) u.sampleBuffer
    taskEventsBuffer := StableSort.sortBy (fun e : TaskEvent => e.time) u.taskEventsBuffer }

/-- The first mmap of the sorted buffer, where it comes before `m_lastFlushMaxTime`. -/
def violatingMmap (u : PerfUnwind σ) : Option PerfRecordMmap :=
  u.mmapBuffer.head?.filter (fun m => m.time < u.lastFlushMaxTime)

/-- The sorted state `flushEventBuffer` enters its loops with, an mmap out of order reported. -/
def startFlush (u : PerfUnwind σ) : Flush σ :=
  let u := u.sortBuffers.countViolations
  { unwind :=
      match u.violatingMmap with
      | some m => u.call B (.sendTimeOrderViolation m.time u.lastFlushMaxTime)
      | none => u
    mmapIt := u.mmapBuffer
    taskEventIt := u.taskEventsBuffer
    violatesTimeOrder := u.violatingMmap.isSome }

/-- Where the loop over the samples ends and the one over the task events left starts. -/
def Flush.leave (f : Flush σ) (desiredBufferSize : UInt32) : PerfUnwind σ :=
  { f.unwind with
    trace := f.unwind.trace ++ [.trailing f.taskEventIt f.unwind.eventBufferSize desiredBufferSize] }

/-- Erase the buffers up to the iterators. -/
def eraseUntil (u : PerfUnwind σ) (samples : List PerfRecordSample) (mmaps : List PerfRecordMmap)
    (tasks : List TaskEvent) : PerfUnwind σ :=
  let u := u.countFlush (u.sampleBuffer.length - samples.length) (u.mmapBuffer.length - mmaps.length)
    (u.taskEventsBuffer.length - tasks.length)
  { u with sampleBuffer := samples, mmapBuffer := mmaps, taskEventsBuffer := tasks }

/-- The two loops of `flushEventBuffer`, with `violatesTimeOrder` at their end. -/
def flushLoops (f : Flush σ) (desiredBufferSize : UInt32) : PerfUnwind σ × Bool :=
  let (f, samples) := sampleLoop B desiredBufferSize f f.unwind.sampleBuffer
  let (u, tasks) := trailingLoop B desiredBufferSize (f.leave desiredBufferSize) f.taskEventIt
  (u.eraseUntil samples f.mmapIt tasks, f.violatesTimeOrder)

/-- `PerfUnwind::flushEventBuffer`. -/
def flushEventBuffer (u : PerfUnwind σ) (desiredBufferSize : UInt32) : PerfUnwind σ :=
  let bufferSize := u.eventBufferSize
  let (u, violatesTimeOrder) := flushLoops B (u.startFlush B) desiredBufferSize
  if violatesTimeOrder then u.growBuffer bufferSize else u

/-! ## Buffering -/

def append (u : PerfUnwind σ) : Event → PerfUnwind σ
  | .sample s => { u with sampleBuffer := u.sampleBuffer ++ [s] }
  | .mmap m => { u with mmapBuffer := u.mmapBuffer ++ [m] }
  | .task e => { u with taskEventsBuffer := u.taskEventsBuffer ++ [e] }

/-- `bufferEvent` without the flush at its end. -/
def enqueue (u : PerfUnwind σ) (event : Event) : PerfUnwind σ :=
  let u := u.append event
  let u := { u with eventBufferSize := u.eventBufferSize + event.size, trace := u.trace ++ [Entry.arrived event] }
  if u.stats.enabled then
    let stats := u.stats.count event
    let stats := { stats with
      maxBufferSize := max u.eventBufferSize stats.maxBufferSize
      totalEventSizePerRound := stats.totalEventSizePerRound + event.size }
    { u with stats := stats.addEventTime event.time }
  else u

/-- `PerfUnwind::bufferEvent`. -/
def bufferEvent (u : PerfUnwind σ) (event : Event) : PerfUnwind σ :=
  let u := u.enqueue event
  if u.targetEventBufferSize ≠ 0 ∧ u.eventBufferSize > u.targetEventBufferSize then
    u.flushEventBuffer B (u.targetEventBufferSize / 2)
  else u

def registerElf (u : PerfUnwind σ) (mmap : PerfRecordMmap) : PerfUnwind σ := u.bufferEvent B (.mmap mmap)

def sample (u : PerfUnwind σ) (sample : PerfRecordSample) : PerfUnwind σ := u.bufferEvent B (.sample sample)

/-- `PerfUnwind::resolveString`. -/
def resolveString (u : PerfUnwind σ) (string : QByteArray) : PerfUnwind σ × Int32 :=
  let (back, id) := B.resolveString u.back string
  ({ u with back := back }, id)

def comm (u : PerfUnwind σ) (comm : PerfRecordComm) : PerfUnwind σ :=
  let (u, commId) := u.resolveString B comm.comm
  u.bufferEvent B (.task
    { pid := comm.pid, tid := comm.tid, time := comm.time, cpu := comm.cpu, type := .command commId })

def lost (u : PerfUnwind σ) (lost : PerfRecordLost) : PerfUnwind σ :=
  u.bufferEvent B (.task
    { pid := lost.pid, tid := lost.tid, time := lost.time, cpu := lost.cpu, type := .lostDefinition lost.lost })

def fork (u : PerfUnwind σ) (sample : PerfRecordFork) : PerfUnwind σ :=
  u.bufferEvent B (.task
    { pid := sample.childPid, tid := sample.childTid, time := sample.time, cpu := sample.cpu,
      type := .threadStart sample.parentPid })

def exit (u : PerfUnwind σ) (sample : PerfRecordFork) : PerfUnwind σ :=
  u.bufferEvent B (.task
    { pid := sample.childPid, tid := sample.childTid, time := sample.time, cpu := sample.cpu, type := .threadEnd })

def contextSwitch (u : PerfUnwind σ) (contextSwitch : PerfRecordContextSwitch) : PerfUnwind σ :=
  u.bufferEvent B (.task
    { pid := contextSwitch.pid, tid := contextSwitch.tid, time := contextSwitch.time, cpu := contextSwitch.cpu,
      type := .contextSwitchDefinition (contextSwitch.misc &&& MISC_SWITCH_OUT != 0) })

def finishedRound (u : PerfUnwind σ) : PerfUnwind σ :=
  let u := if u.stats.enabled then { u with stats := u.stats.finishedRound } else u
  if u.targetEventBufferSize = 0 then u.flushEventBuffer B (u.eventBufferSize / 2)
  else if u.timeOrderViolations = 0 ∧ ¬u.hasTracePointAttributes then u.setTargetEventBufferSize 0
  else u

def finalize (u : PerfUnwind σ) : PerfUnwind σ := (u.finishedRound B).flushEventBuffer B 0

/-! ## Attributes and features -/

def addAttributes (u : PerfUnwind σ) (attributes : PerfEventAttributes) (name : QByteArray) (ids : List UInt64) :
    PerfUnwind σ :=
  let filteredIds := (ids ++ [0]).filter (fun id => !u.registry.attributeIds.contains id)
  let u := if attributes.type = PerfEventAttributes.TYPE_TRACEPOINT ∧ u.targetEventBufferSize = 0 then
    u.revertTargetEventBufferSize else u
  if filteredIds.isEmpty then u
  else
    let internalId := Int32.ofNat u.registry.attributes.length
    let u := { u with registry := { u.registry with attributes := u.registry.attributes ++ [attributes] } }
    let u := u.call B (.sendAttributes internalId attributes name)
    { u with registry :=
      { u.registry with
        attributeIds := filteredIds.foldl (fun h id => h.insert id internalId) u.registry.attributeIds } }

def attr (u : PerfUnwind σ) (attr : PerfRecordAttr) : PerfUnwind σ :=
  u.addAttributes B attr.attr attr.attr.name attr.ids

def tracing (u : PerfUnwind σ) (tracingData : PerfTracingData) : PerfUnwind σ :=
  tracingData.eventFormats.entries.foldl (fun u (id, format) => u.call B (.sendEventFormat id format))
    { u with registry := { u.registry with tracingData := tracingData } }

/-- `features` after the attributes are added: a perf that marks its rounds needs no buffering of our own. -/
def checkVersion (u : PerfUnwind σ) (version : QByteArray) : PerfUnwind σ :=
  if QVersionNumber.le [3, 17] (QVersionNumber.fromString version) ∧ u.timeOrderViolations = 0
      ∧ ¬u.hasTracePointAttributes then
    u.setTargetEventBufferSize 0
  else u

def features (u : PerfUnwind σ) (features : PerfFeatures) : PerfUnwind σ :=
  let u := u.tracing B features.tracingData
  let u := features.eventDescs.foldl (fun u desc => u.addAttributes B desc.attrs desc.name desc.ids) u
  let u := u.checkVersion features.version
  let u := u.call B (.sendFeatures features)
  { u with registry :=
    { u.registry with buildIds := features.buildIds.foldl (fun h b => h.insert b.fileName b.id) u.registry.buildIds } }

end PerfUnwind

/-! ## Runs -/

/-- The public operations. -/
inductive Op
  | registerElf (mmap : PerfRecordMmap)
  | comm (comm : PerfRecordComm)
  | lost (lost : PerfRecordLost)
  | sample (sample : PerfRecordSample)
  | fork (fork : PerfRecordFork)
  | exit (exit : PerfRecordFork)
  | contextSwitch (contextSwitch : PerfRecordContextSwitch)
  | finishedRound
  | attr (attr : PerfRecordAttr)
  | features (features : PerfFeatures)
  | tracing (tracingData : PerfTracingData)
  | setMaxEventBufferSize (size : UInt32)
  | setTargetEventBufferSize (size : UInt32)
  | finalize
deriving DecidableEq, Repr

def Op.sample? : Op → Option PerfRecordSample
  | .sample s => some s
  | _ => none

namespace PerfUnwind

variable {σ : Type} (B : Backend σ)

def apply (u : PerfUnwind σ) : Op → PerfUnwind σ
  | .registerElf mmap => u.registerElf B mmap
  | .comm comm => u.comm B comm
  | .lost lost => u.lost B lost
  | .sample sample => u.sample B sample
  | .fork fork => u.fork B fork
  | .exit exit => u.exit B exit
  | .contextSwitch contextSwitch => u.contextSwitch B contextSwitch
  | .finishedRound => u.finishedRound B
  | .attr attr => u.attr B attr
  | .features features => u.features B features
  | .tracing tracingData => u.tracing B tracingData
  | .setMaxEventBufferSize size => u.setMaxEventBufferSize size
  | .setTargetEventBufferSize size => u.setTargetEventBufferSize size
  | .finalize => u.finalize B

def run (u : PerfUnwind σ) (ops : List Op) : PerfUnwind σ := ops.foldl (fun u op => u.apply B op) u

end PerfUnwind

end PerfParser
