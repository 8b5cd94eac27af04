import PerfParser.FeatureSections
import PerfParser.HashOrder
import PerfParser.OutputDefined
import PerfParser.TraceData
import PerfParser.TracingBlob
import PerfParser.Lib.Frames
/-!
# Wire — the bytes for the receiver (`perfunwind.cpp`)

A record is written by a `QDataStream` of its own, big-endian and with its type in front, and goes out behind its length,
which is little-endian.  Between the records it is told how far a file is read and what files are missing.  In front of
all messages is a magic with the version of the streams.  An array that is null is written as an empty one here.
-/
namespace PerfParser

/-! ## Values -/

/-- A number in a `QVariant`, or an invalid one. -/
inductive QVariantItem
  | invalid
  | int (n : Int32)
  | uInt (n : UInt32)
  | longLong (n : Int64)
  | uLongLong (n : UInt64)
deriving DecidableEq, Repr, Inhabited

/-- A `QVariant` of a type that the value of a trace field has. -/
inductive QVariant
  | item (item : QVariantItem)
  | byteArray (bytes : QByteArray)
  | list (items : List QVariantItem)
deriving DecidableEq, Repr, Inhabited

/-- The type of a number is that of its width; those shorter than an `int` are promoted to one. -/
def QVariantItem.ofTraceItem (size : UInt32) (isSigned : Bool) : TraceItem → QVariantItem
  | .invalid => .invalid
  | .number n =>
    if size = 8 then (if isSigned then .longLong (Int64.ofInt n) else .uLongLong (UInt64.ofNat n.toNat))
    else if size = 4 ∧ ¬isSigned then .uInt (UInt32.ofNat n.toNat)
    else .int (Int32.ofInt n)

/-- The `QVariant` that `readTraceData` returns for a field. -/
def FormatField.toVariant (field : FormatField) : TraceValue → QVariant
  | .item i => .item (.ofTraceItem field.size (field.has FIELD_IS_SIGNED) i)
  | .bytes b => .byteArray b
  | .list l => .list (l.map (.ofTraceItem field.elementsize (field.has FIELD_IS_SIGNED)))

/-- The code units of a `QString`. -/
abbrev QString := List UInt16

/-- A `QString` of ASCII characters. -/
def QString.ofString (s : String) : QString := s.toList.map fun c => UInt16.ofNat c.toNat

/-- `QString::arg` of a number. -/
def QString.number (n : Nat) : QString := .ofString (Nat.repr n)

/-! ## What `QDataStream` writes -/

namespace Layout

def u8 (n : UInt8) : QByteArray := [n]

def bool (b : Bool) : QByteArray := u8 (if b then 1 else 0)

/-- A `QVector`, a `QList` or the entries of a `QHash`. -/
def list {α : Type} (f : α → QByteArray) (l : List α) : QByteArray := u32 true (UInt32.ofNat l.length) ++ l.flatMap f

/-- A `QString`, behind the number of its bytes. -/
def qString (s : QString) : QByteArray := buffer32 true (s.flatMap (u16 true))

/-- The type id of a `QVariant` and that it is not null. -/
def variantType (typeId : UInt32) : QByteArray := u32 true typeId ++ bool false

/-- An invalid one is null. -/
def variantItem : QVariantItem → QByteArray
  | .invalid => u32 true 0 ++ bool true
  | .int n => variantType 2 ++ i32 true n
  | .uInt n => variantType 3 ++ u32 true n
  | .longLong n => variantType 4 ++ i64 true n
  | .uLongLong n => variantType 5 ++ u64 true n

def variant : QVariant → QByteArray
  | .item i => variantItem i
  | .byteArray b => variantType 12 ++ buffer32 true b
  | .list l => variantType 9 ++ list variantItem l

end Layout

/-! ## Messages -/

namespace PerfUnwind

/-- `PerfUnwind::EventType`. -/
inductive EventType
  | threadStart | threadEnd | command | locationDefinition | symbolDefinition | stringDefinition | lostDefinition
  | featuresDefinition | error | progress | tracePointFormat | attributesDefinition | contextSwitchDefinition | sample
  | tracePointSample | debugInfoDownloadProgress | invalidType
deriving DecidableEq, Repr, Inhabited

namespace EventType

def all : List EventType :=
  [threadStart, threadEnd, command, locationDefinition, symbolDefinition, stringDefinition, lostDefinition,
    featuresDefinition, error, progress, tracePointFormat, attributesDefinition, contextSwitchDefinition, sample,
    tracePointSample, debugInfoDownloadProgress, invalidType]

/-- The number of the enumerator. -/
def number (type : EventType) : UInt8 := UInt8.ofNat (all.idxOf type)

end EventType

end PerfUnwind

/-- What the output depends on besides the records: the version of its streams, whether the data are in the byte order of
the host, the features of the file, and the order in which a hash is iterated. -/
structure Wire where
  version : Int32
  byteSwap : Bool
  features : PerfFeatureSections
  iterate : List (Int32 × QVariant) → List (Int32 × QVariant)
  iterate_perm : ∀ l, (iterate l).Perm l

namespace Wire

open PerfUnwind (EventType)
open Layout

variable (W : Wire)

def location (l : Location) : QByteArray :=
  u64 true l.address ++ (i32 true (Int32.ofInt l.file) ++ (u32 true l.pid ++ (i32 true (Int32.ofInt l.line) ++
    (i32 true (Int32.ofInt l.column) ++ (i32 true (Int32.ofInt l.parentLocationId) ++ u64 true l.relAddr)))))

def symbol (s : Symbol) : QByteArray :=
  i32 true (Int32.ofInt s.name) ++ (i32 true (Int32.ofInt s.binary) ++ (i32 true (Int32.ofInt s.path) ++
    (bool s.isKernel ++ (u64 true s.relAddr ++ (u64 true s.size ++ (i32 true (Int32.ofInt s.actualPath) ++
      bool s.isInline))))))

/-- The payload of a task event. -/
def taskPayload : TaskType → QByteArray
  | .threadStart parentPid => i32 true parentPid
  | .threadEnd => []
  | .command commId => i32 true commId
  | .lostDefinition lost => u64 true lost
  | .contextSwitchDefinition switchOut => bool switchOut

def taskType : TaskType → EventType
  | .threadStart _ => .threadStart
  | .threadEnd => .threadEnd
  | .command _ => .command
  | .lostDefinition _ => .lostDefinition
  | .contextSwitchDefinition _ => .contextSwitchDefinition

def buildId (b : BuildId) : QByteArray := i32 true b.pid ++ (buffer32 true b.id ++ buffer32 true b.fileName)

def numaNode (n : NumaNode) : QByteArray :=
  u32 true n.nodeId ++ (u64 true n.memTotal ++ (u64 true n.memFree ++ buffer32 true n.topology))

def pmu (p : Pmu) : QByteArray := u32 true p.type ++ buffer32 true p.name

def groupDesc (g : GroupDesc) : QByteArray :=
  buffer32 true g.name ++ (u32 true g.leaderIndex ++ u32 true g.numMembers)

def featureSections (s : PerfFeatureSections) : QByteArray :=
  buffer32 true s.hostName ++ (buffer32 true s.osRelease ++ (buffer32 true s.version ++ (buffer32 true s.arch ++
    (u32 true s.nrCpus.online ++ (u32 true s.nrCpus.available ++ (buffer32 true s.cpuDesc ++ (buffer32 true s.cpuId ++
    (u64 true s.totalMem ++ (list (buffer32 true) s.cmdline.cmdline ++ (list buildId s.buildIds ++
    (list (buffer32 true) s.cpuTopology.siblingCores ++ (list (buffer32 true) s.cpuTopology.siblingThreads ++
    (list numaNode s.numaTopology ++ (list pmu s.pmuMappings ++ list groupDesc s.groupDescs))))))))))))))

/-! `PerfUnwind::ErrorCode`. -/

def TimeOrderViolation : Int32 := 1
def MissingElfFile : Int32 := 2
def InvalidKallsyms : Int32 := 3

def timeOrderViolationText (mmapTime lastFlushMaxTime : UInt64) : QString :=
  .ofString "Time order violation of MMAP event across buffer flush detected. Event time is "
    ++ .number mmapTime.toNat ++ .ofString ", max time during last buffer flush was " ++ .number lastFlushMaxTime.toNat
    ++ .ofString ". This potentially breaks the data analysis."

def missingElfFileText (filePath : QString) : QString :=
  .ofString "Could not find ELF file for " ++ filePath
    ++ .ofString ". This can break stack unwinding and lead to missing symbols."

def invalidKallsymsText (path errorString : QString) : QString :=
  .ofString "Failed to parse kernel symbol mapping file \"" ++ path ++ .ofString "\": " ++ errorString

/-- `PerfUnwind::sendError`. -/
def error (code : Int32) (message : QString) : QByteArray :=
  u8 (EventType.number .error) ++ (i32 true code ++ qString message)

/-- `PerfUnwind::sendProgress`.  A stream writes a `float` as the `double` of the same value, which has these bits. -/
def progress (percent : UInt64) : QByteArray := u8 (EventType.number .progress) ++ u64 true percent

def sampleFields (s : SampleRecord) : QByteArray :=
  i32 true s.pid ++ (i32 true s.tid ++ (u64 true s.time ++ (u32 true s.cpu ++ (list (i32 true) s.frames ++
    (u8 s.numGuessedFrames ++ list (fun v => i32 true v.1 ++ u64 true v.2) s.values)))))

/-- The values of the fields of a trace point sample, none while there is more to be read of one of them. -/
def traceVariants (rounds : Nat) (traceData : QHash Int32 FormatField) (rawData : QByteArray) :
    Option (QHash Int32 QVariant) :=
  traceData.mapM fun p => (readTraceData rounds rawData p.2 W.byteSwap).1.map fun value => (p.1, p.2.toVariant value)

/-- What is sent for a record.  The trace data of a sample are read in as many rounds of their loops as are given. -/
def payload (rounds : Nat) : Record → Option QByteArray
  | .definition (.string id string) =>
    some (u8 (EventType.number .stringDefinition) ++ (i32 true (Int32.ofInt id) ++ buffer32 true string))
  | .definition (.location id l) =>
    some (u8 (EventType.number .locationDefinition) ++ (i32 true (Int32.ofInt id) ++ location l))
  | .definition (.symbol id s) =>
    some (u8 (EventType.number .symbolDefinition) ++ (i32 true (Int32.ofInt id) ++ symbol s))
  | .definition (.debugInfoDownloadProgress module url numerator denominator) =>
    some (u8 (EventType.number .debugInfoDownloadProgress) ++ (i32 true (Int32.ofInt module) ++
      (i32 true (Int32.ofInt url) ++ (i64 true numerator ++ i64 true denominator))))
  | .taskEvent e =>
    some (u8 (taskType e.type).number ++ (i32 true e.pid ++ (i32 true e.tid ++ (u64 true e.time ++ (u32 true e.cpu ++
      taskPayload e.type)))))
  | .attributesDefinition id type config attrNameId usesFrequency frequenyOrPeriod =>
    some (u8 (EventType.number .attributesDefinition) ++ (i32 true id ++ (u32 true type ++ (u64 true config ++
      (i32 true attrNameId ++ (bool usesFrequency ++ u64 true frequenyOrPeriod))))))
  | .tracePointFormat id systemId nameId flags =>
    some (u8 (EventType.number .tracePointFormat) ++ (i32 true id ++ (i32 true systemId ++ (i32 true nameId ++
      u32 true flags))))
  | .featuresDefinition features =>
    some (u8 (EventType.number .featuresDefinition) ++ featureSections { W.features with toPerfFeatures := features })
  | .timeOrderViolation mmapTime lastFlushMaxTime =>
    some (error TimeOrderViolation (timeOrderViolationText mmapTime lastFlushMaxTime))
  | .sample s => some (u8 (EventType.number .sample) ++ sampleFields s)
  | .tracePointSample s traceData rawData =>
    (W.traceVariants rounds traceData rawData).map fun values =>
      u8 (EventType.number .tracePointSample) ++ (sampleFields s ++
        list (fun p => i32 true p.1 ++ variant p.2) (W.iterate values.entries))

end Wire

/-- All that `sendBuffer` is called with: the records of the unwinder, and what is sent while a file is read or looked for.
-/
inductive Message
  | record (record : Record)
  | progress (percent : UInt64)
  | missingElfFile (filePath : QString)
  | invalidKallsyms (path errorString : QString)
deriving DecidableEq, Repr

namespace Message

def record? : Message → Option Record
  | record r => some r
  | _ => none

def percent? : Message → Option UInt64
  | progress percent => some percent
  | _ => none

end Message

namespace Wire

variable (W : Wire)

open Layout

/-- What is sent for a message. -/
def message (rounds : Nat) : Message → Option QByteArray
  | .record r => W.payload rounds r
  | .progress percent => some (progress percent)
  | .missingElfFile filePath => some (error MissingElfFile (missingElfFileText filePath))
  | .invalidKallsyms path errorString => some (error InvalidKallsyms (invalidKallsymsText path errorString))

/-! ## The stream -/

theorem toInt_toInt32 {n : Nat} (h : n < 2 ^ 31) : (UInt32.ofNat n).toInt32.toInt = n := by
  have hnat : (UInt32.ofNat n).toBitVec.toNat = n := Nat.mod_eq_of_lt (Nat.lt_trans h (by decide))
  show (UInt32.ofNat n).toBitVec.toInt = n
  rw [BitVec.toInt_eq_toNat_of_lt (by omega), hnat]

theorem toNatClampNeg_toInt32 {n : Nat} (h : n < 2 ^ 31) : (UInt32.ofNat n).toInt32.toNatClampNeg = n := by
  rw [Int32.toNatClampNeg, toInt_toInt32 h, Int.toNat_natCast]

/-- `sendBuffer`: a message behind its length, which is read back as a `qint32`. -/
def framing : Framing UInt8 where
  width := 4
  encode n := u32 false (UInt32.ofNat n)
  decode s := ((QDataStream.i32 false).run s).1.toNatClampNeg
  limit := 2 ^ 31
  width_pos := by decide
  length_encode n := Layout.length_u32 false _
  decode_encode n hn := by
    have hread := (Layout.reads_i32 false (UInt32.ofNat n).toInt32).run_eq
    rw [Layout.i32, UInt32.toUInt32_toInt32] at hread
    rw [hread]
    exact toNatClampNeg_toInt32 hn

def streamMagic : QByteArray := QByteArray.ofString "QPERFSTREAM" ++ [0]

/-- The magic and the version, which the constructor writes. -/
def header : QByteArray := streamMagic ++ i32 false W.version

/-- All that is written for some messages. -/
def output (rounds : Nat) (sent : List Message) : Option QByteArray :=
  (sent.mapM (W.message rounds)).map fun messages => W.header ++ framing.frames messages

/-- Of a host with the byte order of the data, in the order in which entries are inserted. -/
def plain : Wire := ⟨1, false, {}, id, fun _ => .refl _⟩

end Wire

end PerfParser
