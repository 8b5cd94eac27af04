import PerfParser.SymbolCaches
import PerfParser.Lib.History
/-!
# Output — the records for the receiver (`perfunwind.cpp`)

The back end of the unwinder with all it sends: the definitions of the lookups and the records of the calls, in one
stream.  A stream is well defined when its ids are numbered in the order of their definitions and no record mentions an
id before its definition (`WellDefined`).
-/
namespace PerfParser

open History (Always)

namespace PerfEventAttributes

/-- The flag bit `m_freq`, after ten bits of other flags. -/
def usesFrequency (attrs : PerfEventAttributes) : Bool := attrs.flags &&& ((1 : UInt64) <<< 10) != 0

/-- `m_sampleFreq`, which shares its place with `m_samplePeriod`. -/
def frequenyOrPeriod (attrs : PerfEventAttributes) : UInt64 := attrs.samplePeriod

end PerfEventAttributes

/-- `PerfTracingData::eventFormat`. -/
def PerfTracingData.eventFormat (data : PerfTracingData) (id : Int32) : EventFormat := (data.eventFormats.find id).getD {}

/-! ## Records -/

/-- What a sample and a trace point sample have in common. -/
structure SampleRecord where
  pid : Int32
  tid : Int32
  time : UInt64
  cpu : UInt32
  frames : List Int32
  numGuessedFrames : UInt8
  values : List (Int32 × UInt64)
deriving DecidableEq, Repr

/-- What `sendBuffer` is called with for the operations of a run, apart from the errors about files.  A trace point sample
has the fields that are read from its raw data, under the ids of their names. -/
inductive Record
  | definition (definition : Definition)
  | taskEvent (taskEvent : TaskEvent)
  | attributesDefinition (id : Int32) (type : UInt32) (config : UInt64) (attrNameId : Int32) (usesFrequency : Bool)
      (frequenyOrPeriod : UInt64)
  | tracePointFormat (id systemId nameId : Int32) (flags : UInt32)
  | featuresDefinition (features : PerfFeatures)
  | timeOrderViolation (mmapTime lastFlushMaxTime : UInt64)
  | sample (sample : SampleRecord)
  | tracePointSample (sample : SampleRecord) (traceData : QHash Int32 FormatField) (rawData : QByteArray)
deriving DecidableEq, Repr

namespace Record

/-! The id that a record defines.  On the wire all ids are 32 bits wide. -/

def string? : Record → Option Int32
  | definition (.string id _) => some (Int32.ofInt id)
  | _ => none

def location? : Record → Option Int32
  | definition (.location id _) => some (Int32.ofInt id)
  | _ => none

def attributes? : Record → Option Int32
  | attributesDefinition id .. => some id
  | _ => none

/-! The ids that a record mentions. -/

def stringIds : Record → List Int32
  | definition (.location _ location) => [Int32.ofInt location.file]
  | definition (.symbol _ symbol) =>
    [symbol.name, symbol.binary, symbol.path, symbol.actualPath].map Int32.ofInt
  | definition (.debugInfoDownloadProgress module url _ _) => [Int32.ofInt module, Int32.ofInt url]
  | taskEvent e => match e.type with | .command commId => [commId] | _ => []
  | attributesDefinition _ _ _ attrNameId _ _ => [attrNameId]
  | tracePointFormat _ systemId nameId _ => [systemId, nameId]
  | tracePointSample _ traceData _ => traceData.entries.map Prod.fst
  | _ => []

def locationIds : Record → List Int32
  | definition (.location _ location) => [Int32.ofInt location.parentLocationId]
  | definition (.symbol id _) => [Int32.ofInt id]
  | sample s => s.frames
  | tracePointSample s _ _ => s.frames
  | _ => []

def attributesIds : Record → List Int32
  | sample s => s.values.map Prod.fst
  | tracePointSample s _ _ => s.values.map Prod.fst
  | _ => []

end Record

/-- The ids 0, 1, 2 and so on. -/
def numbers (n : Nat) : List Int32 := (List.range n).map Int32.ofNat

/-- Every id that a record mentions is none or has been defined. -/
structure Defined (pre : List Record) (r : Record) : Prop where
  strings : ∀ id ∈ r.stringIds, id = -1 ∨ id ∈ pre.filterMap Record.string?
  locations : ∀ id ∈ r.locationIds, id = -1 ∨ id ∈ pre.filterMap Record.location?
  attributes : ∀ id ∈ r.attributesIds, id = -1 ∨ id ∈ pre.filterMap Record.attributes?

/-- The ids of each kind are defined in order, each once, and before they are mentioned. -/
structure WellDefined (records : List Record) : Prop where
  strings : records.filterMap Record.string? = numbers (records.filterMap Record.string?).length
  locations : records.filterMap Record.location? = numbers (records.filterMap Record.location?).length
  attributes : records.filterMap Record.attributes? = numbers (records.filterMap Record.attributes?).length
  references : Always Defined records

/-! ## Sending -/

/-- `PerfUnwind::lookupString`. -/
def Definitions.lookupString (d : Definitions) (string : QByteArray) : Int32 :=
  match d.strings.lookup string with
  | some id => Int32.ofNat id
  | none => -1

/-- The number of the frames after the first that was guessed, squeezed into 8 bits. -/
def UnwindInfo.numGuessedFrames (info : UnwindInfo) : UInt8 :=
  if info.firstGuessedFrame ≠ -1 then UInt8.ofInt (min 255 (info.frames.length - info.firstGuessedFrame)) else 0

namespace Registry

/-- `m_attributeIds.value(id, -1)`. -/
def attributesId (r : Registry) (id : UInt64) : Int32 := (r.attributeIds.find id).getD (-1)

/-- The format of the events of a trace point, none for an excessively large id. -/
def eventFormat (r : Registry) (attributes : PerfEventAttributes) : EventFormat :=
  r.tracingData.eventFormat (if attributes.config > 0x7FFFFFFF then -1 else attributes.config.toUInt32.toInt32)

/-- The ids of the attributes with their values. -/
def sampleValues (r : Registry) (sample : PerfRecordSample) : List (Int32 × UInt64) :=
  if sample.readFormats.isEmpty then [(r.attributesId sample.sampleId.id, sample.period)]
  else sample.readFormats.map (fun f => (r.attributesId f.id, f.value))

/-- The attributes of a sample. -/
def attributesOf? (r : Registry) (sample : PerfRecordSample) : Option PerfEventAttributes :=
  if r.attributesId sample.sampleId.id ≠ -1 then r.attributes[(r.attributesId sample.sampleId.id).toNatClampNeg]?
  else none

/-- The record that `PerfUnwind::analyze` sends. -/
def sampleRecord (r : Registry) (d : Definitions) (sample : PerfRecordSample) (info : UnwindInfo) : Record :=
  let s : SampleRecord :=
    { pid := sample.pid, tid := sample.sampleId.tid, time := sample.time, cpu := sample.cpu
      frames := info.frames.map Int32.ofInt
      numGuessedFrames := info.numGuessedFrames
      values := r.sampleValues sample }
  match (r.attributesOf? sample).filter (fun attributes => attributes.type = PerfEventAttributes.TYPE_TRACEPOINT) with
  | some attributes =>
    .tracePointSample s
      ((r.eventFormat attributes).fields.foldl (fun traceData field => traceData.insert (d.lookupString field.name) field)
        [])
      sample.rawData
  | none => .sample s

end Registry

/-- The symbol tables, with everything that has been sent. -/
structure Output where
  tables : SymbolTables := {}
  records : List Record := []

namespace Output

variable (H : Host)

/-- `PerfUnwind::sendBuffer`. -/
def sendBuffer (o : Output) (r : Record) : Output := { o with records := o.records ++ [r] }

/-- The tables after something that may have sent definitions. -/
def update (o : Output) (tables : SymbolTables) : Output where
  tables := tables
  records := o.records ++
    (tables.resolver.output.drop o.tables.resolver.output.length).map Record.definition

/-- `PerfUnwind::resolveString`. -/
def resolveString (o : Output) (string : QByteArray) : Output × Int32 :=
  let (tables, id) := o.tables.resolveString string
  (o.update tables, id)

/-- `PerfUnwind::sendAttributes`. -/
def sendAttributes (o : Output) (id : Int32) (attributes : PerfEventAttributes) (name : QByteArray) : Output :=
  let (o, attrNameId) := o.resolveString name
  o.sendBuffer (.attributesDefinition id attributes.type attributes.config attrNameId attributes.usesFrequency
    attributes.frequenyOrPeriod)

/-- `PerfUnwind::sendEventFormat`. -/
def sendEventFormat (o : Output) (id : Int32) (format : EventFormat) : Output :=
  let (o, systemId) := o.resolveString format.system
  let (o, nameId) := o.resolveString format.name
  let o := (format.commonFields ++ format.fields).foldl (fun o field => (o.resolveString field.name).1) o
  o.sendBuffer (.tracePointFormat id systemId nameId format.flags)

/-- `PerfUnwind::analyze`. -/
def analyze (r : Registry) (o : Output) (sample : PerfRecordSample) : Output :=
  let (tables, info) := o.tables.analyze H sample
  (o.update tables).sendBuffer (r.sampleRecord tables.resolver.toDefinitions sample info)

def exec (r : Registry) (o : Output) : Call → Output
  | .registerElf mmap buildId => o.update (o.tables.registerElf H mmap buildId)
  | .initAfterFork fork parentPid => o.update (o.tables.initAfterFork fork.pid parentPid)
  | .dropSymbolTable exit => o.update (o.tables.dropSymbolTable exit.pid)
  | .sendTaskEvent taskEvent => o.sendBuffer (.taskEvent taskEvent)
  | .analyze sample => o.analyze H r sample
  | .sendTimeOrderViolation mmapTime lastFlushMaxTime => o.sendBuffer (.timeOrderViolation mmapTime lastFlushMaxTime)
  | .sendAttributes id attributes name => o.sendAttributes id attributes name
  | .sendEventFormat id format => o.sendEventFormat id format
  | .sendFeatures features => o.sendBuffer (.featuresDefinition features)

def backend : Backend Output where
  resolveString := resolveString
  exec := exec H

/-- The tables of the output are those of the symbol tables alone. -/
theorem exec_tables (r : Registry) (o : Output) (c : Call) :
    (o.exec H r c).tables = SymbolTables.exec H r o.tables c := by
  cases c with
  | sendEventFormat id format =>
    have hnames : ∀ (fields : List FormatField) (o : Output),
        (fields.foldl (fun o field => (o.resolveString field.name).1) o).tables =
          (fields.map FormatField.name).foldl (fun s name => (s.resolveString name).1) o.tables := by
      intro fields
      induction fields with
      | nil => exact fun _ => rfl
      | cons field fields ih => exact fun o => ih _
    exact hnames _ _
  | _ => rfl

end Output

end PerfParser
