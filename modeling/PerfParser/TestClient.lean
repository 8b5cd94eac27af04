import PerfParser.Wire
/-!
# TestClient — the receiver of the tests (`perfparsertestclient.cpp`)

The client reads the messages one by one into tables of its own, and checks the ids they mention against these.  A check
that fails fails the test, which is none here.  What the unwinder writes for a record it reads back, up to the last byte
(`Wire.run_payload`).
-/
namespace PerfParser

namespace QDataStream

def u8 : Reader UInt8 UInt8 := UInt8.ofNat <$> Reader.number true 1

def bool : Reader UInt8 Bool := (fun n => n != 0) <$> u8

/-! Containers are cleared when the stream ends within them, so their items are read with that told apart. -/

/-- A value of `n` bytes, none where there are less. -/
def whole {α : Type} (r : Reader UInt8 α) (n : Nat) : Reader UInt8 (Option α) :=
  (fun bytes => if bytes.length < n then none else some (r.run bytes).1) <$> Reader.take n

def andThen {α β : Type} (r : Reader UInt8 (Option α)) (f : α → Reader UInt8 (Option β)) : Reader UInt8 (Option β) := do
  match ← r with
  | none => pure none
  | some a => f a

def items {α : Type} (item : Reader UInt8 (Option α)) : Nat → Reader UInt8 (Option (List α))
  | 0 => pure (some [])
  | n + 1 => andThen item fun a => Option.map (a :: ·) <$> items item n

def list? {α : Type} (item : Reader UInt8 (Option α)) : Reader UInt8 (Option (List α)) :=
  andThen (whole (u32 true) 4) fun n => items item n.toNat

def list {α : Type} (item : Reader UInt8 (Option α)) : Reader UInt8 (List α) := (fun l => l.getD []) <$> list? item

/-- A `QByteArray`, which is null for the largest length. -/
def byteArray? : Reader UInt8 (Option QByteArray) :=
  andThen (whole (u32 true) 4) fun len =>
    if len = 0xFFFFFFFF then pure (some []) else whole (readRawData len.toNat) len.toNat

def byteArray : Reader UInt8 QByteArray := (fun bytes => bytes.getD []) <$> byteArray?

/-- A `QString`, whose text nobody looks at.  One with an odd number of bytes is not read. -/
def skipString : Reader UInt8 Unit := do
  let bytes ← u32 true
  if bytes = 0xFFFFFFFF ∨ bytes.toNat % 2 = 1 then pure () else skipRawData bytes.toNat

/-- The number in a `QVariant` of a type that trace data have. -/
def variantNumber? (typeId : UInt32) : Reader UInt8 (Option QVariantItem) :=
  match typeId.toNat with
  | 0 => pure (some .invalid)
  | 2 => Option.map .int <$> whole (i32 true) 4
  | 3 => Option.map .uInt <$> whole (u32 true) 4
  | 4 => Option.map .longLong <$> whole (i64 true) 8
  | 5 => Option.map .uLongLong <$> whole (u64 true) 8
  | _ => pure none

/-- A type id and the null flag. -/
def variantType? : Reader UInt8 (Option UInt32) :=
  andThen (whole (u32 true) 4) fun typeId => Option.map (fun _ => typeId) <$> whole u8 1

def variantItem? : Reader UInt8 (Option QVariantItem) := andThen variantType? variantNumber?

def variant? : Reader UInt8 (Option QVariant) :=
  andThen variantType? fun typeId =>
    match typeId.toNat with
    | 9 => Option.map .list <$> list? variantItem?
    | 12 => Option.map .byteArray <$> byteArray?
    | _ => Option.map .item <$> variantNumber? typeId

end QDataStream

namespace PerfParserTestClient

open QDataStream Reader

/-! ## A `float` -/

/-- `n / 2 ^ k`, rounded to the nearest, and halfway to the even one. -/
def roundShift (n k : Nat) : Nat :=
  let q := n / 2 ^ k
  if 2 ^ k < 2 * (n % 2 ^ k) ∨ 2 ^ k = 2 * (n % 2 ^ k) ∧ q % 2 = 1 then q + 1 else q

/-- The `float` that a `double` of these bits is converted to: how many there are from zero to it, with its sign, and none
for a NaN. -/
def floatOfDouble (bits : UInt64) : Option Int :=
  let exponent := bits.toNat / 2 ^ 52 % 2 ^ 11
  let fraction := bits.toNat % 2 ^ 52
  if exponent = 2047 ∧ fraction ≠ 0 then none
  else
    let significand := if exponent = 0 then fraction else 2 ^ 52 + fraction
    -- below the exponent 897 a float is subnormal, and more than the 29 bits that it lacks are dropped
    let place := (exponent - 897) * 2 ^ 23 + roundShift significand (29 + (897 - max exponent 1))
    let infinity := 0x7F800000
    some (if bits.toNat / 2 ^ 63 = 1 then -(min place infinity : Nat) else (min place infinity : Nat))

/-- The place of `-1`. -/
def minusOne : Option Int := some (-0x3F800000)

/-- `p > q` of two numbers. -/
def greater : Option Int → Option Int → Bool
  | some p, some q => q < p
  | _, _ => false

/-! ## Events -/

/-- `PerfParserTestClient::EventType`, which is repeated to check against accidental changes. -/
inductive EventType
  | threadStart | threadEnd | command | locationDefinition | symbolDefinition | stringDefinition | lostDefinition
  | featuresDefinition | error | progress | tracePointFormat | attributesDefinition | contextSwitchDefinition | sample
  | tracePointSample | invalidType
deriving DecidableEq, Repr, Inhabited

def EventType.all : List EventType :=
  [threadStart, threadEnd, command, locationDefinition, symbolDefinition, stringDefinition, lostDefinition,
    featuresDefinition, error, progress, tracePointFormat, attributesDefinition, contextSwitchDefinition, sample,
    tracePointSample, invalidType]

structure AttributeEvent where
  type : UInt32 := 0
  name : Int32 := -1
  config : UInt64 := 0
  usesFrequency : Bool := false
  frequencyOrPeriod : UInt64 := 0
deriving DecidableEq, Repr, Inhabited

structure ThreadEvent where
  pid : Int32 := -1
  tid : Int32 := -1
  time : UInt64 := 0
  cpu : UInt32 := 0
deriving DecidableEq, Repr, Inhabited

structure ThreadStartEvent extends ThreadEvent where
  ppid : Int32 := -1
deriving DecidableEq, Repr, Inhabited

structure CommandEvent extends ThreadEvent where
  name : Int32 := -1
deriving DecidableEq, Repr, Inhabited

structure LocationEvent where
  address : UInt64 := 0
  relAddr : UInt64 := 0
  file : Int32 := -1
  pid : UInt32 := 0
  line : Int32 := -1
  column : Int32 := -1
  parentLocationId : Int32 := -1
deriving DecidableEq, Repr, Inhabited

structure SymbolEvent where
  name : Int32 := -1
  relAddr : UInt64 := 0
  size : UInt64 := 0
  binary : Int32 := -1
  path : Int32 := -1
  actualPath : Int32 := -1
  isKernel : Bool := false
  isInline : Bool := false
deriving DecidableEq, Repr, Inhabited

structure SampleEvent extends ThreadEvent where
  frames : List Int32 := []
  values : List (Int32 × UInt64) := []
  tracePointData : QHash Int32 QVariant := []
  numGuessedFrames : UInt8 := 0
deriving DecidableEq, Repr, Inhabited

structure TracePointFormatEvent where
  system : Int32 := -1
  name : Int32 := -1
  flags : UInt32 := 0
deriving DecidableEq, Repr, Inhabited

/-- What is read of a message. -/
inductive Event
  | threadStart (e : ThreadStartEvent)
  | threadEnd (e : ThreadEvent)
  | command (e : CommandEvent)
  | locationDefinition (id : Int32) (location : LocationEvent)
  | symbolDefinition (id : Int32) (symbol : SymbolEvent)
  | attributesDefinition (id : Int32) (attributes : AttributeEvent)
  | stringDefinition (id : Int32) (string : QByteArray)
  | error (errorCode : Int32)
  | sample (s : SampleEvent)
  | progress (percent : Option Int)
  | tracePointFormat (id : Int32) (format : TracePointFormatEvent)
  | skipped
deriving DecidableEq, Repr, Inhabited

def ThreadEvent.read : Reader UInt8 ThreadEvent := do
  let pid ← i32 true
  let tid ← i32 true
  let time ← u64 true
  let cpu ← u32 true
  pure { pid, tid, time, cpu }

def LocationEvent.read : Reader UInt8 LocationEvent := do
  let address ← u64 true
  let file ← i32 true
  let pid ← u32 true
  let line ← i32 true
  let column ← i32 true
  let parentLocationId ← i32 true
  let relAddr ← u64 true
  pure { address, relAddr, file, pid, line, column, parentLocationId }

def SymbolEvent.read : Reader UInt8 SymbolEvent := do
  let name ← i32 true
  let binary ← i32 true
  let path ← i32 true
  let isKernel ← bool
  let relAddr ← u64 true
  let size ← u64 true
  let actualPath ← i32 true
  let isInline ← bool
  pure { name, relAddr, size, binary, path, actualPath, isKernel, isInline }

def AttributeEvent.read : Reader UInt8 AttributeEvent := do
  let type ← u32 true
  let config ← u64 true
  let name ← i32 true
  let usesFrequency ← bool
  let frequencyOrPeriod ← u64 true
  pure { type, name, config, usesFrequency, frequencyOrPeriod }

def TracePointFormatEvent.read : Reader UInt8 TracePointFormatEvent := do
  let system ← i32 true
  let name ← i32 true
  let flags ← u32 true
  pure { system, name, flags }

def readValue : Reader UInt8 (Int32 × UInt64) := do
  let id ← i32 true
  let value ← u64 true
  pure (id, value)

def readEntry : Reader UInt8 (Option (Int32 × QVariant)) :=
  andThen (whole (i32 true) 4) fun key => Option.map (fun value => (key, value)) <$> variant?

/-- The trace data of a sample, if it is one of a trace point. -/
def readTracePointData (isTracePoint : Bool) : Reader UInt8 (QHash Int32 QVariant) :=
  if isTracePoint then QHash.insertAll <$> list readEntry else pure []

def SampleEvent.read (isTracePoint : Bool) : Reader UInt8 SampleEvent := do
  let thread ← ThreadEvent.read
  let frames ← list (whole (i32 true) 4)
  let numGuessedFrames ← u8
  let values ← list (whole readValue 12)
  let tracePointData ← readTracePointData isTracePoint
  pure { thread with frames, values, tracePointData, numGuessedFrames }

/-- The `switch` over the event type, with `size` the bytes of the message. -/
def Event.readFields (size : Nat) : EventType → Reader UInt8 Event
  | .threadStart => do
    let thread ← ThreadEvent.read
    let ppid ← i32 true
    pure (.threadStart { thread with ppid })
  | .threadEnd => Event.threadEnd <$> ThreadEvent.read
  | .command => do
    let thread ← ThreadEvent.read
    let name ← i32 true
    pure (.command { thread with name })
  | .locationDefinition => do
    let id ← i32 true
    Event.locationDefinition id <$> LocationEvent.read
  | .symbolDefinition => do
    let id ← i32 true
    Event.symbolDefinition id <$> SymbolEvent.read
  | .attributesDefinition => do
    let id ← i32 true
    Event.attributesDefinition id <$> AttributeEvent.read
  | .stringDefinition => do
    let id ← i32 true
    Event.stringDefinition id <$> byteArray
  | .error => do
    let errorCode ← i32 true
    skipString
    pure (.error errorCode)
  | .sample => Event.sample <$> SampleEvent.read false
  | .tracePointSample => Event.sample <$> SampleEvent.read true
  | .progress => (fun percent => Event.progress (floatOfDouble percent)) <$> u64 true
  | .tracePointFormat => do
    let id ← i32 true
    Event.tracePointFormat id <$> TracePointFormatEvent.read
  | .lostDefinition | .featuresDefinition | .contextSwitchDefinition | .invalidType => do
    skipRawData size
    pure .skipped

/-- The event in a message of `size` bytes.  A type that has no enumerator is skipped like the last one. -/
def Event.read (size : Nat) : Reader UInt8 Event := do
  let eventType ← u8
  Event.readFields size (EventType.all[eventType.toNat]?.getD .invalidType)

end PerfParserTestClient

/-! ## The client -/

open PerfParserTestClient in
structure PerfParserTestClient where
  strings : List QByteArray := []
  attributes : List AttributeEvent := []
  commands : QHash Int32 CommandEvent := []
  threadStarts : List ThreadStartEvent := []
  threadEnds : List ThreadEvent := []
  locations : List LocationEvent := []
  symbols : QHash Int32 SymbolEvent := []
  samples : List SampleEvent := []
  tracePointFormats : QHash Int32 TracePointFormatEvent := []
deriving DecidableEq, Repr, Inhabited

namespace PerfParserTestClient

/-- `QVector::operator[]`, which asserts that the index is in range. -/
def at? {α : Type} (l : List α) (id : Int32) : Option α := if id < 0 then none else l[id.toNatClampNeg]?

variable (c : PerfParserTestClient)

def checkString (id : Int32) : Bool := (at? c.strings id).any fun string => !string.isEmpty

def checkLocation (id : Int32) : Bool := (at? c.locations id).any fun location => location.pid != 0

def checkAttribute (id : Int32) : Bool := (at? c.attributes id).any fun attributes => c.checkString attributes.name

/-- A `QCOMPARE` of an id with the length of its table. -/
def isNext {α : Type} (id : Int32) (l : List α) : Bool := id.toInt = l.length

def insertCommand (e : CommandEvent) : PerfParserTestClient :=
  let commands := c.commands.insert e.tid e
  { c with commands := if e.pid ≠ e.tid ∧ ¬commands.contains e.pid then commands.insert e.pid e else commands }

/-- What a message does to the tables, none where one of their checks fails. -/
def apply : Event → Option PerfParserTestClient
  | .threadStart e => some { c with
      threadStarts := c.threadStarts ++ [e]
      commands := c.commands.insert e.pid ((c.commands.find e.ppid).getD {}) }
  | .threadEnd e => some { c with threadEnds := c.threadEnds ++ [e] }
  | .command e => if c.checkString e.name then some (c.insertCommand e) else none
  | .locationDefinition id location =>
    if (location.file = -1 ∨ c.checkString location.file) ∧
        (location.parentLocationId = -1 ∨ c.checkLocation location.parentLocationId) ∧ isNext id c.locations then
      some { c with locations := c.locations ++ [location] }
    else none
  | .symbolDefinition id symbol =>
    if (symbol.name = -1 ∨ c.checkString symbol.name) ∧ (symbol.binary = -1 ∨ c.checkString symbol.binary) ∧
        id.toInt < c.locations.length then
      some { c with symbols := c.symbols.insert id symbol }
    else none
  | .attributesDefinition id attributes =>
    if c.checkString attributes.name ∧ isNext id c.attributes then
      some { c with attributes := c.attributes ++ [attributes] }
    else none
  | .stringDefinition id string => if isNext id c.strings then some { c with strings := c.strings ++ [string] } else none
  | .sample s =>
    if s.frames.all (fun id => c.checkLocation id) ∧ s.values.all (fun v => c.checkAttribute v.1) ∧
        s.tracePointData.entries.all (fun p => c.checkString p.1) then
      some { c with samples := c.samples ++ [s] }
    else none
  | .tracePointFormat id format =>
    if c.checkString format.system ∧ c.checkString format.name ∧ ¬c.tracePointFormats.contains id then
      some { c with tracePointFormats := c.tracePointFormats.insert id format }
    else none
  | .error _ | .progress _ | .skipped => some c

/-- The state of `extractTrace`: the tables, and how far the sender says that it is. -/
structure Extraction where
  client : PerfParserTestClient := {}
  progress : Option Int := minusOne
deriving DecidableEq, Repr, Inhabited

namespace Extraction

variable (x : Extraction)

/-- What a message does, none where a check fails.  The progress has to increase. -/
def apply : Event → Option Extraction
  | .progress percent => if greater percent x.progress then some { x with progress := percent } else none
  | event => (x.client.apply event).map fun client => { x with client }

/-- A message has to be read as a whole. -/
def handle (message : QByteArray) : Option Extraction :=
  let (event, rest) := (Event.read message.length).run message
  if rest.isEmpty then x.apply event else none

end Extraction

/-- `PerfParserTestClient::extractTrace`, by a client with streams of a version. -/
def extractTrace (version : Int32) (device : QByteArray) : Option PerfParserTestClient :=
  if device.isEmpty ∨ device.take 12 ≠ Wire.streamMagic ∨ ((QDataStream.i32 false).run (device.drop 12)).1 ≠ version then none
  else (Wire.framing.receive Extraction.handle {} (device.drop 16)).map Extraction.client

/-! ## The text of a trace -/

/-- `m_locations.value(id)`. -/
def location (id : Int32) : LocationEvent := (at? c.locations id).getD {}

/-- The locations that the loop of `convertToText` goes on to print, none while there are more than so many. -/
def callers : Nat → Int32 → Option (List Int32)
  | 0, _ => none
  | n + 1, id => if id = -1 then some [] else (id :: ·) <$> callers n (c.location id).parentLocationId

/-- The locations that `convertToText` prints for a frame. -/
def printedFrame (n : Nat) (frame : Int32) : Option (List Int32) :=
  (frame :: ·) <$> c.callers n (c.location frame).parentLocationId

end PerfParserTestClient

end PerfParser
